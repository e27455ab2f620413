import Ximg.Zcommon

/-!
# The world the server runs in

The state behind the system calls, and how it answers them: the disk, the cache, one backend
database, and the output buffers of the request being handled. The image library and the script
are functions of their arguments.
-/

namespace Ximg
open Text Vfs Calls

variable {Im : Type}

structure World where
  disk : Disk
  cache : Bytes → Option Bytes
  /-- What the backend of the configured mode holds. -/
  db : Bytes → Option Bytes
  out : Bytes
  headersOut : List (Bytes × Bytes)
  crashed : Bool

/-- What a delete call does to the backend: what it says, or a fixed outcome under any reply. A
reply of ssdb may be `NULL` unless every such command is answered: each `DEL`, and each `EXISTS`. -/
inductive Deletes where
  | reliable
  | removes (key answered found : Bool)
  deriving DecidableEq

def Deletes.spares : Deletes → Bool
  | removes false _ _ => true
  | _ => false

def Deletes.loses : Deletes → Bool
  | removes _ false _ => true
  | _ => false

def Deletes.ignores : Deletes → Bool
  | removes _ _ false => true
  | _ => false

theorem Deletes.not_ignores {deletes : Deletes} (reliable : deletes = .reliable) :
    deletes.ignores ≠ true := by
  rw [reliable]
  decide

structure Env (Im : Type) where
  lib : (op : MagickOp Im) → op.Res
  script : Bytes → Im → Int32 × Im
  faults : Faults
  /-- The cache may drop an entry before any lookup. -/
  evicts : Bool
  deletes : Deletes

namespace Env

def calmMemcached (held : Bytes → Option Bytes) : (op : MemcachedOp) → op.Res
  | .get key => held key
  | .set _ _ => true
  | .delete key => (held key).isSome

def calmRedis (held : Bytes → Option Bytes) : RedisCommand → Option RedisReply
  | .get key => match held key with
      | some value => some (.string value)
      | none => some .nil
  | .set _ _ => some (.status (ascii "OK"))
  | .exists key => some (.integer (if (held key).isSome then 1 else 0))
  | .del key => some (.integer (if (held key).isSome then 1 else 0))

def stored (held : Bytes → Option Bytes) (key value : Bytes) : Bytes → Option Bytes :=
  Function.update held key (some value)

def erased (held : Bytes → Option Bytes) (key : Bytes) : Bytes → Option Bytes :=
  Function.update held key none

variable (env : Env Im)

def calm (w : World) : (op : SysOp Im) → op.Res
  | .disk op => w.disk.calm op
  | .memcached .cache op => calmMemcached w.cache op
  | .memcached .beansdb op => calmMemcached w.db op
  | .redisCommand cmd => calmRedis w.db cmd
  | .magick op => env.lib op
  | .readImage path => match w.disk.tree.lookup path with
      | some (.file content) => env.lib (.readImageBlob content)
      | _ => none
  | .luaPcall type im => env.script type im
  | .malloc _ => true
  | .requestNew => ()
  | .bufferOut => w.out
  | .strncmp s t n => s.take n = t.take n
  | .evbufferAdd _ => true
  | .evbufferAddPrintf _ => ()
  | .headersAddHeader _ _ => ()
  | .crash => ()

def deviates (w : World) : (op : SysOp Im) → op.Res → Prop
  | .disk op, r => w.disk.deviates env.faults op r
  | .memcached .cache (.get _), r => env.evicts = true ∧ r = none
  | .memcached .beansdb (.delete _), _ => env.deletes ≠ .reliable
  | .redisCommand (.del _), r =>
      env.deletes ≠ .reliable ∧ (r = none → env.deletes.loses = true)
  | .redisCommand (.exists _), r => env.deletes.ignores = true ∧ r = none
  | _, _ => False

def deleted (held : Bytes → Option Bytes) (key : Bytes) : Bytes → Option Bytes :=
  if env.deletes.spares then held else erased held key

theorem deleted_none {held : Bytes → Option Bytes} {k : Bytes} (gone : held k = none)
    (key : Bytes) : env.deleted held key k = none := by
  have erase : erased held key k = none := by simp [erased, Function.update_apply, gone]
  unfold deleted
  split
  · exact gone
  · exact erase

def effect (w : World) : (op : SysOp Im) → op.Res → World
  | .disk op, r => { w with disk := w.disk.effect op r }
  | .memcached .cache (.get key), none => { w with cache := erased w.cache key }
  | .memcached .cache (.set key value), _ => { w with cache := stored w.cache key value }
  | .memcached .cache (.delete key), _ => { w with cache := erased w.cache key }
  | .memcached .beansdb (.set key value), _ => { w with db := stored w.db key value }
  | .memcached .beansdb (.delete key), _ => { w with db := env.deleted w.db key }
  | .redisCommand (.set key value), _ => { w with db := stored w.db key value }
  | .redisCommand (.del key), _ => { w with db := env.deleted w.db key }
  | .requestNew, _ => { w with out := [], headersOut := [] }
  | .evbufferAdd buff, true => { w with out := w.out ++ buff }
  | .evbufferAddPrintf text, _ => { w with out := w.out ++ text }
  | .headersAddHeader key value, _ => { w with headersOut := w.headersOut ++ [(key, value)] }
  | .crash, _ => { w with crashed := true }
  | _, _ => w

def machine : Machine (Sys Im) World where
  Legal w op r := r = env.calm w op ∨ env.deviates w op r
  effect := env.effect

theorem answers (w : World) (op : SysOp Im) : ∃ r, env.machine.Legal w op r := ⟨_, .inl rfl⟩

/-! ## Rules for the calls -/

section Rules
variable {env} {α : Type} {Q : α → World → Prop} {w : World}

theorem wp_calm (op : SysOp Im) (k : op.Res → Prog (Sys Im) α)
    (calm : ∀ r, ¬env.deviates w op r) :
    env.machine.wp (.call op k) Q w ↔
      env.machine.wp (k (env.calm w op)) Q (env.effect w op (env.calm w op)) :=
  env.machine.wp_calm k Q fun r => ⟨fun legal => legal.resolve_right (calm r), .inl⟩

@[simp] theorem wp_magick (op : MagickOp Im) (k : op.Res → Prog (Sys Im) α) :
    env.machine.wp (.call (.magick op) k) Q w ↔ env.machine.wp (k (env.lib op)) Q w :=
  wp_calm (.magick op) k fun _ => id

@[simp] theorem wp_luaPcall (type : Bytes) (im : Im) (k : Int32 × Im → Prog (Sys Im) α) :
    env.machine.wp (.call (.luaPcall type im) k) Q w ↔ env.machine.wp (k (env.script type im)) Q w :=
  wp_calm (.luaPcall type im) k fun _ => id

@[simp] theorem wp_malloc (size : Nat) (k : Bool → Prog (Sys Im) α) :
    env.machine.wp (.call (.malloc size) k) Q w ↔ env.machine.wp (k true) Q w :=
  wp_calm (.malloc size) k fun _ => id

@[simp] theorem wp_strncmp (s t : Bytes) (n : Nat) (k : Bool → Prog (Sys Im) α) :
    env.machine.wp (.call (.strncmp s t n) k) Q w ↔
      env.machine.wp (k (s.take n = t.take n)) Q w :=
  wp_calm (.strncmp s t n) k fun _ => id

@[simp] theorem wp_readImage (path : Bytes) (k : Option Im → Prog (Sys Im) α) :
    env.machine.wp (.call (.readImage path) k) Q w ↔
      env.machine.wp (k (env.calm w (.readImage path))) Q w :=
  wp_calm (.readImage path) k fun _ => id

@[simp] theorem wp_requestNew (k : Unit → Prog (Sys Im) α) :
    env.machine.wp (.call .requestNew k) Q w ↔
      env.machine.wp (k ()) Q { w with out := [], headersOut := [] } :=
  wp_calm (.requestNew) k fun _ => id

@[simp] theorem wp_bufferOut (k : Bytes → Prog (Sys Im) α) :
    env.machine.wp (.call .bufferOut k) Q w ↔ env.machine.wp (k w.out) Q w :=
  wp_calm (.bufferOut) k fun _ => id

@[simp] theorem wp_evbufferAdd (buff : Bytes) (k : Bool → Prog (Sys Im) α) :
    env.machine.wp (.call (.evbufferAdd buff) k) Q w ↔
      env.machine.wp (k true) Q { w with out := w.out ++ buff } :=
  wp_calm (.evbufferAdd buff) k fun _ => id

@[simp] theorem wp_evbufferAddPrintf (text : Bytes) (k : Unit → Prog (Sys Im) α) :
    env.machine.wp (.call (.evbufferAddPrintf text) k) Q w ↔
      env.machine.wp (k ()) Q { w with out := w.out ++ text } :=
  wp_calm (.evbufferAddPrintf text) k fun _ => id

@[simp] theorem wp_headersAddHeader (key value : Bytes) (k : Unit → Prog (Sys Im) α) :
    env.machine.wp (.call (.headersAddHeader key value) k) Q w ↔
      env.machine.wp (k ()) Q { w with headersOut := w.headersOut ++ [(key, value)] } :=
  wp_calm (.headersAddHeader key value) k fun _ => id

@[simp] theorem wp_crash (k : Unit → Prog (Sys Im) α) :
    env.machine.wp (.call .crash k) Q w ↔ env.machine.wp (k ()) Q { w with crashed := true } :=
  wp_calm .crash k fun _ => id

theorem wp_disk_calm (op : DiskOp) (k : op.Res → Prog (Sys Im) α)
    (calm : ∀ r, ¬w.disk.deviates env.faults op r) :
    env.machine.wp (.call (.disk op) k) Q w ↔
      env.machine.wp (k (w.disk.calm op)) Q { w with disk := w.disk.effect op (w.disk.calm op) } :=
  wp_calm (.disk op) k calm

@[simp] theorem wp_stat (path : Bytes) (k : Option Kind → Prog (Sys Im) α) :
    env.machine.wp (.call (.disk (.stat path)) k) Q w ↔
      env.machine.wp (k ((w.disk.tree.lookup path).map Node.kind)) Q w :=
  wp_disk_calm (.stat path) k fun _ => id

end Rules
end Env
end Ximg
