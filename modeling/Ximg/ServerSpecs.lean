import Ximg.FileSpecs

/-!
# What the cache, the backends and the reply do

One specification for each program that talks to a server or to the connection.
-/

namespace Ximg
open Text Vfs Calls

variable {Im : Type} {env : Env Im} {settings : Settings} {thrArg : ThrArg} {w : World}
  {key buff : Bytes}

/-! ## The cache -/

def Caching (settings : Settings) (thrArg : ThrArg) : Prop :=
  settings.cacheOn ≠ 0 ∧ thrArg.cacheConn = true

def World.caching (w : World) (cache : Bytes → Option Bytes) : World := { w with cache := cache }

@[simp] theorem World.caching_disk (w : World) (cache : Bytes → Option Bytes) :
    (w.caching cache).disk = w.disk := rfl

@[simp] theorem World.caching_db (w : World) (cache : Bytes → Option Bytes) :
    (w.caching cache).db = w.db := rfl

@[simp] theorem World.caching_out (w : World) (cache : Bytes → Option Bytes) :
    (w.caching cache).out = w.out := rfl

@[simp] theorem World.caching_cache (w : World) (cache : Bytes → Option Bytes) :
    (w.caching cache).cache = cache := rfl

structure Missed (settings : Settings) (thrArg : ThrArg) (key : Bytes)
    (cache cache' : Bytes → Option Bytes) : Prop where
  change : cache' = cache ∨ cache' = Env.erased cache key
  gone : Caching settings thrArg → cache' key = none

theorem missed_same (off : ¬Caching settings thrArg) (cache : Bytes → Option Bytes) :
    Missed settings thrArg key cache cache := ⟨.inl rfl, fun on => absurd on off⟩

theorem missed_erased (cache : Bytes → Option Bytes) :
    Missed settings thrArg key cache (Env.erased cache key) :=
  ⟨.inr rfl, fun _ => Function.update_self _ _ _⟩

/-- A value is put into the cache, or it is not. -/
def Cached (settings : Settings) (thrArg : ThrArg) (key value : Bytes)
    (cache cache' : Bytes → Option Bytes) : Prop :=
  cache' = cache ∨ (Caching settings thrArg ∧ cache' = Env.stored cache key value)

theorem wp_findCacheBin {Q : Option Bytes → World → Prop}
    (miss : ∀ cache, Missed settings thrArg key w.cache cache → Q none (w.caching cache))
    (hit : ∀ value, Caching settings thrArg → w.cache key = some value → Q (some value) w) :
    env.machine.wp (findCacheBin settings thrArg key) Q w := by
  unfold findCacheBin
  split
  · exact miss w.cache (missed_same (fun on => on.1 (by assumption)) _)
  rename_i on
  split
  · rename_i unconnected
    exact miss w.cache (missed_same (fun on => by simp [on.2] at unconnected) _)
  rename_i connected
  rintro r (rfl | ⟨-, rfl⟩)
  · change Q (w.cache key) _
    cases held : w.cache key with
    | none =>
        have calm : env.calm w (.memcached .cache (.get key)) = none := held
        rw [calm]
        exact miss _ (missed_erased _)
    | some value =>
        have calm : env.calm w (.memcached .cache (.get key)) = some value := held
        rw [calm]
        exact hit value ⟨on, by simpa using connected⟩ held
  · exact miss _ (missed_erased _)

theorem wp_setCacheBin {value : Bytes} {Q : Int → World → Prop}
    (h : ∀ r cache, Cached settings thrArg key value w.cache cache → Q r (w.caching cache)) :
    env.machine.wp (setCacheBin settings thrArg key value) Q w := by
  unfold setCacheBin
  split
  · exact h _ w.cache (.inl rfl)
  rename_i on
  split
  · exact h _ w.cache (.inl rfl)
  rename_i connected
  rw [sys_bind, Env.wp_calm _ _ fun _ => id]
  exact h _ _ (.inr ⟨⟨on, by simpa using connected⟩, rfl⟩)

theorem wp_delCache {Q : Int → World → Prop}
    (h : ∀ r cache, Missed settings thrArg key w.cache cache → Q r (w.caching cache)) :
    env.machine.wp (delCache settings thrArg key) Q w := by
  unfold delCache
  split
  · exact h _ w.cache (missed_same (fun on => on.1 (by assumption)) _)
  split
  · rename_i unconnected
    exact h _ w.cache (missed_same (fun on => by simp [on.2] at unconnected) _)
  rw [sys_bind, Env.wp_calm _ _ fun _ => id]
  split <;> exact h _ _ (missed_erased _)

theorem wp_cacheImg {Q : Unit → World → Prop}
    (h : ∀ cache, Cached settings thrArg key buff w.cache cache → Q () (w.caching cache)) :
    env.machine.wp (cacheImg settings thrArg key buff) Q w := by
  unfold cacheImg
  split
  · rw [Machine.wp_bind]
    exact wp_setCacheBin fun _ => h
  · exact h w.cache (.inl rfl)

/-! ## The backends -/

def Backend (settings : Settings) (thrArg : ThrArg) : Prop :=
  (settings.mode = 2 ∧ thrArg.beansdbConn = true) ∨ (settings.mode = 3 ∧ thrArg.ssdbConn = true)

@[simp] theorem freeReplyObject_some (r : RedisReply) :
    (freeReplyObject (some r) : Prog (Sys Im) Unit) = .ret () := rfl

/-- Only a lost reply of ssdb is not survived. -/
theorem wp_existDb (backend : Backend settings thrArg) {Q : Int → World → Prop} :
    env.machine.wp (existDb settings thrArg key) Q w ↔
      Q (if (w.db key).isSome then 1 else -1) w ∧
        (settings.mode = 3 → env.deletes.ignores = true → Q (-1) { w with crashed := true }) := by
  rcases backend with ⟨mode, conn⟩ | ⟨mode, conn⟩
  · rw [existDb, if_pos mode, Machine.wp_bind, existBeansdb, if_neg (by simp [conn]), sys_bind,
      Env.wp_calm _ _ fun _ => id]
    cases held : w.db key with
    | none => simp [Env.calm, Env.calmMemcached, Env.effect, held, mode]
    | some value => simp [Env.calm, Env.calmMemcached, Env.effect, held, mode]
  · rw [existDb, if_neg (by simp [mode]), if_pos mode, Machine.wp_bind, existSsdb,
      if_neg (by simp [conn]), sys_bind]
    have answered : env.machine.wp ((do
          let rst : Int := if Env.calmRedis w.db (.exists key) = some (.integer 1) then 1 else -1
          freeReplyObject (Env.calmRedis w.db (.exists key))
          return rst) >>= fun rst => if rst = 1 then return 1 else return -1) Q w ↔
        Q (if (w.db key).isSome then 1 else -1) w := by
      cases held : w.db key <;> simp [Env.calmRedis, held]
    constructor
    · intro run
      exact ⟨answered.1 (run _ (.inl rfl)),
        fun _ ignores => run none (.inr ⟨ignores, rfl⟩) () (.inl rfl)⟩
    · rintro ⟨found, lost⟩ r (rfl | ⟨ignores, rfl⟩)
      · exact answered.2 found
      · rintro ⟨⟩ -
        exact lost mode ignores

theorem wp_getImgDb (backend : Backend settings thrArg) {Q : Option Bytes → World → Prop} :
    env.machine.wp (getImgDb settings thrArg key) Q w ↔ Q (w.db key) w := by
  rcases backend with ⟨mode, conn⟩ | ⟨mode, conn⟩
  · rw [getImgDb, if_pos ⟨mode, conn⟩, getImgBeansdb, if_neg (by simp [conn]), sys,
      Env.wp_calm _ _ fun _ => id]
    cases held : w.db key <;> simp [Env.calm, Env.calmMemcached, Env.effect, held]
  · rw [getImgDb, if_neg (by simp [mode]), if_pos ⟨mode, conn⟩, getImgSsdb, if_neg (by simp [conn]),
      sys_bind, Env.wp_calm _ _ fun _ => id]
    cases held : w.db key <;> simp [Env.calm, Env.calmRedis, Env.effect, held]

theorem wp_saveImgDb (backend : Backend settings thrArg) {Q : Int → World → Prop} :
    env.machine.wp (saveImgDb settings thrArg key buff) Q w ↔
      Q 1 { w with db := Env.stored w.db key buff } := by
  have ok : strcasecmp (ascii "OK") (ascii "OK") = true := by decide
  rcases backend with ⟨mode, conn⟩ | ⟨mode, conn⟩
  · rw [saveImgDb, if_pos mode, saveImgBeansdb, if_neg (by simp [conn]), sys_bind,
      Env.wp_calm _ _ fun _ => id]
    simp [Env.calm, Env.calmMemcached, Env.effect]
  · rw [saveImgDb, if_neg (by simp [mode]), if_pos mode, saveImgSsdb, if_neg (by simp [conn]),
      sys_bind, Env.wp_calm _ _ fun _ => id]
    simp [Env.calm, Env.calmRedis, Env.effect, ok]

/-- A delete call changes what the backend does under any reply, unless it is reliable. Only a
lost reply of ssdb is not survived. -/
theorem wp_delDb (backend : Backend settings thrArg) {Q : Int → World → Prop}
    (h : ∀ r, (r = 1 ∨ r = -1) →
      (env.deletes = .reliable → r = if (w.db key).isSome then 1 else -1) →
      Q r { w with db := env.deleted w.db key })
    (lost : settings.mode = 3 → env.deletes.loses = true →
      Q (-1) { w with db := env.deleted w.db key, crashed := true }) :
    env.machine.wp (delDb settings thrArg key) Q w := by
  rcases backend with ⟨mode, conn⟩ | ⟨mode, conn⟩
  · rw [delDb, if_pos mode, Machine.wp_bind, delBeansdb, if_neg (by simp [conn]), sys_bind]
    rintro r legal
    have reply : env.deletes = .reliable → r = (w.db key).isSome := by
      intro reliable
      exact legal.resolve_right fun deviates => deviates reliable
    cases r with
    | true => exact h 1 (.inl rfl) fun reliable => by simp [← reply reliable]
    | false => exact h (-1) (.inr rfl) fun reliable => by simp [← reply reliable]
  · rw [delDb, if_neg (by simp [mode]), if_pos mode, Machine.wp_bind, delSsdb,
      if_neg (by simp [conn]), sys_bind]
    rintro r legal
    cases r with
    | none =>
        have loses : env.deletes.loses = true := legal.elim nofun fun deviates => deviates.2 rfl
        have both : env.machine.wp (do
            sys .crash
            return (-1 : Int)) (fun r w' => env.machine.wp (if r = -1 then pure (-1) else pure 1) Q w')
            (env.effect w (.redisCommand (.del key)) none) := by
          rw [sys_bind, Env.wp_crash]
          exact lost mode loses
        exact both
    | some r =>
        have reply : env.deletes = .reliable →
            some r = some (.integer (if (w.db key).isSome then 1 else 0)) := by
          intro reliable
          exact legal.resolve_right fun deviates => deviates.1 reliable
        dsimp only
        rw [freeReplyObject_some, Prog.ret_bind]
        by_cases one : some r = some (.integer 1)
        · rw [if_pos one]
          refine h 1 (.inl rfl) fun reliable => ?_
          have := reply reliable
          cases held : w.db key <;> simp_all
        · rw [if_neg one]
          refine h (-1) (.inr rfl) fun reliable => ?_
          have := reply reliable
          cases held : w.db key <;> simp_all

section Unconnected
variable (unconnected : ¬Backend settings thrArg)

include unconnected

theorem existDb_unconnected :
    (existDb settings thrArg key : Prog (Sys Im) Int) = .ret (-1) := by
  rw [Backend, not_or, not_and, not_and, Bool.not_eq_true, Bool.not_eq_true] at unconnected
  unfold existDb
  split
  · rename_i mode
    simp [existBeansdb, unconnected.1 mode]
  · split
    · rename_i mode
      simp [existSsdb, unconnected.2 mode]
    · rfl

theorem getImgDb_unconnected :
    (getImgDb settings thrArg key : Prog (Sys Im) (Option Bytes)) = .ret none := by
  rw [Backend, not_or] at unconnected
  rw [getImgDb, if_neg unconnected.1, if_neg unconnected.2]
  rfl

theorem saveImgDb_unconnected :
    (saveImgDb settings thrArg key buff : Prog (Sys Im) Int) = .ret (-1) := by
  rw [Backend, not_or, not_and, not_and, Bool.not_eq_true, Bool.not_eq_true] at unconnected
  unfold saveImgDb
  split
  · rename_i mode
    simp [saveImgBeansdb, unconnected.1 mode]
  · split
    · rename_i mode
      simp [saveImgSsdb, unconnected.2 mode]
    · rfl

end Unconnected

/-! ## The reply -/

def etagMatches (settings : Settings) (request : EvhtpRequest) (buff : Bytes) : Bool :=
  match request.headerFind "If-None-Match" with
  | none => false
  | some etagVar =>
      settings.etag = 1 ∧ (md5sum buff (Int32.ofNat buff.length)).take 32 = etagVar.take 32

def replyCode (settings : Settings) (request : EvhtpRequest) (buff : Bytes) : Int :=
  if etagMatches settings request buff then 2 else 1

def World.tagged (settings : Settings) (buff : Bytes) (w : World) : World :=
  { w with
    headersOut := w.headersOut ++
      if settings.etag = 1 then [(ascii "Etag", md5sum buff (Int32.ofNat buff.length))] else [] }

def World.replied (settings : Settings) (request : EvhtpRequest) (buff : Bytes) (w : World) :
    World :=
  if etagMatches settings request buff then w
  else { w.tagged settings buff with out := w.out ++ buff }

theorem wp_notModified {request : EvhtpRequest} {Q : Bool → World → Prop} :
    env.machine.wp (notModified settings request buff) Q w ↔
      Q (etagMatches settings request buff)
        (if etagMatches settings request buff then w else w.tagged settings buff) := by
  rw [notModified, etagMatches]
  by_cases on : settings.etag = 1
  · cases header : request.headerFind "If-None-Match" with
    | none => simp [on, zimgEtagSet, header, World.tagged]
    | some etagVar =>
        by_cases same : (md5sum buff (Int32.ofNat buff.length)).take 32 = etagVar.take 32
        · simp [on, zimgEtagSet, header, same]
        · simp [on, zimgEtagSet, header, same, World.tagged]
  · cases request.headerFind "If-None-Match" <;> simp [on, World.tagged]

theorem wp_respond {request : EvhtpRequest} {Q : Int → World → Prop} :
    env.machine.wp (respond settings request buff) Q w ↔
      Q (replyCode settings request buff) (w.replied settings request buff) := by
  rw [respond, Machine.wp_bind, wp_notModified, replyCode, World.replied]
  cases etagMatches settings request buff with
  | true => rfl
  | false =>
      simp only [Bool.false_eq_true, if_false, sys_bind, Env.wp_evbufferAdd]
      rfl

theorem wp_addInfo {im : Im} {Q : Unit → World → Prop}
    (h : ∀ text, Q () { w with out := w.out ++ text }) : env.machine.wp (addInfo im) Q w := by
  simp only [addInfo, magick_bind, Env.wp_magick]
  rw [sys, Env.wp_evbufferAddPrintf]
  exact h _

theorem World.replied_on (request : EvhtpRequest) (d : Disk) :
    (w.on d).replied settings request buff = (w.replied settings request buff).on d := by
  unfold World.replied
  split <;> rfl

theorem World.replied_disk (request : EvhtpRequest) :
    (w.replied settings request buff).disk = w.disk := by
  unfold World.replied
  split <;> rfl

theorem World.replied_db (request : EvhtpRequest) :
    (w.replied settings request buff).db = w.db := by
  unfold World.replied
  split <;> rfl

theorem World.replied_cache (request : EvhtpRequest) :
    (w.replied settings request buff).cache = w.cache := by
  unfold World.replied
  split <;> rfl

end Ximg
