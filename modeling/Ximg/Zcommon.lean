import Ximg.Library.Disk
import Ximg.Zaccess

/-!
# Settings, requests and system calls

The records that the image functions share, and the calls they make: to the disk, to the cache and
the backends, to the image library, and to the connection's buffers.
-/

namespace Ximg
open Text Vfs Calls

def CACHE_MAX_SIZE : Nat := 1048576
def CACHE_KEY_SIZE : Nat := 128
def PATH_MAX_SIZE : Nat := 512

structure CString where
  bytes : Bytes
  noNul : 0 ∉ bytes

structure CArray (size : Nat) extends CString where
  fits : bytes.length < size

structure Settings where
  maxKeepalives : Int32
  etag : Int32
  upAccess : Option ZimgAccessConf
  downAccess : Option ZimgAccessConf
  adminAccess : Option ZimgAccessConf
  cacheOn : Int32
  rootPath : CArray 512
  adminPath : CArray 512
  disableArgs : Int32
  disableType : Int32
  disableZoomUp : Int32
  scriptOn : Int32
  format : CArray 16
  quality : Int32
  mode : Int32
  saveNew : Int32
  maxSize : Int32
  imgPath : CArray 512

theorem none_noNul : 0 ∉ ascii "none" := by decide

theorem none_fits : (ascii "none").length < 16 := by decide

def smallSettings (mode cacheOn : Int32) : Settings where
  maxKeepalives := 100
  etag := 0
  upAccess := none
  downAccess := none
  adminAccess := none
  cacheOn := cacheOn
  rootPath := ⟨⟨[], by decide⟩, by decide⟩
  adminPath := ⟨⟨[], by decide⟩, by decide⟩
  disableArgs := 0
  disableType := 0
  disableZoomUp := 0
  scriptOn := 0
  format := ⟨⟨ascii "none", none_noNul⟩, none_fits⟩
  quality := 75
  mode := mode
  saveNew := 1
  maxSize := 1000
  imgPath := ⟨⟨ascii "/img", by decide⟩, by decide⟩

/-- Which of a thread's connections are not `NULL`. -/
structure ThrArg where
  cacheConn : Bool
  beansdbConn : Bool
  ssdbConn : Bool
  luaState : Bool

def IsMd5 (s : Bytes) : Prop :=
  s.length = 32 ∧ ∀ c ∈ s, (48 ≤ c ∧ c ≤ 57) ∨ (97 ≤ c ∧ c ≤ 102) ∨ (65 ≤ c ∧ c ≤ 70)

instance (s : Bytes) : Decidable (IsMd5 s) := inferInstanceAs (Decidable (_ ∧ _))

structure Md5 where
  bytes : Bytes
  isMd5 : IsMd5 bytes
  deriving DecidableEq

theorem Md5.ext_bytes {h k : Md5} (same : h.bytes = k.bytes) : h = k := by
  cases h
  cases k
  simpa using same

structure ZimgReq where
  md5 : Md5
  type : Option CString
  width : Int32
  height : Int32
  proportion : Int32
  gray : Int32
  x : Int32
  y : Int32
  rotate : Int32
  quality : Int32
  fmt : CString
  sv : Int32
  thrArg : ThrArg

def strcasecmp (s t : Bytes) : Bool :=
  let lower (c : UInt8) : UInt8 := if 65 ≤ c ∧ c ≤ 90 then c + 32 else c
  s.map lower = t.map lower

structure EvhtpKv where
  key : CString
  val : CString

structure EvhtpRequest where
  method : Nat
  uriPathFull : CString
  uriQuery : Option (List EvhtpKv)
  headersIn : List EvhtpKv
  bufferIn : Bytes

def evhtpKvFind (kvs : List EvhtpKv) (key : Bytes) : Option Bytes :=
  (kvs.find? fun kv => strcasecmp kv.key.bytes key).map fun kv => kv.val.bytes

def EvhtpRequest.headerFind (req : EvhtpRequest) (key : String) : Option Bytes :=
  evhtpKvFind req.headersIn (ascii key)

/-! ## System calls -/

inductive Server where
  | cache
  | beansdb
  deriving DecidableEq

inductive MemcachedOp where
  | get (key : Bytes)
  | set (key value : Bytes)
  | delete (key : Bytes)

/-- A value that was found, or whether the call succeeded. -/
@[reducible] def MemcachedOp.Res : MemcachedOp → Type
  | get _ => Option Bytes
  | set _ _ | delete _ => Bool

inductive RedisCommand where
  | get (key : Bytes)
  | set (key value : Bytes)
  | exists (key : Bytes)
  | del (key : Bytes)

inductive RedisReply where
  | string (str : Bytes)
  | status (str : Bytes)
  | integer (n : Int)
  | error (str : Bytes)
  | nil
  deriving DecidableEq

/-- Calls of the image library on a wand whose state is `Im`. -/
inductive MagickOp (Im : Type) where
  | newWand
  | readImageBlob (blob : Bytes)
  | getImageLength (im : Im)
  | getImageBlob (im : Im)
  | getImageWidth (im : Im)
  | getImageHeight (im : Im)
  | getImageOrientation (im : Im)
  | getImageCompressionQuality (im : Im)
  | getImageFormat (im : Im)
  | newPixelWand
  | pixelSetColor (color : Bytes)
  | resetIterator (im : Im)
  | setImageOrientation (im : Im)
  | autoOrientImage (im : Im)
  | resizeImage (im : Im) (cols rows : UInt64)
  | cropImage (im : Im) (cols rows : UInt64) (x y : Int64)
  | rotateImage (im : Im) (background : Bytes) (degrees : Int32)
  | setImageTypeGrayscale (im : Im)
  | setImageCompressionQuality (im : Im) (quality : UInt64)
  | setImageFormat (im : Im) (format : Bytes)
  | stripImage (im : Im)

/-- An operation that changes the wand returns whether it passed, with the wand after it. -/
@[reducible] def MagickOp.Res {Im : Type} : MagickOp Im → Type
  | newWand | newPixelWand | pixelSetColor _ => Bool
  | readImageBlob _ => Option Im
  | getImageLength _ => Nat
  | getImageBlob _ => Option Bytes
  | getImageWidth _ | getImageHeight _ => UInt64
  | getImageOrientation _ | getImageCompressionQuality _ => Int32
  | getImageFormat _ => Bytes
  | resetIterator _ | setImageOrientation _ => Im
  | autoOrientImage _ | resizeImage _ _ _ | cropImage _ _ _ _ _ | rotateImage _ _ _ |
    setImageTypeGrayscale _ | setImageCompressionQuality _ _ | setImageFormat _ _ |
    stripImage _ => Bool × Im

inductive SysOp (Im : Type) where
  | disk (op : DiskOp)
  | memcached (server : Server) (op : MemcachedOp)
  | redisCommand (cmd : RedisCommand)
  | magick (op : MagickOp Im)
  /-- Reads a wand from a file. -/
  | readImage (path : Bytes)
  /-- Runs the script on an image: what it left in `lua_ret`, and the wand after it. -/
  | luaPcall (type : Bytes) (im : Im)
  | malloc (size : Nat)
  /-- Whether two strings agree in their first `n` characters. -/
  | strncmp (s t : Bytes) (n : Nat)
  /-- A new request on the connection, with nothing in its output buffer. -/
  | requestNew
  /-- What the request's output buffer holds when its reply is sent. -/
  | bufferOut
  | evbufferAdd (buff : Bytes)
  | evbufferAddPrintf (text : Bytes)
  | headersAddHeader (key value : Bytes)
  /-- A read through `NULL`. The process ends here, and nothing behind it takes place. -/
  | crash

@[reducible] def SysOp.Res {Im : Type} : SysOp Im → Type
  | disk op => op.Res
  | memcached _ op => op.Res
  | redisCommand _ => Option RedisReply
  | magick op => op.Res
  | readImage _ => Option Im
  | luaPcall _ _ => Int32 × Im
  | malloc _ | strncmp _ _ _ | evbufferAdd _ => Bool
  | requestNew | evbufferAddPrintf _ | headersAddHeader _ _ | crash => Unit
  | bufferOut => Bytes

abbrev Sys (Im : Type) : Signature := ⟨SysOp Im, SysOp.Res⟩

section Calls
variable {Im : Type} {α : Type}

def sys (op : SysOp Im) : Prog (Sys Im) op.Res := .call op .ret

def disk (op : DiskOp) : Prog (Sys Im) op.Res := sys (.disk op)

def magick (op : MagickOp Im) : Prog (Sys Im) op.Res := sys (.magick op)

@[simp] theorem sys_bind (op : SysOp Im) (k : op.Res → Prog (Sys Im) α) :
    @Bind.bind (Prog (Sys Im)) _ (no_index op.Res) α (sys op) k = .call op k := rfl

@[simp] theorem disk_bind (op : DiskOp) (k : op.Res → Prog (Sys Im) α) :
    @Bind.bind (Prog (Sys Im)) _ (no_index op.Res) α (disk op) k = .call (.disk op) k := rfl

@[simp] theorem magick_bind (op : MagickOp Im) (k : op.Res → Prog (Sys Im) α) :
    @Bind.bind (Prog (Sys Im)) _ (no_index op.Res) α (magick op) k = .call (.magick op) k := rfl

end Calls
end Ximg
