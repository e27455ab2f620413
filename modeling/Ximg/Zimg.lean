import Ximg.Zcache
import Ximg.Zdb
import Ximg.Zlscale
import Ximg.Zmd5
import Ximg.Zscale
import Ximg.Zutil

/-!
# Saving, getting, deleting and describing images

The image functions of the disk mode and of the database modes.
-/

namespace Ximg
open Text Vfs Calls

variable {Im : Type} (settings : Settings)

/-! ## Names -/

def wholePath (md5 : Bytes) : Bytes :=
  snprintf 512 (settings.imgPath.bytes ++ ascii "/" ++ decimalNat (strHash md5) ++ ascii "/" ++
    decimalNat (strHash (md5.drop 3)) ++ ascii "/" ++ md5)

def origPath (md5 : Bytes) : Bytes := snprintf 512 (wholePath settings md5 ++ ascii "/0*0")

/-- The type that selects the script, when the configuration has one. -/
def scriptType (req : ZimgReq) : Option CString := if settings.scriptOn = 1 then req.type else none

def ZimgReq.original (req : ZimgReq) : Prop :=
  req.proportion = 0 ∧ req.width = 0 ∧ req.height = 0

instance (req : ZimgReq) : Decidable req.original := inferInstanceAs (Decidable (_ ∧ _))

def rspCacheKey (req : ZimgReq) : Bytes :=
  match scriptType settings req with
  | some type => snprintf CACHE_KEY_SIZE (req.md5.bytes ++ ascii ":" ++ type.bytes)
  | none =>
      if req.original then strLcpy req.md5.bytes CACHE_KEY_SIZE
      else genKey req.md5.bytes [req.width, req.height, req.proportion, req.gray, req.x, req.y,
        req.rotate, req.quality] req.fmt.bytes

def rspName (req : ZimgReq) : Bytes :=
  let d (i : Int32) : Bytes := decimal i.toInt
  snprintf 128 (d req.width ++ ascii "*" ++ d req.height ++ ascii "_p" ++ d req.proportion ++
    ascii "_g" ++ d req.gray ++ ascii "_" ++ d req.x ++ ascii "*" ++ d req.y ++ ascii "_r" ++
    d req.rotate ++ ascii "_q" ++ d req.quality ++ ascii "." ++ req.fmt.bytes)

def rspPath (req : ZimgReq) : Bytes :=
  match scriptType settings req with
  | some type => snprintf 512 (wholePath settings req.md5.bytes ++ ascii "/t_" ++ type.bytes)
  | none =>
      if req.original then origPath settings req.md5.bytes
      else snprintf 512 (wholePath settings req.md5.bytes ++ ascii "/" ++ rspName req)

def saveNew (req : ZimgReq) (toSave : Bool) : Bool :=
  toSave ∧ (req.sv = 1 ∨ settings.saveNew = 1 ∨ (settings.saveNew = 2 ∧ req.type.isSome))

/-! ## Saving -/

def newImg (buff saveName : Bytes) : Prog (Sys Im) Int := do
  match ← disk (.openTrunc saveName) with
  | none => return -1
  | some fd =>
      if (← disk (.flock fd)) = false then
        disk (.close fd)
        return -1
      match ← disk (.write fd buff) with
      | none =>
          disk (.close fd)
          return -1
      | some wlen =>
          if wlen < buff.length then
            disk (.close fd)
            return -1
          disk (.unlock fd)
          disk (.close fd)
          return 1

def cacheImg (thrArg : ThrArg) (key buff : Bytes) : Prog (Sys Im) Unit := do
  if buff.length < CACHE_MAX_SIZE then
    let _ ← setCacheBin settings thrArg key buff

def saveImgModeDb (thrArg : ThrArg) (md5 buff : Bytes) : Prog (Sys Im) Int := do
  if (← existDb settings thrArg md5) = 1 then return 1
  else if (← saveImgDb settings thrArg md5 buff) = -1 then return -1
  else return 1

def ensureDir (savePath : Bytes) : Prog (Sys Im) Int := do
  if (← isDir savePath) ≠ 1 then mkDirs savePath else return 1

def ensureFile (buff saveName : Bytes) : Prog (Sys Im) Int := do
  if (← isFile saveName) ≠ 1 then newImg buff saveName else return 1

def saveImgModeDisk (thrArg : ThrArg) (md5 buff : Bytes) : Prog (Sys Im) Int := do
  if (← ensureDir (wholePath settings md5)) = -1 then return -1
  else if (← ensureFile buff (origPath settings md5)) = -1 then return -1
  else
    cacheImg settings thrArg md5 buff
    return 1

def saveImg (thrArg : ThrArg) (buff : Bytes) : Prog (Sys Im) (Int × Bytes) := do
  let md5 := md5sum buff (Int32.ofNat buff.length)
  let result ←
    if settings.mode ≠ 1 then saveImgModeDb settings thrArg md5 buff
    else saveImgModeDisk settings thrArg md5 buff
  return (result, md5)

/-! ## Getting -/

def zimgEtagSet (request : EvhtpRequest) (buff : Bytes) : Prog (Sys Im) Int := do
  let md5 := md5sum buff (Int32.ofNat buff.length)
  match request.headerFind "If-None-Match" with
  | none =>
      sys (.headersAddHeader (ascii "Etag") md5)
      return 1
  | some etagVar =>
      if ← sys (.strncmp md5 etagVar 32) then return 2
      sys (.headersAddHeader (ascii "Etag") md5)
      return 1

def convertReq (im : Im) (req : ZimgReq) : Prog (Sys Im) (Int × Im) :=
  match scriptType settings req with
  | some type => luaConvert im type req.thrArg
  | none => convert settings im req

def readOrig (req : ZimgReq) : Prog (Sys Im) (Option Im) := do
  match ← sys (.readImage (origPath settings req.md5.bytes)) with
  | none => return none
  | some im =>
      let size ← magick (.getImageLength im)
      if size < CACHE_MAX_SIZE then
        let im ← magick (.resetIterator im)
        match ← magick (.getImageBlob im) with
        | none => return none
        | some newBuff =>
            let _ ← setCacheBin settings req.thrArg req.md5.bytes newBuff
            return some im
      else return some im

def loadOrig (req : ZimgReq) : Prog (Sys Im) (Option Im) := do
  if (← magick .newWand) = false then return none
  else match ← findCacheBin settings req.thrArg req.md5.bytes with
  | none => readOrig settings req
  | some origBuff =>
      match ← magick (.readImageBlob origBuff) with
      | some im => return some im
      | none =>
          let _ ← delCache settings req.thrArg req.md5.bytes
          readOrig settings req

/-- The converted blob, and whether it may be saved. -/
def renderImg (req : ZimgReq) : Prog (Sys Im) (Option (Bytes × Bool)) := do
  match ← loadOrig settings req with
  | none => return none
  | some im =>
      let (ret, im) ← convertReq settings im req
      if ret = -1 then return none
      else match ← magick (.getImageBlob im) with
      | none => return none
      | some buff => return some (buff, decide (ret ≠ 0))

def readRsp (fd : Nat) : Prog (Sys Im) (Option Bytes) := do
  let len ← disk (.fstat fd)
  if len = 0 then return none
  if (← sys (.malloc len)) = false then return none
  match ← disk (.read fd len) with
  | none => return none
  | some buff => if buff.length < len then return none else return some buff

def notModified (request : EvhtpRequest) (buff : Bytes) : Prog (Sys Im) Bool :=
  if settings.etag = 1 then do
    return (← zimgEtagSet request buff) = 2
  else return false

/-- The label `done` of the disk mode. -/
def respond (request : EvhtpRequest) (buff : Bytes) : Prog (Sys Im) Int := do
  if ← notModified settings request buff then return 2
  else if ← sys (.evbufferAdd buff) then return 1
  else return -1

/-- A failure to keep the rendition is only logged. -/
def saveRsp (req : ZimgReq) (toSave : Bool) (buff path : Bytes) : Prog (Sys Im) Unit := do
  if saveNew settings req toSave then
    let _ ← newImg buff path

def makeRsp (req : ZimgReq) (request : EvhtpRequest) (key path : Bytes) : Prog (Sys Im) Int := do
  match ← renderImg settings req with
  | none => return -1
  | some (buff, toSave) =>
      saveRsp settings req toSave buff path
      cacheImg settings req.thrArg key buff
      respond settings request buff

def sendRsp (req : ZimgReq) (request : EvhtpRequest) (key : Bytes) (fd : Nat) :
    Prog (Sys Im) Int := do
  match ← readRsp fd with
  | none =>
      disk (.close fd)
      return -1
  | some buff =>
      cacheImg settings req.thrArg key buff
      let result ← respond settings request buff
      disk (.close fd)
      return result

def getImg (req : ZimgReq) (request : EvhtpRequest) : Prog (Sys Im) Int := do
  if (← isDir (wholePath settings req.md5.bytes)) = -1 then return -1
  else
    let key := rspCacheKey settings req
    match ← findCacheBin settings req.thrArg key with
    | some buff => respond settings request buff
    | none =>
        let path := rspPath settings req
        match ← disk (.openRead path) with
        | none => makeRsp settings req request key path
        | some fd => sendRsp settings req request key fd

def saveRspDb (req : ZimgReq) (toSave : Bool) (buff : Bytes) : Prog (Sys Im) Unit := do
  if saveNew settings req toSave then
    let _ ← saveImgDb settings req.thrArg (rspCacheKey settings req) buff

/-- The label `done` of the database modes. -/
def respondDb (req : ZimgReq) (request : EvhtpRequest) (buff : Bytes) (toSave : Bool) :
    Prog (Sys Im) Int := do
  if ← notModified settings request buff then return 2
  else if ← sys (.evbufferAdd buff) then
    saveRspDb settings req toSave buff
    return 1
  else return -1

def loadOrigDb (req : ZimgReq) : Prog (Sys Im) (Option Bytes) := do
  match ← findCacheBin settings req.thrArg req.md5.bytes with
  | some origBuff => return some origBuff
  | none =>
      match ← getImgDb settings req.thrArg req.md5.bytes with
      | none => return none
      | some origBuff =>
          cacheImg settings req.thrArg req.md5.bytes origBuff
          return some origBuff

def makeRspDb (req : ZimgReq) (request : EvhtpRequest) (key : Bytes) : Prog (Sys Im) Int := do
  if (← magick .newWand) = false then return -1
  else match ← loadOrigDb settings req with
    | none => return -1
    | some origBuff =>
        match ← magick (.readImageBlob origBuff) with
        -- `result` still holds what the library returned
        | none => return 0
        | some im =>
            let (result, im) ← convertReq settings im req
            if result = -1 then return -1
            else match ← magick (.getImageBlob im) with
              -- `result` still holds what the conversion returned
              | none => return result
              | some buff =>
                  cacheImg settings req.thrArg key buff
                  respondDb settings req request buff (decide (result ≠ 0))

def getImgModeDb (req : ZimgReq) (request : EvhtpRequest) : Prog (Sys Im) Int := do
  if (← existDb settings req.thrArg req.md5.bytes) = -1 then return -1
  else
    let key := rspCacheKey settings req
    match ← findCacheBin settings req.thrArg key with
    | some buff => respondDb settings req request buff false
    | none =>
        match ← getImgDb settings req.thrArg key with
        | some buff =>
            cacheImg settings req.thrArg key buff
            respondDb settings req request buff false
        | none => makeRspDb settings req request key

/-! ## Deleting -/

def adminPage (md5 : Bytes) (t : Int32) : Bytes :=
  let gap := List.replicate 17 32
  ascii "<html><body><h1>Admin Command Successful!</h1>" ++ gap ++ ascii "<p>MD5: " ++ md5 ++
    ascii "</p>" ++ gap ++ ascii "<p>Command Type: " ++ decimal t.toInt ++ ascii "</p>" ++ gap ++
    ascii "</body></html>"

def addAdminPage (md5 : Bytes) (t : Int32) : Prog (Sys Im) Unit := do
  sys (.evbufferAddPrintf (adminPage md5 t))
  sys (.headersAddHeader (ascii "Content-Type") (ascii "text/html"))

def adminImg (md5 : Bytes) (t : Int32) : Prog (Sys Im) Int := do
  let path := wholePath settings md5
  if (← isDir path) = -1 then return 2
  else if t = 1 then
    if (← deleteFile PATH_MAX_SIZE path) ≠ -1 then
      addAdminPage md5 t
      return 1
    else return -1
  else return -1

def adminImgModeDb (thrArg : ThrArg) (md5 : Bytes) (t : Int32) : Prog (Sys Im) Int := do
  let cacheKey := strLcpy md5 CACHE_KEY_SIZE
  let result ← existDb settings thrArg cacheKey
  if result = -1 then return 2
  else if t = 1 then
    if (← delDb settings thrArg cacheKey) ≠ -1 then
      addAdminPage md5 t
      return 1
    else return result
  else return result

/-! ## Describing -/

/-- The members of the JSON object are numbers and the library's name of the format. -/
def addInfo (im : Im) : Prog (Sys Im) Unit := do
  let size ← magick (.getImageLength im)
  let width ← magick (.getImageWidth im)
  let height ← magick (.getImageHeight im)
  let quality ← magick (.getImageCompressionQuality im)
  let quality := if quality = 0 then 100 else quality
  let format ← magick (.getImageFormat im)
  sys (.evbufferAddPrintf (ascii "\x7b\"code\":200,\"data\":\x7b\"size\":" ++ decimalNat size ++
    ascii ",\"width\":" ++ decimalNat width.toNat ++ ascii ",\"height\":" ++
    decimalNat height.toNat ++ ascii ",\"quality\":" ++ decimalNat (ulong quality).toNat ++
    ascii ",\"format\":\"" ++ format ++ ascii "\"\x7d\x7d"))

def infoImg (md5 : Bytes) : Prog (Sys Im) Int := do
  if (← isDir (wholePath settings md5)) = -1 then return 0
  else if (← magick .newWand) = false then return -1
  else match ← sys (.readImage (origPath settings md5)) with
    | none => return -1
    | some im =>
        addInfo im
        return 1

def infoImgModeDb (thrArg : ThrArg) (md5 : Bytes) : Prog (Sys Im) Int := do
  match ← getImgDb settings thrArg md5 with
  | none => return 0
  | some origBuff =>
      if (← magick .newWand) = false then return -1
      else match ← magick (.readImageBlob origBuff) with
        | none => return -1
        | some im =>
            addInfo im
            return 1

end Ximg
