import Ximg.Zimg

/-!
# The configured callbacks

The functions that the mode selects, and the operations on the store that a request can cause.
-/

namespace Ximg
open Text Calls

variable {Im : Type} (settings : Settings)

/-! ## Set by `set_callback` -/

def callGetImg (req : ZimgReq) (request : EvhtpRequest) : Prog (Sys Im) Int :=
  if settings.mode = 1 then getImg settings req request else getImgModeDb settings req request

def callInfoImg (thrArg : ThrArg) (md5 : Bytes) : Prog (Sys Im) Int :=
  if settings.mode = 1 then infoImg settings md5 else infoImgModeDb settings thrArg md5

def callAdminImg (thrArg : ThrArg) (md5 : Bytes) (t : Int32) : Prog (Sys Im) Int :=
  if settings.mode = 1 then adminImg settings md5 t else adminImgModeDb settings thrArg md5 t

/-! ## Operations on the store -/

inductive StoreOp where
  | upload (thrArg : ThrArg) (buff : Bytes)
  | get (req : ZimgReq) (request : EvhtpRequest)
  | info (thrArg : ThrArg) (md5 : Md5)
  | admin (thrArg : ThrArg) (md5 : Md5) (t : Int32)

/-- Runs a function of the store for one request: its result, and the body it left. -/
def replying (call : Prog (Sys Im) Int) : Prog (Sys Im) (Int × Bytes) := do
  sys .requestNew
  let result ← call
  let body ← sys .bufferOut
  return (result, body)

def handle : StoreOp → Prog (Sys Im) (Int × Bytes)
  | .upload thrArg buff => saveImg settings thrArg buff
  | .get req request => replying (callGetImg settings req request)
  | .info thrArg md5 => replying (callInfoImg settings thrArg md5.bytes)
  | .admin thrArg md5 t => replying (callAdminImg settings thrArg md5.bytes t)

def StoreOp.thrArg : StoreOp → ThrArg
  | .upload thrArg _ | .info thrArg _ | .admin thrArg _ _ => thrArg
  | .get req _ => req.thrArg

end Ximg
