import Ximg.Zhttpd
import Ximg.Xutil

/-!
# The handlers of the newer uploads
-/

namespace Ximg
open Text Calls

section Handlers
variable (inetAton : Bytes → Option UInt32) (settings : HttpSettings) (thrArg : ThrArg)
  (req : EvhtpRequest)

def xBinaryParse := binaryParse .up

def xMultipartParse := multipartParse settings .up

def postUploadRequestCb (saddr : UInt32) : Prog Http UInt32 := do
  let saddr := forwarded inetAton req saddr
  match ← uploadBody settings req .up saddr with
  | .done => sendUpload settings
  | .forbidden | .err _ _ =>
      addJson (result2json [])
      sendUpload settings
  return saddr

/-- The image in a parameter, with the number of bytes that its buffer has room for. -/
def base64Image (base64 : Bytes) : Bytes × Nat :=
  let temp := urlDecode base64
  (b64Decode temp, temp.length / 4 * 3)

def base64Save : Prog Http (Option (Bytes × Bytes)) := do
  if req.methodName ≠ "POST" then return none
  match req.uriQuery with
  | none => return none
  | some params => match kvFind params "base64" with
      | none => return none
      | some base64 =>
          let (image, strLen) := base64Image base64.bytes
          match ← http (.mallocBuff strLen) with
          | none => return none
          | some _ =>
              let (result, md5sum) ← http (.saveImg image)
              if result = -1 then return none else return some (image, md5sum)

def base64RequestCb (saddr : UInt32) : Prog Http UInt32 := do
  let saddr := forwarded inetAton req saddr
  match ← base64Save req with
  | some (image, md5sum) => addJson (result2json [(Report.saved md5sum image.length).info])
  | none => addJson (result2json [])
  sendUpload settings
  return saddr

/-! ## Registered handlers -/

inductive Route where
  | upload
  | admin
  | info
  | base64
  | up
  | generic
  deriving DecidableEq

def Route.handler : Route → UInt32 → Prog Http UInt32
  | upload => postRequestCb inetAton settings req
  | admin => adminRequestCb inetAton settings req
  | info => infoRequestCb inetAton settings req
  | base64 => base64RequestCb inetAton settings req
  | up => postUploadRequestCb inetAton settings req
  | generic => getRequestCb inetAton settings thrArg req

end Handlers
end Ximg
