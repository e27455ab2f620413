import Ximg.Httpd

/-!
# Configured headers and the handlers of images

The parser of the configured headers works on the memory of its copy, as that of the access rules
does. Each handler first reads the client's address, and returns the connection's address as it leaves
it.
-/

namespace Ximg
open Text Calls

/-! ## Configured headers -/

/-- The memory of a header: 128 bytes of the key, and 512 of the value behind them. -/
structure ZimgHeader where
  block : Bytes
  deriving DecidableEq

def ZimgHeader.key (header : ZimgHeader) : Bytes := cString header.block 0

def ZimgHeader.value (header : ZimgHeader) : Bytes := cString header.block 128

structure ZimgHeadersConf where
  n : UInt32
  headers : List ZimgHeader
  deriving DecidableEq

def emptyHeader : ZimgHeader := ⟨List.replicate 640 0⟩

/-- Copies `n` characters of a string into a header, with zeros behind its end, or nothing when that
leaves the header. -/
def ZimgHeader.strncpy (header : ZimgHeader) (dst : Nat) (mem : Bytes) (src n : Nat) :
    Option ZimgHeader :=
  if 640 < dst + n then none
  else
    let text := (cString mem src).take n
    some ⟨header.block.take dst ++ text ++ List.replicate (n - text.length) 0 ++
      header.block.drop (dst + n)⟩

def confGetHeader (mem : Bytes) (key stop : Nat) : Option (Option ZimgHeader) :=
  match strchr mem key colon with
  | none => some none
  | some value => do
      let keyLen := wrap ((value : Int) - key)
      let valueLen := wrap ((stop : Int) - (value + 1 : Nat))
      let thisHeader ← emptyHeader.strncpy 0 mem key keyLen
      let thisHeader ← thisHeader.strncpy 128 mem (value + 1) valueLen
      return some thisHeader

def confGetHeadersLoop (mem : Bytes) (hdrLen start : Nat) (headers : List ZimgHeader) :
    Option (List ZimgHeader) :=
  if start ≤ hdrLen then
    match _hp : strchr mem start semicolon with
    | some stop => do
        let header ← confGetHeader mem start stop
        confGetHeadersLoop mem hdrLen (stop + 1) (header.toList ++ headers)
    | none => do
        let header ← confGetHeader mem start hdrLen
        confGetHeadersLoop mem hdrLen (hdrLen + 1) (header.toList ++ headers)
  else some headers
termination_by hdrLen + 1 - start
decreasing_by
  · have := strchrLoop_ge _hp
    omega
  · omega

/-- The headers of a string whose heap copy is followed by `beyond`, or nothing when a header is
written past its end. -/
def confGetHeaders (hdrStr beyond : Bytes) : Option ZimgHeadersConf :=
  (confGetHeadersLoop (hdrStr ++ beyond) hdrStr.length 0 []).map fun headers =>
    ⟨UInt32.ofNat headers.length, headers⟩

section Handlers
variable (inetAton : Bytes → Option UInt32) (settings : HttpSettings) (thrArg : ThrArg)
  (req : EvhtpRequest)

/-! ## Uploads -/

def binaryParseUpload := binaryParse .upload

def multipartParseUpload := multipartParse settings .upload

def postRequestCb (saddr : UInt32) : Prog Http UInt32 := do
  let saddr := forwarded inetAton req saddr
  match ← uploadBody settings req .upload saddr with
  | .done => sendUpload settings
  | .forbidden =>
      jsonError 3
      sendUpload settings
  | .err errNo retJson =>
      if retJson then jsonError errNo
      else
        printf "<h1>Upload Failed!</h1></body></html>"
        addHeader "Content-Type" (ascii "text/html")
      sendUpload settings
  return saddr

/-! ## Images -/

def sendPage (path : Bytes) (text : String) : Prog Http Unit := do
  if ← http (.openPage path) then http (.evbufferAddFile path) else printf text
  addServer settings
  addHeader "Content-Type" (ascii "text/html")
  http (.evhtpSendReply EVHTP_RES_OK)

def sendFavicon : Prog Http Unit := do
  addServer settings
  addHeader "Content-Type" (ascii "text/html")
  zimgHeadersAdd settings
  http (.evhtpSendReply EVHTP_RES_OK)

def kvInt (params : List EvhtpKv) (key : String) (default_ : Int32) : Int32 :=
  match kvFind params key with
  | some str => atoi str.bytes
  | none => default_

def kvCopy (params : List EvhtpKv) (key : String) : Prog Http (Option CString) :=
  match kvFind params key with
  | none => return none
  | some str => do return if ← http .malloc then some str else none

structure ImgArgs where
  width : Int32
  height : Int32
  proportion : Int32
  gray : Int32
  x : Int32
  y : Int32
  rotate : Int32
  quality : Int32
  fmt : Option CString
  type : Option CString
  sv : Int32

def imgArgs (params : List EvhtpKv) (fmt type : Option CString) : ImgArgs :=
  if settings.disableArgs ≠ 1 then
    let x := kvInt params "x" (-1)
    let y := kvInt params "y" (-1)
    let proportion := kvInt params "p" 1
    ⟨kvInt params "w" 0, kvInt params "h" 0, if x ≠ -1 ∨ y ≠ -1 then 1 else proportion,
      kvInt params "g" 0, x, y, kvInt params "r" 0, kvInt params "q" 0, fmt, type, 0⟩
  else ⟨0, 0, 1, 0, -1, -1, 0, 0, none, type, 0⟩

def queryArgs : Prog Http ImgArgs :=
  match req.uriQuery with
  | none => return ⟨0, 0, 1, 0, -1, -1, 0, 0, none, none, 1⟩
  | some params => do
      let fmt ← if settings.disableArgs ≠ 1 then kvCopy params "f" else pure none
      let type ← if settings.disableType ≠ 1 then kvCopy params "t" else pure none
      return imgArgs settings params fmt type

def zimgReq (md5 : Md5) (args : ImgArgs) : ZimgReq where
  md5 := md5
  type := args.type
  width := args.width
  height := args.height
  proportion := args.proportion
  gray := args.gray
  x := args.x
  y := args.y
  rotate := args.rotate
  quality := if args.quality ≠ 0 then args.quality else settings.quality
  fmt := args.fmt.getD settings.format.toCString
  sv := args.sv
  thrArg := thrArg

def sendImage (getImgRst : Int) : Prog Http Unit := do
  if getImgRst = -1 then replyNotFound settings
  else if getImgRst = 2 then http (.evhtpSendReply EVHTP_RES_NOTMOD)
  else
    addServer settings
    addHeader "Content-Type" (ascii "image/jpeg")
    zimgHeadersAdd settings
    http (.evhtpSendReply EVHTP_RES_OK)

def uriMd5 : Bytes :=
  let uri := req.uriPathFull.bytes
  if uri.head? = some slash then strLcpy (uri.drop 1) (uri.length + 1)
  else strLcpy uri (uri.length + 1)

def getImage : Prog Http Unit := do
  if (← http .malloc) = false then replyNotFound settings
  else if named : IsMd5 (uriMd5 req) then do
    let args ← queryArgs settings req
    if (← http .malloc) = false then replyNotFound settings
    else sendImage settings (← http (.getImg (zimgReq settings thrArg ⟨uriMd5 req, named⟩ args)))
  else replyNotFound settings

def getAllowed : Prog Http Unit :=
  let uri := req.uriPathFull.bytes
  if uri = [slash] then
    sendPage settings settings.rootPath.bytes
      "<html>\n<body>\n<h1>\nWelcome To zimg World!</h1>\n</body>\n</html>\n"
  else if strstr uri "favicon.ico" then sendFavicon settings
  else if strstr uri ".." then replyForbidden settings
  else getImage settings thrArg req

def getRequestCb (saddr : UInt32) : Prog Http UInt32 := do
  let saddr := forwarded inetAton req saddr
  if req.methodName = "POST" then postRequestCb inetAton settings req saddr
  else
    if req.methodName ≠ "GET" then replyNotFound settings
    else
      match ← checkAccess settings.downAccess saddr with
      | .forbidden => replyForbidden settings
      | .error => replyNotFound settings
      | .ok => getAllowed settings thrArg req
    return saddr

/-! ## Administration -/

def adminFailed (md5 : Bytes) (t : Int32) (reason : String) : Prog Http Unit := do
  http (.evbufferAddPrintf (ascii "<html><body><h1>Admin Command Failed!</h1>             <p>MD5: " ++
    md5 ++ ascii "</p>             <p>Command Type: " ++ decimal t.toInt ++
    ascii "</p>             <p>" ++ ascii reason ++ ascii "</p>             </body></html>"))
  addHeader "Content-Type" (ascii "text/html")

def adminCommand (md5 : Bytes) (t : Int32) : Prog Http Unit := do
  let adminImgRst ← http (.adminImg md5 t)
  if adminImgRst = -1 then adminFailed md5 t "Command Failed."
  else if adminImgRst = 2 then adminFailed md5 t "Image Not Found."
  sendUpload settings

def adminAllowed : Prog Http Unit :=
  if strstr req.uriPathFull.bytes "favicon.ico" then sendFavicon settings
  else match req.uriQuery with
  | none => sendPage settings settings.adminPath.bytes
      "<html>\n<body>\n<h1>\nWelcome To zimg Admin!</h1>\n</body>\n</html>\n"
  | some params => match kvFind params "md5" with
      | none => replyNotFound settings
      | some strMd5 =>
          let md5 := strLcpy strMd5.bytes 33
          if isMd5 md5 = -1 then replyNotFound settings
          else adminCommand settings md5 (kvInt params "t" 0)

def adminRequestCb (saddr : UInt32) : Prog Http UInt32 := do
  let saddr := forwarded inetAton req saddr
  if req.methodName = "POST" then postRequestCb inetAton settings req saddr
  else
    if req.methodName ≠ "GET" then replyNotFound settings
    else
      match ← checkAccess settings.adminAccess saddr with
      | .forbidden => replyForbidden settings
      | .error => replyNotFound settings
      | .ok => adminAllowed settings req
    return saddr

/-! ## Descriptions -/

def infoImage : Prog Http (Option Nat) := do
  if req.methodName ≠ "GET" then return some 2
  match req.uriQuery with
  | none => return some 8
  | some params => match kvFind params "md5" with
      | none => return some 8
      | some strMd5 =>
          let md5 := strLcpy strMd5.bytes 33
          if isMd5 md5 = -1 then return some 8
          let infoImgRst ← http (.infoImg md5)
          if infoImgRst = 0 then return some 9
          else if infoImgRst = -1 then return some 0
          else return none

def infoRequestCb (saddr : UInt32) : Prog Http UInt32 := do
  let saddr := forwarded inetAton req saddr
  match ← infoImage req with
  | none =>
      addServer settings
      addHeader "Content-Type" (ascii "application/json")
      http (.evhtpSendReply EVHTP_RES_OK)
  | some errNo =>
      jsonError errNo
      sendUpload settings
  return saddr

end Handlers
end Ximg
