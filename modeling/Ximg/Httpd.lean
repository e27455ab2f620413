import Ximg.Library.Interpretation
import Ximg.Xparser
import Ximg.Zcommon
import Ximg.Zutil

/-!
# Requests and uploads

What the handlers share: the calls they make, the client's address, the access checks, and the
uploads, whose two versions differ in what they answer.
-/

namespace Ximg
open Text Calls

/-- The settings that only the handlers read. -/
structure HttpSettings extends Settings where
  serverName : CArray 128
  port : Int32
  headers : Option (List (CString × CString))

/-! ## Calls -/

inductive HttpOp where
  | zimgAccessInet (conf : ZimgAccessConf) (addr : UInt32)
  /-- What a new block holds, and the memory behind it. -/
  | mallocBuff (size : Nat)
  /-- Whether a record or a short string was allocated. -/
  | malloc
  /-- Whether a parser was allocated. -/
  | multipartParserInit (boundaryPattern : Bytes)
  | saveImg (buff : Bytes)
  | getImg (req : ZimgReq)
  | adminImg (md5 : Bytes) (t : Int32)
  | infoImg (md5 : Bytes)
  /-- Whether a page was opened and its size found. -/
  | openPage (path : Bytes)
  | evbufferAddFile (path : Bytes)
  | evbufferAddPrintf (text : Bytes)
  | headersAddHeader (key value : Bytes)
  | evhtpSendReply (code : Nat)
  /-- A read through an invalid pointer. -/
  | fault

@[reducible] def HttpOp.Res : HttpOp → Type
  | zimgAccessInet _ _ | getImg _ | adminImg _ _ | infoImg _ => Int
  | mallocBuff _ => Option Bytes
  | malloc | multipartParserInit _ | openPage _ => Bool
  | saveImg _ => Int × Bytes
  | evbufferAddFile _ | evbufferAddPrintf _ | headersAddHeader _ _ | evhtpSendReply _ => Unit
  | fault => Empty

abbrev Http : Signature := ⟨HttpOp, HttpOp.Res⟩

def http (op : HttpOp) : Prog Http op.Res := .call op .ret

@[simp] theorem http_bind {α : Type} (op : HttpOp) (k : op.Res → Prog Http α) :
    @Bind.bind (Prog Http) _ (no_index op.Res) α (http op) k = .call op k := rfl

def EVHTP_RES_OK : Nat := 200
def EVHTP_RES_NOTMOD : Nat := 304
def EVHTP_RES_FORBIDDEN : Nat := 403
def EVHTP_RES_NOTFOUND : Nat := 404

def addHeader (key : String) (value : Bytes) : Prog Http Unit :=
  http (.headersAddHeader (ascii key) value)

def printf (text : String) : Prog Http Unit := http (.evbufferAddPrintf (ascii text))

/-! ## The C library -/

def strstr (s : Bytes) (text : String) : Bool := decide (ascii text <:+: s)

def IsSpace (c : UInt8) : Prop := c = space ∨ (9 ≤ c ∧ c ≤ 13)

instance (c : UInt8) : Decidable (IsSpace c) := inferInstanceAs (Decidable (_ ∨ _))

def strtolDigits (s : Bytes) : Int :=
  ((s.takeWhile fun c => IsDigit c).foldl (fun n c => n * 10 + (c.toNat - 48)) 0 : Nat)

/-- A `long`, or the limit that a larger number is replaced by. -/
def strtol (s : Bytes) : Int :=
  let value := match s.dropWhile fun c => IsSpace c with
    | [] => 0
    | c :: s =>
        if c = minus then -strtolDigits s
        else if c = 43 then strtolDigits s
        else strtolDigits (c :: s)
  max (-2 ^ 63) (min value (2 ^ 63 - 1))

def atoi (s : Bytes) : Int32 := Int32.ofInt (strtol s)

def cString (mem : Bytes) (p : Nat) : Bytes := (mem.drop p).takeWhile (· ≠ 0)

/-- The loop over the string from one offset on: `find` is `c` and then `rest`. -/
def strnstrLoop (c : UInt8) (rest : Bytes) : Bytes → Nat → Nat → Option Nat
  | [], _, _ => none
  | sc :: s, slen, p =>
      if sc = 0 then none
      else if slen < 1 then none
      else if sc ≠ c then strnstrLoop c rest s (slen - 1) (p + 1)
      else if rest.length > slen - 1 then none
      else if rest <+: s then some p
      else strnstrLoop c rest s (slen - 1) (p + 1)

def strnstr (mem : Bytes) (s : Nat) (find : String) (slen : Nat) : Option Nat :=
  match ascii find with
  | [] => some s
  | c :: rest => strnstrLoop c rest (mem.drop s) slen s

def afterLast (c : UInt8) : Bytes → Option Bytes
  | [] => none
  | d :: s => match afterLast c s with
      | some type => some type
      | none => if d = c then some s else none

/-- The type, or nothing for `-1`. -/
def getType (filename : Bytes) : Option Bytes :=
  (afterLast dot filename).map fun flag => strLcpy flag 32

def allowedType : List Bytes := [ascii "jpeg", ascii "jpg", ascii "png", ascii "gif", ascii "webp"]

def lower (c : UInt8) : UInt8 := if 65 ≤ c ∧ c ≤ 90 then c + 32 else c

/-- The function of the configuration script. -/
def isImg (typeName : Bytes) : Int := if typeName.map lower ∈ allowedType then 1 else -1

/-! ## Requests -/

def methodStrmap : List String :=
  ["GET", "HEAD", "POST", "PUT", "DELETE", "MKCOL", "COPY", "MOVE", "OPTIONS", "PROPFIND",
    "PROPATCH", "LOCK", "UNLOCK", "TRACE", "CONNECT", "PATCH", "UNKNOWN"]

def EvhtpRequest.methodName (req : EvhtpRequest) : String :=
  methodStrmap.getD (if req.method ≥ 16 then 16 else req.method) "UNKNOWN"

def kvFind (kvs : List EvhtpKv) (key : String) : Option CString :=
  (kvs.find? fun kv => strcasecmp kv.key.bytes (ascii key)).map EvhtpKv.val

section Handlers
variable (inetAton : Bytes → Option UInt32) (settings : HttpSettings) (req : EvhtpRequest)

/-- The connection's address after `X-Forwarded-For` was read into it. -/
def forwarded (saddr : UInt32) : UInt32 :=
  match req.headerFind "X-Forwarded-For" with
  | some xffAddress => (inetAton xffAddress).getD saddr
  | none => saddr

inductive Access where
  | ok
  | forbidden
  | error
  deriving DecidableEq

def checkAccess (conf : Option ZimgAccessConf) (saddr : UInt32) : Prog Http Access :=
  match conf with
  | none => return .ok
  | some conf => do
      let acs ← http (.zimgAccessInet conf saddr)
      if acs = ZIMG_FORBIDDEN then return .forbidden
      else if acs = ZIMG_ERROR then return .error
      else return .ok

def addServer : Prog Http Unit := addHeader "Server" settings.serverName.bytes

def zimgHeadersAdd : Prog Http Unit :=
  match settings.headers with
  | none => return ()
  | some headers => headers.forM fun header =>
      http (.headersAddHeader header.1.bytes header.2.bytes)

def replyPage (text : String) (code : Nat) : Prog Http Unit := do
  printf text
  addServer settings
  addHeader "Content-Type" (ascii "text/html")
  http (.evhtpSendReply code)

def replyForbidden : Prog Http Unit :=
  replyPage settings "<html><body><h1>403 Forbidden!</h1></body></html>" EVHTP_RES_FORBIDDEN

def replyNotFound : Prog Http Unit :=
  replyPage settings "<html><body><h1>404 Not Found!</h1></body></html>" EVHTP_RES_NOTFOUND

/-! ## Uploads -/

/-- The two versions of the upload: `/upload` and `/up`. -/
inductive Api where
  | upload
  | up
  deriving DecidableEq

structure ImgInfo where
  code : Nat
  size : Nat
  md5 : Bytes
  msg : String

inductive Report where
  | refused (filename : Bytes)
  | failed
  | saved (md5sum : Bytes) (length : Nat)

/-- What the callbacks share: the buffer with the memory behind it, and the argument `mp_arg` with
the list of results. -/
structure MpArg where
  mem : Bytes
  partno : Nat
  succno : Nat
  checkName : Int
  list : List ImgInfo

def Report.info : Report → ImgInfo
  | refused _ => ⟨201, 0, [], "File type is not supported!"⟩
  | failed => ⟨201, 0, [], "File save failed!"⟩
  | saved md5sum length => ⟨200, length, md5sum, "ok"⟩

def Report.text : Report → Bytes
  | refused filename =>
      ascii "<h1>File: " ++ filename ++ ascii "</h1>\n<p>File type is not supported!</p>\n"
  | failed => ascii "<h1>Failed!</h1>\n<p>File save failed!</p>\n"
  | saved md5sum _ =>
      ascii "<h1>MD5: " ++ md5sum ++ ascii "</h1>\nImage upload successfully! You can get this image via this address:<br/><br/>\n<a href=\"/" ++
        md5sum ++ ascii "\">http://yourhostname:" ++ decimal settings.port.toInt ++ ascii "/" ++
        md5sum ++ ascii "</a>?w=width&h=height&g=isgray&x=position_x&y=position_y&r=rotate&q=quality&f=format\n"

def report (api : Api) (r : Report) (mpArg : MpArg) : Prog Http MpArg :=
  match api with
  | .upload => do
      http (.evbufferAddPrintf (r.text settings))
      return mpArg
  | .up => return { mpArg with list := r.info :: mpArg.list }

def refusesName (filename : Bytes) : Bool :=
  match getType filename with
  | none => true
  | some fileType => isImg fileType ≠ 1

/-- What the quoted name at an offset does to the memory and to `check_name`. -/
def checkQuoted (mpArg : MpArg) (filename start length : Nat) : MpArg :=
  match strnchr (mpArg.mem.drop filename) quote (wrap ((length : Int) - ((filename : Int) - start))) with
  | none => { mpArg with checkName := -1 }
  | some n =>
      let mpArg := { mpArg with mem := mpArg.mem.set (filename + n) 0 }
      if refusesName (cString mpArg.mem filename) then { mpArg with checkName := -1 } else mpArg

def headerValueCb (api : Api) (mpArg : MpArg) (start length : Nat) : Prog Http (Int32 × MpArg) :=
  match strnstr mpArg.mem start "filename=" length with
  | none => return (0, mpArg)
  | some found => do
      let filename := found + 9
      let quoted := mpArg.mem[filename]? = some quote
      let filename := if quoted then filename + 1 else filename
      let mpArg := if quoted then checkQuoted mpArg filename start length else mpArg
      if cString mpArg.mem filename ≠ [] ∧ mpArg.checkName = -1 then
        return (0, ← report settings api (.refused (cString mpArg.mem filename)) mpArg)
      else return (0, mpArg)

/-- The content of a part. Only `/up` allocates the record of the result before it saves. -/
def chunkDataCb (api : Api) (mpArg : MpArg) (start length : Nat) : Prog Http (Int32 × MpArg) := do
  let mpArg := { mpArg with partno := mpArg.partno + 1 }
  if mpArg.checkName = -1 then return (0, { mpArg with checkName := 0 })
  if length < 1 then return (0, mpArg)
  if api = .up then
    if (← http .malloc) = false then return (0, mpArg)
  let (result, md5sum) ← http (.saveImg ((mpArg.mem.drop start).take length))
  if result = -1 then return (0, ← report settings api .failed mpArg)
  else
    return (0, ← report settings api (.saved md5sum length)
      { mpArg with succno := mpArg.succno + 1 })

def multipartCallbacks (api : Api) (P : Bytes) :
    (op : MultipartOp) → MpArg → Prog Http (op.Res × MpArg)
  | .buf i, mpArg => return (mpArg.mem.getD i 0, mpArg)
  | .boundary i, mpArg => return (P.getD i 0, mpArg)
  | .notify _, mpArg | .emit .headerField _ _, mpArg => return (0, mpArg)
  | .emit .headerValue first last, mpArg =>
      headerValueCb settings api mpArg first (wrap ((last : Int) - first))
  | .emit .chunkData first last, mpArg =>
      chunkDataCb settings api mpArg first (wrap ((last : Int) - first))

def runMultipart (api : Api) (P : Bytes) (postSize : Nat) (mpArg : MpArg) :
    Prog Http (Option Nat × MpArg) :=
  (xMultipartParserExecute P.length postSize).interpret (multipartCallbacks settings api P) mpArg

inductive Extraction where
  /-- Error 6. -/
  | missing
  /-- `strchr` found no `=`, and its result is read. -/
  | invalid
  | found (boundary : Bytes)
  deriving DecidableEq

def multipartBoundary (contentType : Bytes) : Extraction :=
  if strstr contentType "boundary" = false then .missing
  else match contentType.findIdx? (· == equals) with
  | none => .invalid
  | some i => match contentType.drop (i + 1) with
      | [] => .found []
      | c :: boundary =>
          if c = quote then
            match boundary.findIdx? (· == quote) with
            | none => .missing
            | some n => .found (boundary.take n)
          else .found ((c :: boundary).takeWhile fun c => c ≠ comma ∧ c ≠ semicolon)

def ImgInfo.json (info : ImgInfo) : Bytes :=
  ascii "\x7b\"code\":" ++ decimalNat info.code ++ ascii ",\"size\":" ++ decimalNat info.size ++
    ascii ",\"md5\":\"" ++ info.md5 ++ ascii "\",\"msg\":\"" ++ ascii info.msg ++
    ascii "\",\"width\":0,\"height\":0\x7d"

/-- A node that was freed is read as it was before, as `freeLinkedList` does with each. -/
def result2json (list : List ImgInfo) : Bytes :=
  ascii "\x7b\"code\":200,\"data\":[" ++
    List.intercalate (ascii ",") (list.map ImgInfo.json) ++ ascii "]\x7d"

def postErrorList : List String :=
  ["Internal error.", "File type not support.", "Request method error.", "Access error.",
    "Request body parse error.", "Content-Length error.", "Content-Type error.",
    "File too large.", "Request url illegal.", "Image not existed."]

def addJson (text : Bytes) : Prog Http Unit := do
  http (.evbufferAddPrintf text)
  addHeader "Content-Type" (ascii "application/json")

def jsonSaved (md5sum : Bytes) (postSize : Nat) : Prog Http Unit :=
  addJson (ascii "\x7b\"ret\":true,\"info\":\x7b\"md5\":\"" ++ md5sum ++ ascii "\",\"size\":" ++
    decimalNat postSize ++ ascii "\x7d\x7d")

def jsonError (errNo : Nat) : Prog Http Unit :=
  addJson (ascii "\x7b\"ret\":false,\"error\":\x7b\"code\":" ++ decimalNat errNo ++
    ascii ",\"message\":\"" ++ ascii (postErrorList.getD errNo "") ++ ascii "\"\x7d\x7d")

/-- The error, or nothing for `-1`. -/
def binaryParse (api : Api) (contentType buff : Bytes) (postSize : Nat) :
    Prog Http (Option Nat) := do
  if isImg contentType ≠ 1 then return some 1
  let (result, md5sum) ← http (.saveImg (buff.take postSize))
  if result = -1 then return some 0
  match api with
  | .upload => jsonSaved md5sum postSize
  | .up => addJson (result2json [(Report.saved md5sum postSize).info])
  return none

def multipartReply (api : Api) (mpArg : MpArg) : Prog Http Unit :=
  match api with
  | .upload => do
      if mpArg.succno = 0 then printf "<h1>Upload Failed!</h1>\n"
      printf "</body>\n</html>\n"
      addHeader "Content-Type" (ascii "text/html")
  | .up => addJson (result2json mpArg.list)

/-- The error, or nothing for `-1`. -/
def multipartParse (api : Api) (contentType buff : Bytes) (postSize : Nat) :
    Prog Http (Option Nat) := do
  if api = .upload then
    printf "<html>\n<head>\n<title>Upload Result</title>\n</head>\n<body>\n"
  match multipartBoundary contentType with
  | .missing => return some 6
  | .invalid => .call .fault Empty.elim
  | .found boundary =>
      let boundaryPattern := minus :: minus :: boundary
      if (← http .malloc) = false then return some 0
      if (← http (.multipartParserInit boundaryPattern)) = false then return some 0
      if (← http .malloc) = false then return some 0
      let (_, mpArg) ← runMultipart settings api boundaryPattern postSize ⟨buff, 0, 0, 0, []⟩
      multipartReply api mpArg
      return none

/-- A heap block with the memory behind it, and the end of what was stored into it. -/
structure HeapBuffer where
  mem : Bytes
  reached : Nat

def evbufferRemove (body : Bytes) (buff : HeapBuffer) (n : Nat) : HeapBuffer :=
  ⟨body.take n ++ buff.mem.drop n, max buff.reached n⟩

/-- A length as an `int`, when it is positive. -/
def intLength (length : Nat) : Nat := (Int32.ofNat length).toInt.toNat

def removeLoop (body : Bytes) (buff : HeapBuffer) : HeapBuffer :=
  if _more : 0 < intLength body.length then
    removeLoop (body.drop (intLength body.length))
      (evbufferRemove body buff (intLength body.length))
  else buff
termination_by body.length
decreasing_by
  rw [List.length_drop]
  have nonempty : body.length ≠ 0 := by
    intro zero
    rw [zero] at _more
    exact absurd _more (by decide)
  omega

def contentLength : Except Nat Nat :=
  match req.headerFind "Content-Length" with
  | none => .error 5
  | some contentLen =>
      let postSize := atoi contentLen
      if postSize ≤ 0 then .error 5
      else if postSize > settings.maxSize then .error 7
      else .ok postSize.toInt.toNat

inductive UploadEnd where
  | done
  | forbidden
  | err (errNo : Nat) (retJson : Bool)

def uploadParse (api : Api) (contentType buff : Bytes) (postSize : Nat) : Prog Http UploadEnd := do
  if strstr contentType "multipart/form-data" = false then
    match ← binaryParse api contentType buff postSize with
    | none => return .done
    | some errNo => return .err errNo true
  else
    match ← multipartParse settings api contentType buff postSize with
    | none => return .done
    | some errNo => return .err errNo false

def uploadBody (api : Api) (saddr : UInt32) : Prog Http UploadEnd := do
  if req.methodName ≠ "POST" then return .err 2 true
  match ← checkAccess settings.upAccess saddr with
  | .forbidden => return .forbidden
  | .error => return .err 0 true
  | .ok =>
      match contentLength settings req with
      | .error errNo => return .err errNo true
      | .ok postSize =>
          match req.headerFind "Content-Type" with
          | none => return .err 6 true
          | some contentType =>
              match ← http (.mallocBuff postSize) with
              | none => return .err 0 true
              | some block =>
                  if req.bufferIn.length = 0 then return .err 4 true
                  uploadParse settings api contentType (removeLoop req.bufferIn ⟨block, 0⟩).mem
                    postSize

def sendUpload : Prog Http Unit := do
  addServer settings
  http (.evhtpSendReply EVHTP_RES_OK)

end Handlers
end Ximg
