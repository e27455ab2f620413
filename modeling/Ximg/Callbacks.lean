import Ximg.UploadFilter
import Ximg.Xhttpd

/-!
# Registered callbacks

How the HTTP library finds the callback of a request and makes a reply of what the callback left in
the request, and the two callbacks that neither upload nor look at images.
-/

namespace Ximg
open Text Calls

/-! ## Paths -/

inductive Callback where
  | dump
  | echo
  | route (r : Route)
  deriving DecidableEq

/-- In the order of their registration. -/
def callbacks : List (String × Callback) :=
  [("/dump", .dump), ("/upload", .route .upload), ("/admin", .route .admin),
    ("/info", .route .info), ("/echo", .echo), ("/base64", .route .base64), ("/up", .route .up)]

def evhtpCallbackFind (path : Bytes) : Option Callback :=
  (callbacks.find? fun callback => ascii callback.1 = path).map Prod.snd

def evhtpPath (full : Bytes) : Bytes :=
  if full = [] then [slash]
  else if full.head? ≠ some slash then [slash]
  else if full.getLast? = some slash then full
  else match afterLast slash full with
    | some file => full.take (full.length - file.length)
    | none => [slash]

/-- The callback of a request: that of its full path, else that of its path, else the generic one. -/
def evhtpRequestSetCallbacks (full : Bytes) : Callback :=
  match evhtpCallbackFind full with
  | some callback => callback
  | none => match evhtpCallbackFind (evhtpPath full) with
      | some callback => callback
      | none => .route .generic

/-! ## Two small callbacks -/

section Callbacks
variable (inetAton : Bytes → Option UInt32) (settings : HttpSettings)

def evhtpKvsLoop (cb : EvhtpKv → Prog Http Int) : List EvhtpKv → Prog Http Int
  | [] => return 0
  | kv :: kvs => do
      let res ← cb kv
      if res ≠ 0 then return res else evhtpKvsLoop cb kvs

def evhtpKvsForEach (kvs : Option (List EvhtpKv)) (cb : EvhtpKv → Prog Http Int) :
    Prog Http Int :=
  match kvs with
  | none => return -1
  | some kvs => evhtpKvsLoop cb kvs

/-- Returns 1, so that only the first header is printed. -/
def printHeaders (header : EvhtpKv) : Prog Http Int := do
  http (.evbufferAddPrintf header.key.bytes)
  printf ": "
  http (.evbufferAddPrintf header.val.bytes)
  printf "\x0d\n"
  return 1

/-- The query of a request before it was parsed is `queryRaw`. -/
def dumpRequestCb (req : EvhtpRequest) (queryRaw : Option CString) : Prog Http Unit := do
  http (.evbufferAddPrintf (ascii "uri : " ++ req.uriPathFull.bytes ++ ascii "\x0d\n"))
  let query := (queryRaw.map CString.bytes).getD (ascii "(null)")
  http (.evbufferAddPrintf (ascii "query : " ++ query ++ ascii "\x0d\n"))
  let _ ← evhtpKvsForEach req.uriQuery printHeaders
  http (.evbufferAddPrintf (ascii "Method : " ++ ascii req.methodName ++ ascii "\n"))
  let _ ← evhtpKvsForEach (some req.headersIn) printHeaders
  addServer settings
  addHeader "Content-Type" (ascii "text/plain")
  http (.evhtpSendReply EVHTP_RES_OK)

def echoCb : Prog Http Unit := do
  printf "<html><body><h1>it's works!</h1></body></html>"
  addServer settings
  addHeader "Content-Type" (ascii "text/html")
  http (.evhtpSendReply EVHTP_RES_OK)

/-- A request that reaches a thread on a connection, which has an address by then. -/
structure Visit where
  thrArg : ThrArg
  conn : Nat
  request : EvhtpRequest
  queryRaw : Option CString
  saddr : UInt32
  /-- While it is served, no allocation fails. -/
  allocates : Bool

def Callback.handler (visit : Visit) : Callback → Prog Http UInt32
  | dump => do
      dumpRequestCb settings visit.request visit.queryRaw
      return visit.saddr
  | echo => do
      echoCb settings
      return visit.saddr
  | route r => r.handler inetAton settings visit.thrArg visit.request visit.saddr

/-- Handles a request: the address that the connection has afterwards. -/
def visitHandler (visit : Visit) : Prog Http UInt32 :=
  (evhtpRequestSetCallbacks visit.request.uriPathFull.bytes).handler inetAton settings visit

end Callbacks

/-! ## Replies -/

/-- A reply after its status line, without what keeps the connection alive. -/
structure Reply where
  code : Nat
  headers : List (Bytes × Bytes)
  body : Bytes

def evhtpHeaderFind (headers : List (Bytes × Bytes)) (key : String) : Option Bytes :=
  (headers.find? fun header => strcasecmp header.1 (ascii key)).map Prod.snd

def bodyHeaders (headers : List (Bytes × Bytes)) (out : Bytes) : List (Bytes × Bytes) :=
  (if (evhtpHeaderFind headers "Content-Length").isNone then
      [(ascii "Content-Length", decimalNat out.length)]
    else []) ++
  if (evhtpHeaderFind headers "Content-Type").isNone then
    [(ascii "Content-Type", ascii "text/plain")]
  else []

def emptyHeaders (headers : List (Bytes × Bytes)) : List (Bytes × Bytes) :=
  if (evhtpHeaderFind headers "Content-Length").isNone then
    match evhtpHeaderFind headers "transfer-encoding" with
    | some coding =>
        if strstr coding "chunked" then [] else [(ascii "Content-Length", ascii "0")]
    | none => [(ascii "Content-Length", ascii "0")]
  else []

def evhtpCreateReply (code : Nat) (headers : List (Bytes × Bytes)) (out : Bytes) : Reply :=
  if out ≠ [] then ⟨code, headers ++ bodyHeaders headers out, out⟩
  else ⟨code, headers ++ emptyHeaders headers, []⟩

/-! ## The callback of a path -/

theorem evhtpCallbackFind_mem {path : Bytes} {callback : Callback}
    (found : evhtpCallbackFind path = some callback) :
    ∃ name, (name, callback) ∈ callbacks ∧ path = ascii name := by
  obtain ⟨⟨name, callback'⟩, member, rfl⟩ := Option.map_eq_some_iff.mp found
  have same := List.find?_some member
  exact ⟨name, List.mem_of_find?_eq_some member, (of_decide_eq_true same).symm⟩

theorem callbacks_file : ∀ x ∈ callbacks, (ascii x.1).getLast? ≠ some slash := by
  decide +kernel

theorem evhtpPath_slash (full : Bytes) : (evhtpPath full).getLast? = some slash := by
  unfold evhtpPath
  split_ifs with empty absolute dir
  · rfl
  · rfl
  · exact dir
  · split
    · rename_i file found
      obtain ⟨-, stem, rfl⟩ := afterLast_some found
      have cut : (stem ++ slash :: file).take ((stem ++ slash :: file).length - file.length) =
          stem ++ [slash] := by
        rw [List.append_cons, List.length_append, Nat.add_sub_cancel, List.take_left]
      rw [cut, List.getLast?_append]
      rfl
    · rfl

theorem evhtpRequestSetCallbacks_eq (full : Bytes) :
    evhtpRequestSetCallbacks full = (evhtpCallbackFind full).getD (.route .generic) := by
  unfold evhtpRequestSetCallbacks
  cases evhtpCallbackFind full with
  | some callback => rfl
  | none =>
      cases found : evhtpCallbackFind (evhtpPath full) with
      | none => rfl
      | some callback =>
          obtain ⟨name, member, same⟩ := evhtpCallbackFind_mem found
          have ends := evhtpPath_slash full
          rw [same] at ends
          exact absurd ends (callbacks_file _ member)

end Ximg
