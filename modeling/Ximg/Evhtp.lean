import Ximg.Callbacks
import Ximg.Htparse

/-!
# Connections

How the HTTP library makes requests of what the parser finds, and hands them to the callbacks. The
server has no virtual hosts, no hooks of its own and no limit on bodies.
-/

namespace Ximg
open Text Htparse

def cStr (b : Bytes) : CString where
  bytes := b.takeWhile (· ≠ 0)
  noNul member := by simpa using List.mem_takeWhile_imp member

/-! ## Queries -/

def evhtpIsHexQueryChar (ch : UInt8) : Bool :=
  IsDigit ch ∨ (97 ≤ ch ∧ ch ≤ 102) ∨ (65 ≤ ch ∧ ch ≤ 70)

inductive QueryState where
  | start | questionMark | key | val | keyHex1 | keyHex2 | valHex1 | valHex2
  deriving DecidableEq

structure QueryParser where
  state : QueryState
  keyBuf : Bytes
  valBuf : Bytes
  args : List EvhtpKv

inductive QueryError where
  | refused
  /-- A write behind the end of a buffer. -/
  | overrun

/-- A byte and the NUL behind it go to a buffer of `len + 1` bytes. -/
def putByte (len : Nat) (buf : Bytes) (ch : UInt8) : Except QueryError Bytes :=
  if buf.length + 1 ≤ len then .ok (buf ++ [ch]) else .error .overrun

namespace QueryParser

def putKey (len : Nat) (p : QueryParser) (ch : UInt8) (state : QueryState) :
    Except QueryError QueryParser := do
  let buf ← putByte len p.keyBuf ch
  return { p with keyBuf := buf, state := state }

def putVal (len : Nat) (p : QueryParser) (ch : UInt8) (state : QueryState) :
    Except QueryError QueryParser := do
  let buf ← putByte len p.valBuf ch
  return { p with valBuf := buf, state := state }

def kv (p : QueryParser) : EvhtpKv := ⟨cStr p.keyBuf, cStr p.valBuf⟩

def keyTurn (len : Nat) (p : QueryParser) (ch : UInt8) : Except QueryError QueryParser :=
  if ch = equals then .ok { p with state := .val }
  else p.putKey len ch (if ch = 37 then .keyHex1 else .key)

def turn (len : Nat) (p : QueryParser) (ch : UInt8) : Except QueryError QueryParser :=
  if p.keyBuf.length ≥ len ∨ p.valBuf.length ≥ len then .error .refused
  else match p.state with
    | .start =>
        let p := { p with keyBuf := [], valBuf := [], state := .key }
        if ch = 63 then .ok p
        else if ch = slash then .ok { p with state := .questionMark }
        else p.keyTurn len ch
    | .questionMark =>
        if ch = 63 then .ok { p with state := .key }
        else if ch = slash then .ok p
        else .error .refused
    | .key => p.keyTurn len ch
    | .keyHex1 =>
        if evhtpIsHexQueryChar ch then p.putKey len ch .keyHex2
        else if p.keyBuf.length + 2 ≥ len then .error .refused
        else p.putKey len ch .key
    | .keyHex2 => if evhtpIsHexQueryChar ch then p.putKey len ch .key else .error .refused
    | .val =>
        if ch = semicolon ∨ ch = 38 then
          .ok { p with args := p.args ++ [p.kv], keyBuf := [], valBuf := [], state := .key }
        else p.putVal len ch (if ch = 37 then .valHex1 else .val)
    | .valHex1 =>
        if evhtpIsHexQueryChar ch then p.putVal len ch .valHex2
        else if p.valBuf.length + 2 ≥ len then .error .refused
        else p.putVal len ch .val
    | .valHex2 => if evhtpIsHexQueryChar ch then p.putVal len ch .val else .error .refused

/-- The last pair counts when neither half is empty. -/
def finish (p : QueryParser) : List EvhtpKv :=
  if p.keyBuf ≠ [] ∧ p.valBuf ≠ [] then p.args ++ [p.kv] else p.args

end QueryParser

def evhtpParseQuery (query : Bytes) : Except QueryError (List EvhtpKv) := do
  let p ← query.foldlM (QueryParser.turn query.length) ⟨.start, [], [], []⟩
  return p.finish

/-! ## Requests that come in -/

structure HeaderIn where
  key : CString
  val : Option CString

structure EvhtpUri where
  full : CString
  query : Option (List EvhtpKv)
  queryRaw : Option CString

structure Incoming where
  method : Nat
  uri : Option EvhtpUri
  headersIn : List HeaderIn
  bufferIn : Bytes
  keepalive : Bool
  finished : Bool

def evhtpRequestNew : Incoming := ⟨0, none, [], [], false, false⟩

/-- A request as its callback gets it, and its query before it was parsed. -/
structure Received where
  request : EvhtpRequest
  queryRaw : Option CString

/-- The request that comes in, those that callbacks got, and what was written besides replies. -/
structure EvhtpConnection where
  request : Option Incoming
  received : List Received
  continued : Bytes

def headerInFind (headers : List HeaderIn) (key : String) : Option HeaderIn :=
  headers.find? fun header => strcasecmp header.key.bytes (ascii key)

namespace EvhtpConnection

/-- Works on the request that comes in. There is one behind `on_msg_begin`. -/
def onRequest (c : EvhtpConnection) (work : Incoming → Bool × Incoming) :
    Bool × EvhtpConnection :=
  match c.request with
  | none => (true, c)
  | some req => ((work req).1, { c with request := some (work req).2 })

def parserStart (c : EvhtpConnection) : Bool × EvhtpConnection :=
  match c.request with
  | some req => if req.finished then (false, { c with request := some evhtpRequestNew }) else (true, c)
  | none => (false, { c with request := some evhtpRequestNew })

/-- The request gets its callback, which `evhtpRequestSetCallbacks` tells from the path. -/
def parserPath (p : Htparser) (data : Bytes) (c : EvhtpConnection) : Bool × EvhtpConnection :=
  c.onRequest fun req => (false, { req with method := p.method, uri := some ⟨cStr data, none, none⟩ })

def parserArgs (data : Bytes) (c : EvhtpConnection) : Bool × EvhtpConnection :=
  c.onRequest fun req => match req.uri, evhtpParseQuery data with
    | some uri, .ok query =>
        (false, { req with uri := some { uri with query := some query, queryRaw := some (cStr data) } })
    | _, _ => (true, req)

def parserHeaderKey (data : Bytes) (c : EvhtpConnection) : Bool × EvhtpConnection :=
  c.onRequest fun req => (false, { req with headersIn := req.headersIn ++ [⟨cStr data, none⟩] })

/-- The value goes to the last header, which has none yet. -/
def parserHeaderVal (data : Bytes) (c : EvhtpConnection) : Bool × EvhtpConnection :=
  c.onRequest fun req => match req.headersIn.getLast? with
    | some ⟨key, none⟩ =>
        (false, { req with headersIn := req.headersIn.dropLast ++ [⟨key, some (cStr data)⟩] })
    | _ => (true, req)

def parserHeaders (p : Htparser) (c : EvhtpConnection) : Bool × EvhtpConnection :=
  match c.request with
  | none => (true, c)
  | some req =>
      let c := { c with request := some { req with keepalive := p.shouldKeepAlive } }
      if (headerInFind req.headersIn "Expect").isNone then (false, c)
      else (false, { c with continued := c.continued ++ (ascii "HTTP/" ++ decimalNat p.major.toNat ++
        ascii "." ++ decimalNat p.minor.toNat ++ ascii " 100 Continue\x0d\n\x0d\n") })

def parserBody (data : Bytes) (c : EvhtpConnection) : Bool × EvhtpConnection :=
  (false, { c with request := c.request.map fun req =>
    { req with bufferIn := req.bufferIn ++ data } })

def urlencoded : String := "application/x-www-form-urlencoded"

/-- The body holds the query of a request that has none. -/
def shouldParseQueryBody (p : Htparser) (req : Incoming) (uri : EvhtpUri) : Bool :=
  uri.query.isNone && p.origContentLen ≠ 0 && p.origContentLen.toNat = req.bufferIn.length &&
    match (headerInFind req.headersIn "content-type").bind HeaderIn.val with
    | some contentType => strcasecmp (contentType.bytes.take urlencoded.length) (ascii urlencoded)
    | none => false

def withValues (headers : List HeaderIn) : List EvhtpKv :=
  headers.filterMap fun header => header.val.map (EvhtpKv.mk header.key)

/-- The callback sends its reply before it returns. A request without a path has none. -/
def parserFini (p : Htparser) (c : EvhtpConnection) : Bool × EvhtpConnection :=
  match c.request with
  | none => (false, c)
  | some req => match req.uri with
      | none => (false, c)
      | some uri =>
          let uri := if shouldParseQueryBody p req uri then
              { uri with
                query := (evhtpParseQuery req.bufferIn).toOption
                queryRaw := some (cStr req.bufferIn) }
            else uri
          (false, { c with
            request := some { req with uri := some uri, finished := true }
            received := c.received ++ [⟨⟨req.method, uri.full, uri.query, withValues req.headersIn,
              req.bufferIn⟩, uri.queryRaw⟩] })

end EvhtpConnection

def requestPsets (p : Htparser) (h : Hook) (c : EvhtpConnection) : Bool × EvhtpConnection :=
  match h with
  | .onMsgBegin => c.parserStart
  | .path data => c.parserPath p data
  | .args data => c.parserArgs data
  | .hdrKey data => c.parserHeaderKey data
  | .hdrVal data => c.parserHeaderVal data
  | .onHdrsComplete => c.parserHeaders p
  | .body data => c.parserBody data
  | .onMsgComplete => c.parserFini p
  | .method _ | .scheme _ | .host _ | .port _ | .uri _ | .onHdrsBegin | .hostname _ | .onNewChunk
  | .onChunkComplete | .onChunksComplete => (false, c)

/-! ## Connections -/

/-- A connection between two events. It is freed when it is not alive. -/
structure HttpConn where
  parser : Htparser
  conn : EvhtpConnection
  numRequests : UInt64
  alive : Bool

def evhtpConnectionNew : HttpConn := ⟨htparserInit, ⟨none, [], []⟩, 0, true⟩

inductive BevEvent where
  /-- Bytes came in. -/
  | read (data : Bytes)
  /-- Bytes went out, and perhaps all. -/
  | wrote (drained : Bool)

namespace HttpConn

def readcb (data : Bytes) (c : HttpConn) : HttpConn :=
  let r := htparserRun requestPsets c.parser data c.conn
  { c with parser := r.parser, conn := r.state, alive := r.left = 0 }

/-- A request that was answered goes, and with it a connection that is not kept. -/
def writecb (maxKeepaliveRequests : UInt64) (drained : Bool) (c : HttpConn) : HttpConn :=
  match c.conn.request with
  | none => c
  | some req =>
      if !req.finished || !drained then c
      else
        let numRequests := if maxKeepaliveRequests ≠ 0 then c.numRequests + 1 else c.numRequests
        if req.keepalive ∧ ¬(maxKeepaliveRequests ≠ 0 ∧ numRequests ≥ maxKeepaliveRequests) then
          { c with
            parser := htparserInit, conn := { c.conn with request := none }
            numRequests := numRequests }
        else { c with numRequests := numRequests, alive := false }

def event (maxKeepaliveRequests : UInt64) (c : HttpConn) (event : BevEvent) : HttpConn :=
  if !c.alive then c
  else match event with
    | .read data => c.readcb data
    | .wrote drained => c.writecb maxKeepaliveRequests drained

end HttpConn

end Ximg
