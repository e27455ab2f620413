import Ximg.Zcommon

/-!
# The parser of requests

A connection hands the bytes that it has read to `htparser_run`, which goes on from the state that
the bytes before left. What it finds it tells to hooks, each of which may end the parsing.
-/

namespace Ximg.Htparse
open Text

/-! ## The parser -/

def PARSER_STACK_MAX : Nat := 8192

inductive HtpparseError where
  | none | tooBig | invalMethod | invalReqline | invalSchema | invalProto | invalVer | invalHdr
  | invalChunkSz | invalChunk | invalState | user
  deriving DecidableEq

inductive EvalHdrVal where
  | none | connection | proxyConnection | contentLength | transferEncoding | hostname | contentType
  deriving DecidableEq

inductive HtpScheme where
  | none | ftp | https | http | nfs | unknown
  deriving DecidableEq

inductive ParserState where
  | start | method | spacesBeforeUri | schema | schemaSlash | schemaSlashSlash | host | hostIpv6
  | hostDone | port | afterSlashInUri | checkUri | uri | http09 | httpH | httpHT | httpHTT | httpHTTP
  | firstMajorDigit | majorDigit | firstMinorDigit | minorDigit | spacesAfterDigit | almostDone | done
  | hdrlineStart | hdrlineHdrAlmostDone | hdrlineHdrDone | hdrlineHdrKey | hdrlineHdrSpaceBeforeVal
  | hdrlineHdrVal | hdrlineAlmostDone | bodyRead | chunkSizeStart | chunkSize | chunkSizeAlmostDone
  | chunkData | chunkDataAlmostDone | chunkDataDone
  deriving DecidableEq

/-- A parser of requests. The buffer is what `buf_idx` bytes of it hold, and offsets point into it. -/
structure Htparser where
  error : HtpparseError
  state : ParserState
  chunked : Bool
  keepAlive : Bool
  close : Bool
  trailing : Bool
  heval : EvalHdrVal
  scheme : HtpScheme
  method : Nat
  multipart : Bool
  major : UInt8
  minor : UInt8
  contentLen : UInt64
  origContentLen : UInt64
  schemeOffset : Option Nat
  hostOffset : Option Nat
  portOffset : Option Nat
  pathOffset : Option Nat
  argsOffset : Option Nat
  buf : Bytes

inductive Hook where
  | onMsgBegin
  | method (s : Bytes)
  | scheme (s : Bytes)
  | host (s : Bytes)
  | port (s : Bytes)
  | path (s : Bytes)
  | args (s : Bytes)
  | uri (s : Bytes)
  | onHdrsBegin
  | hdrKey (s : Bytes)
  | hdrVal (s : Bytes)
  | hostname (s : Bytes)
  | onHdrsComplete
  | onNewChunk
  | onChunkComplete
  | onChunksComplete
  | body (s : Bytes)
  | onMsgComplete

def htpMethodUNKNOWN : Nat := 16

def htparserInit : Htparser where
  error := .none
  state := .start
  chunked := false
  keepAlive := false
  close := false
  trailing := false
  heval := .none
  scheme := .none
  method := htpMethodUNKNOWN
  multipart := false
  major := 0
  minor := 0
  contentLen := 0
  origContentLen := 0
  schemeOffset := none
  hostOffset := none
  portOffset := none
  pathOffset := none
  argsOffset := none
  buf := []

def Htparser.shouldKeepAlive (p : Htparser) : Bool :=
  if p.major > 0 ∧ p.minor > 0 then !p.close else p.keepAlive

/-! ## Characters and words -/

def usualBits : List UInt32 :=
  [0xffffdbfe, 0x7fff37d6, 0xffffffff, 0xffffffff, 0xffffffff, 0xffffffff, 0xffffffff, 0xffffffff]

def usual (ch : UInt8) : Bool :=
  (usualBits.getD (ch >>> 5).toNat 0) &&& (1 <<< (ch &&& 0x1f).toUInt32) ≠ 0

/-- The table ends with the ASCII characters, and the rest of it is 0. -/
def unhex (ch : UInt8) : Option UInt64 :=
  if IsDigit ch then some (ch - 48).toUInt64
  else if 97 ≤ ch ∧ ch ≤ 102 then some (ch - 87).toUInt64
  else if 65 ≤ ch ∧ ch ≤ 70 then some (ch - 55).toUInt64
  else if 128 ≤ ch then some 0
  else none

def IsLetter (ch : UInt8) : Prop := 97 ≤ ch ||| 0x20 ∧ ch ||| 0x20 ≤ 122

instance (ch : UInt8) : Decidable (IsLetter ch) := inferInstanceAs (Decidable (_ ∧ _))

def IsToken (ch : UInt8) : Prop := (65 ≤ ch ∧ ch ≤ 90) ∨ ch = 95

instance (ch : UInt8) : Decidable (IsToken ch) := inferInstanceAs (Decidable (_ ∨ _))

def methodNames : List String :=
  ["GET", "HEAD", "POST", "PUT", "DELETE", "MKCOL", "COPY", "MOVE", "OPTIONS", "PROPFIND",
    "PROPPATCH", "LOCK", "UNLOCK", "TRACE", "CONNECT", "PATCH"]

def htpMethod (m : Bytes) : Nat := methodNames.findIdx fun name => ascii name = m

def htpScheme (s : Bytes) : HtpScheme :=
  if s = ascii "ftp" then .ftp
  else if s = ascii "nfs" then .nfs
  else if s = ascii "http" then .http
  else if s = ascii "https" then .https
  else .unknown

def evalHdr (key : Bytes) : EvalHdrVal :=
  if strcasecmp key (ascii "host") then .hostname
  else if strcasecmp key (ascii "connection") then .connection
  else if strcasecmp key (ascii "content-type") then .contentType
  else if strcasecmp key (ascii "content-length") then .contentLength
  else if strcasecmp key (ascii "proxy-connection") then .proxyConnection
  else if strcasecmp key (ascii "transfer-encoding") then .transferEncoding
  else .none

def strToUint64Loop : Bytes → UInt64 → Option UInt64
  | [], value => some value
  | c :: str, value =>
      if ¬IsDigit c then none
      else
        let check := value * 10 + (c - 48).toUInt64
        if value ≠ 0 ∧ check ≤ value then none else strToUint64Loop str check

def strToUint64 (str : Bytes) : Option UInt64 :=
  if str.length > 20 then none else strToUint64Loop str 0

/-! ## One turn of the loop -/

variable {σ : Type}

/-- What a turn leaves, with the number of bytes by which it moves on. A turn that moves by none
comes back to its byte. -/
inductive Turn (σ : Type) where
  | goes (n : Nat) (p : Htparser) (s : σ)
  | stops (n : Nat) (p : Htparser) (s : σ)

def next (p : Htparser) (s : σ) : Turn σ := .goes 1 p s

def fail (error : HtpparseError) (p : Htparser) (s : σ) : Turn σ :=
  .stops 1 { p with error := error } s

def checked (n : Nat) (r : Bool × σ) (p : Htparser) : Turn σ :=
  if r.1 then .stops n { p with error := .user } r.2 else .goes n p r.2

def Htparser.put (p : Htparser) (ch : UInt8) : Htparser := { p with buf := p.buf ++ [ch] }

def Htparser.goto (p : Htparser) (state : ParserState) : Htparser := { p with state := state }

def Htparser.since (p : Htparser) (offset : Option Nat) : Bytes := p.buf.drop (offset.getD 0)

section Turns
variable (hook : Htparser → Hook → σ → Bool × σ)

def hooked (h : Hook) (p p' : Htparser) (s : σ) : Turn σ := checked 1 (hook p h s) p'

/-- Both hooks run, also when the first one fails. -/
def hooked₂ (h h' : Hook) (p p' : Htparser) (s : σ) : Turn σ :=
  let r := hook p h s
  let r' := hook p h' r.2
  if r.1 || r'.1 then fail .user p' r'.2 else next p' r'.2

def startTurn (p : Htparser) (ch : UInt8) (s : σ) : Turn σ :=
  let p := { p with
    chunked := false, keepAlive := false, close := false, trailing := false, error := .none,
    method := htpMethodUNKNOWN, multipart := false, major := 0, minor := 0, contentLen := 0,
    origContentLen := 0, schemeOffset := none, hostOffset := none, portOffset := none,
    pathOffset := none, argsOffset := none }
  if ch = cr ∨ ch = lf then next p s
  else if ¬IsToken ch then fail .invalReqline p s
  else hooked hook .onMsgBegin p ((p.put ch).goto .method) s

def methodTurn (p : Htparser) (ch : UInt8) (s : σ) : Turn σ :=
  if ch = space then
    let p' := { p with method := htpMethod p.buf }
    hooked hook (.method p.buf) p' { p' with buf := [], state := .spacesBeforeUri } s
  else if ¬IsToken ch then fail .invalMethod p s
  else next (p.put ch) s

/-! ### The target -/

def spacesBeforeUriTurn (p : Htparser) (ch : UInt8) (s : σ) : Turn σ :=
  if ch = space then next p s
  else if ch = slash then
    next { p.put ch with pathOffset := some p.buf.length, state := .afterSlashInUri } s
  else if IsLetter ch then
    next { p.put ch with schemeOffset := some p.buf.length, state := .schema } s
  else fail .invalReqline p s

def schemaTurn (p : Htparser) (ch : UInt8) (s : σ) : Turn σ :=
  if IsLetter ch then next (p.put ch) s
  else if ch = colon then
    let scheme := p.since p.schemeOffset
    let p' := { p with scheme := htpScheme scheme }
    hooked hook (.scheme scheme) p' ((p'.put ch).goto .schemaSlash) s
  else fail .invalSchema p s

def schemaSlashTurn (p : Htparser) (ch : UInt8) (s : σ) : Turn σ :=
  if ch = slash then next ((p.put ch).goto .schemaSlashSlash) s else fail .invalSchema p s

def schemaSlashSlashTurn (p : Htparser) (ch : UInt8) (s : σ) : Turn σ :=
  if ch = slash then
    next { p.put ch with hostOffset := some (p.buf.length + 1), state := .host } s
  else fail .invalSchema p s

/-- The path begins, at a byte that comes again when it is the blank behind a host. -/
def hostPath (n : Nat) (p : Htparser) (s : σ) : Turn σ :=
  .goes n { p.put slash with pathOffset := some p.buf.length, state := .afterSlashInUri } s

/-- `first` is the first byte that was read. -/
def hostDoneTurn (first : Bool) (p : Htparser) (ch : UInt8) (s : σ) : Turn σ :=
  if ch = colon then
    next { p.put ch with portOffset := some (p.buf.length + 1), state := .port } s
  else if ch = space then if first then fail .invalState p s else hostPath 0 p s
  else if ch = slash then hostPath 1 p s
  else fail .invalSchema p s

def hostTurn (first : Bool) (p : Htparser) (ch : UInt8) (s : σ) : Turn σ :=
  if ch = 91 then next { p.put ch with hostOffset := some (p.buf.length + 1), state := .hostIpv6 } s
  else if IsLetter ch ∨ IsDigit ch ∨ ch = dot ∨ ch = minus then next (p.put ch) s
  else
    let r := hook p (.host (p.since p.hostOffset)) s
    if r.1 then fail .user p r.2 else hostDoneTurn first p ch r.2

def hostIpv6Turn (p : Htparser) (ch : UInt8) (s : σ) : Turn σ :=
  if (97 ≤ ch ||| 0x20 ∧ ch ||| 0x20 ≤ 102) ∨ IsDigit ch ∨ ch = colon ∨ ch = dot then next (p.put ch) s
  else if ch = 93 then
    let r := hook p (.host (p.since p.hostOffset)) s
    if r.1 then fail .user p r.2 else next ((p.put ch).goto .hostDone) r.2
  else fail .invalSchema p s

def portTurn (first : Bool) (p : Htparser) (ch : UInt8) (s : σ) : Turn σ :=
  if IsDigit ch then next (p.put ch) s
  else
    let r := hook p (.port (p.since p.portOffset)) s
    let path (n : Nat) : Turn σ :=
      match hostPath n p r.2 with
      | .goes n p s => if r.1 then .stops n { p with error := .user } s else .goes n p s
      | stops => stops
    if ch = space then if first then fail .invalState p r.2 else path 0
    else if ch = slash then path 1
    else fail .invalReqline p r.2

def oldVersion (p : Htparser) (state : ParserState) (s : σ) : Turn σ :=
  next { p with minor := 9, state := state } s

def argsTurn (p : Htparser) (ch : UInt8) (s : σ) : Turn σ :=
  hooked hook (.path (p.since p.pathOffset)) p
    { p.put ch with argsOffset := some (p.buf.length + 1), state := .uri } s

def afterSlashInUriTurn (p : Htparser) (ch : UInt8) (s : σ) : Turn σ :=
  if usual ch then next ((p.put ch).goto .checkUri) s
  else if ch = space then
    hooked₂ hook (.path (p.since p.pathOffset)) (.uri p.buf) p { p with state := .http09, buf := [] } s
  else if ch = cr then oldVersion p .almostDone s
  else if ch = lf then oldVersion p .hdrlineStart s
  else if ch = dot ∨ ch = 37 ∨ ch = slash ∨ ch = 35 then next ((p.put ch).goto .uri) s
  else if ch = 63 then argsTurn hook p ch s
  else next ((p.put ch).goto .checkUri) s

def Htparser.target (p : Htparser) : Hook :=
  if p.argsOffset.isSome then .args (p.since p.argsOffset) else .path (p.since p.pathOffset)

def checkUriTurn (p : Htparser) (ch : UInt8) (s : σ) : Turn σ :=
  if usual ch then next (p.put ch) s
  else if ch = space then
    hooked₂ hook p.target (.uri p.buf) p { p with buf := [], state := .http09 } s
  else if ch = slash then next ((p.put ch).goto .afterSlashInUri) s
  else if ch = cr then oldVersion { p with buf := [] } .almostDone s
  else if ch = lf then oldVersion { p with buf := [] } .hdrlineStart s
  else if ch = 63 then argsTurn hook p ch s
  else next ((p.put ch).goto .uri) s

def uriTurn (p : Htparser) (ch : UInt8) (s : σ) : Turn σ :=
  if usual ch then next (p.put ch) s
  else if ch = space then hooked hook p.target p { p with buf := [], state := .http09 } s
  else if ch = cr then oldVersion { p with buf := [] } .almostDone s
  else if ch = lf then oldVersion { p with buf := [] } .hdrlineStart s
  else if ch = 63 ∧ p.argsOffset.isNone then argsTurn hook p ch s
  else next (p.put ch) s

/-! ### The version -/

def http09Turn (p : Htparser) (ch : UInt8) (s : σ) : Turn σ :=
  if ch = space then next p s
  else if ch = cr then oldVersion { p with buf := [] } .almostDone s
  else if ch = lf then oldVersion { p with buf := [] } .hdrlineStart s
  else if ch = 72 then next { p with buf := [], state := .httpH } s
  else fail .invalProto p s

def httpTurn (expected : UInt8) (state : ParserState) (p : Htparser) (ch : UInt8) (s : σ) : Turn σ :=
  if ch = expected then next (p.goto state) s else fail .invalProto p s

def firstMajorDigitTurn (p : Htparser) (ch : UInt8) (s : σ) : Turn σ :=
  if ch < 49 ∨ ch > 57 then fail .invalVer p s
  else next { p with major := ch - 48, state := .majorDigit } s

def majorDigitTurn (p : Htparser) (ch : UInt8) (s : σ) : Turn σ :=
  if ch = dot then next (p.goto .firstMinorDigit) s
  else if ¬IsDigit ch then fail .invalVer p s
  else next { p with major := p.major * 10 + ch - 48 } s

def firstMinorDigitTurn (p : Htparser) (ch : UInt8) (s : σ) : Turn σ :=
  if ¬IsDigit ch then fail .invalVer p s
  else next { p with minor := ch - 48, state := .minorDigit } s

def minorDigitTurn (p : Htparser) (ch : UInt8) (s : σ) : Turn σ :=
  if ch = space then next (p.goto .spacesAfterDigit) s
  else if ch = cr then next (p.goto .almostDone) s
  else if ch = lf then fail .invalReqline p s
  else if ¬IsDigit ch then fail .invalVer p s
  else next { p with minor := p.minor * 10 + ch - 48 } s

def spacesAfterDigitTurn (p : Htparser) (ch : UInt8) (s : σ) : Turn σ :=
  if ch = space then next p s
  else if ch = cr then next (p.goto .almostDone) s
  else if ch = lf then next (p.goto .hdrlineStart) s
  else fail .invalVer p s

def almostDoneTurn (p : Htparser) (ch : UInt8) (s : σ) : Turn σ :=
  if ch = lf then hooked hook .onHdrsBegin (p.goto .done) (p.goto .done) s
  else fail .invalReqline p s

/-! ### Headers -/

def hdrlineStartTurn (p : Htparser) (ch : UInt8) (s : σ) : Turn σ :=
  let p := { p with buf := [] }
  if ch = cr then next (p.goto .hdrlineHdrAlmostDone) s
  else if ch = lf then next (p.goto .hdrlineHdrDone) s
  else next ((p.put ch).goto .hdrlineHdrKey) s

/-- A line feed ends the run without an error. -/
def doneTurn (p : Htparser) (ch : UInt8) (s : σ) : Turn σ :=
  if ch = cr then next (p.goto .hdrlineAlmostDone) s
  else if ch = lf then .stops 1 p s
  else hdrlineStartTurn p ch s

def hdrKeyTurn (p : Htparser) (ch : UInt8) (s : σ) : Turn σ :=
  if ch = colon then
    hooked hook (.hdrKey p.buf) p
      { p with heval := evalHdr p.buf, buf := [], state := .hdrlineHdrSpaceBeforeVal } s
  else if ch = cr then next (p.goto .hdrlineHdrAlmostDone) s
  else if ch = lf then next (p.goto .hdrlineHdrDone) s
  else next (p.put ch) s

/-- An empty value becomes a blank. -/
def spaceBeforeValTurn (p : Htparser) (ch : UInt8) (s : σ) : Turn σ :=
  if ch = space then next p s
  else if ch = cr then .goes 0 ((p.put space).goto .hdrlineHdrVal) s
  else if ch = lf then fail .invalHdr p s
  else next ((p.put ch).goto .hdrlineHdrVal) s

/-- The first letter may be of either case, the others not. -/
def startsEither (upper lower : UInt8) (rest : String) (value : Bytes) : Bool :=
  value = upper :: ascii rest ∨ value = lower :: ascii rest

def hdrValTurn (p : Htparser) (ch : UInt8) (s : σ) : Turn σ :=
  if ch = cr then
    let p' := p.goto .hdrlineHdrAlmostDone
    match p.heval with
    | .hostname => hooked hook (.hostname p.buf) p p' s
    | .contentLength => match strToUint64 p.buf with
        | some n => next { p' with contentLen := n, origContentLen := n } s
        | none => fail .tooBig { p with contentLen := 0, origContentLen := 0 } s
    | .connection =>
        next { p' with
          keepAlive := p.keepAlive || startsEither 75 107 "eep-Alive" p.buf
          close := p.close || p.buf = ascii "close" } s
    | .transferEncoding =>
        next { p' with chunked := p.chunked || startsEither 67 99 "hunked" p.buf } s
    | .contentType =>
        next { p' with multipart := p.multipart || startsEither 77 109 "ultipart" p.buf } s
    | .proxyConnection | .none => next p' s
  else if ch = lf then fail .invalHdr p s
  else next (p.put ch) s

def hdrAlmostDoneTurn (p : Htparser) (ch : UInt8) (s : σ) : Turn σ :=
  if ch = lf then
    if p.trailing then hooked hook .onMsgComplete p (p.goto .start) s
    else next (p.goto .hdrlineHdrDone) s
  else fail .invalHdr p s

def hdrDoneTurn (p : Htparser) (ch : UInt8) (s : σ) : Turn σ :=
  if ch = cr then
    let p' := p.goto .hdrlineAlmostDone
    let r := hook p (.hdrVal p.buf) s
    if r.1 then fail .user p' r.2 else hooked hook .onHdrsComplete p' p' r.2
  else if ch = lf then fail .invalHdr p s
  else if ch = 9 then next (p.goto .hdrlineHdrVal) s
  else hooked hook (.hdrVal p.buf) p { p with buf := [ch], state := .hdrlineHdrKey } s

def hdrlineAlmostDoneTurn (p : Htparser) (ch : UInt8) (s : σ) : Turn σ :=
  if ch = lf then
    let p := { p with buf := [] }
    if p.trailing then hooked hook .onMsgComplete p (p.goto .start) s
    else if p.chunked then next (p.goto .chunkSizeStart) s
    else if p.contentLen > 0 then next (p.goto .bodyRead) s
    else hooked hook .onMsgComplete p (p.goto .start) s
  else fail .invalHdr p s

/-! ### The body -/

def chunkSizeStartTurn (p : Htparser) (ch : UInt8) (s : σ) : Turn σ :=
  match unhex ch with
  | none => fail .invalChunkSz p s
  | some c => next { p with contentLen := c, state := .chunkSize } s

def chunkSizeTurn (p : Htparser) (ch : UInt8) (s : σ) : Turn σ :=
  if ch = cr then next (p.goto .chunkSizeAlmostDone) s
  else match unhex ch with
    | none => fail .invalChunkSz p s
    | some c => next { p with contentLen := p.contentLen * 16 + c } s

def chunkSizeAlmostDoneTurn (p : Htparser) (ch : UInt8) (s : σ) : Turn σ :=
  if ch ≠ lf then fail .invalChunkSz p s
  else
    let p := { p with origContentLen := p.contentLen }
    if p.contentLen = 0 then
      hooked hook .onChunksComplete p { p with trailing := true, state := .hdrlineStart } s
    else hooked hook .onNewChunk p (p.goto .chunkData) s

def Htparser.toRead (p : Htparser) (data : Bytes) : Nat := min data.length p.contentLen.toNat

def Htparser.minus (p : Htparser) (n : Nat) : Htparser :=
  { p with contentLen := p.contentLen - UInt64.ofNat n }

def Htparser.took (p : Htparser) (data : Bytes) : Htparser := p.minus (p.toRead data)

def bodyHook (p : Htparser) (data : Bytes) (s : σ) : Bool × σ :=
  if p.toRead data > 0 then hook p (.body (data.take (p.toRead data))) s else (false, s)

def chunkDataTurn (p : Htparser) (data : Bytes) (s : σ) : Turn σ :=
  checked (max (p.toRead data) 1) (bodyHook hook p data s) ((p.took data).goto
    (if p.toRead data = p.contentLen.toNat then .chunkDataAlmostDone else .chunkData))

def chunkDataAlmostDoneTurn (p : Htparser) (ch : UInt8) (s : σ) : Turn σ :=
  if ch ≠ cr then fail .invalChunk p s else next (p.goto .chunkDataDone) s

def chunkDataDoneTurn (p : Htparser) (ch : UInt8) (s : σ) : Turn σ :=
  if ch ≠ lf then fail .invalChunk p s
  else
    let p := { p with origContentLen := 0, state := .chunkSizeStart }
    hooked hook .onChunkComplete p p s

/-- What the body hook returns is forgotten at the end of the body. -/
def bodyReadTurn (p : Htparser) (data : Bytes) (s : σ) : Turn σ :=
  if (p.took data).contentLen = 0 then
    checked (max (p.toRead data) 1)
      (hook (p.took data) .onMsgComplete (bodyHook hook p data s).2) ((p.took data).goto .start)
  else checked (max (p.toRead data) 1) (bodyHook hook p data s) (p.took data)

/-! ## The loop -/

def turn (first : Bool) (p : Htparser) (ch : UInt8) (rest : Bytes) (s : σ) : Turn σ :=
  if p.buf.length ≥ PARSER_STACK_MAX then fail .tooBig p s
  else match p.state with
    | .start => startTurn hook p ch s
    | .method => methodTurn hook p ch s
    | .spacesBeforeUri => spacesBeforeUriTurn p ch s
    | .schema => schemaTurn hook p ch s
    | .schemaSlash => schemaSlashTurn p ch s
    | .schemaSlashSlash => schemaSlashSlashTurn p ch s
    | .host => hostTurn hook first p ch s
    | .hostIpv6 => hostIpv6Turn hook p ch s
    | .hostDone => hostDoneTurn first p ch s
    | .port => portTurn hook first p ch s
    | .afterSlashInUri => afterSlashInUriTurn hook p ch s
    | .checkUri => checkUriTurn hook p ch s
    | .uri => uriTurn hook p ch s
    | .http09 => http09Turn p ch s
    | .httpH => httpTurn 84 .httpHT p ch s
    | .httpHT => httpTurn 84 .httpHTT p ch s
    | .httpHTT => httpTurn 80 .httpHTTP p ch s
    | .httpHTTP => httpTurn slash .firstMajorDigit p ch s
    | .firstMajorDigit => firstMajorDigitTurn p ch s
    | .majorDigit => majorDigitTurn p ch s
    | .firstMinorDigit => firstMinorDigitTurn p ch s
    | .minorDigit => minorDigitTurn p ch s
    | .spacesAfterDigit => spacesAfterDigitTurn p ch s
    | .almostDone => almostDoneTurn hook p ch s
    | .done => doneTurn p ch s
    | .hdrlineStart => hdrlineStartTurn p ch s
    | .hdrlineHdrAlmostDone => hdrAlmostDoneTurn hook p ch s
    | .hdrlineHdrDone => hdrDoneTurn hook p ch s
    | .hdrlineHdrKey => hdrKeyTurn hook p ch s
    | .hdrlineHdrSpaceBeforeVal => spaceBeforeValTurn p ch s
    | .hdrlineHdrVal => hdrValTurn hook p ch s
    | .hdrlineAlmostDone => hdrlineAlmostDoneTurn hook p ch s
    | .bodyRead => bodyReadTurn hook p (ch :: rest) s
    | .chunkSizeStart => chunkSizeStartTurn p ch s
    | .chunkSize => chunkSizeTurn p ch s
    | .chunkSizeAlmostDone => chunkSizeAlmostDoneTurn hook p ch s
    | .chunkData => chunkDataTurn hook p (ch :: rest) s
    | .chunkDataAlmostDone => chunkDataAlmostDoneTurn p ch s
    | .chunkDataDone => chunkDataDoneTurn hook p ch s

/-- What a run leaves. It stopped with `left` bytes to go, or went through all. -/
structure Run (σ : Type) where
  parser : Htparser
  state : σ
  stopped : Bool
  left : Nat

/-- A turn, and a second one when the first comes back to its byte. -/
def turnBack (first : Bool) (p : Htparser) (ch : UInt8) (rest : Bytes) (s : σ) : Turn σ :=
  match turn hook first p ch rest s with
  | .goes 0 p s => turn hook first p ch rest s
  | once => once

def loop : Bytes → Nat → Bool → Htparser → σ → Run σ
  | [], _, _, p, s => ⟨p, s, false, 0⟩
  | _ :: rest, skip + 1, _, p, s => loop rest skip false p s
  | ch :: rest, 0, first, p, s => match turnBack hook first p ch rest s with
      | .goes n p s => loop rest (n - 1) false p s
      | .stops n p s => ⟨p, s, true, rest.length + 1 - n⟩

def htparserRun (p : Htparser) (data : Bytes) (s : σ) : Run σ :=
  loop hook data 0 true { p with error := .none } s

end Turns
end Ximg.Htparse
