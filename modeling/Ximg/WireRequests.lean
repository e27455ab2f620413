import Ximg.HtparseSplits
import Ximg.QueryRoundTrip

/-!
# What a client writes

Requests as a client writes them, and the parser behind the first line of one.
-/

namespace Ximg.Wire
open Text Htparse

/-! ## What a client writes -/

structure ClientRequest where
  method : Nat
  path : CString
  args : Option CString
  headers : List EvhtpKv
  body : Bytes

def headerLine (header : EvhtpKv) : Bytes :=
  header.key.bytes ++ colon :: space :: (header.val.bytes ++ [cr, lf])

namespace ClientRequest

def target (r : ClientRequest) : Bytes :=
  r.path.bytes ++ r.args.elim [] fun args => Query.questionMark :: args.bytes

def version : Bytes := [72, 84, 84, 80, slash, 49, dot, 49, cr, lf]

def methodName (r : ClientRequest) : Bytes := ascii (methodNames.getD r.method "")

def wire (r : ClientRequest) : Bytes :=
  r.methodName ++ space :: (r.target ++ space :: (version ++
    (r.headers.flatMap headerLine ++ cr :: lf :: r.body)))

end ClientRequest

def Named (header : EvhtpKv) (name : String) : Prop := strcasecmp header.key.bytes (ascii name) = true

structure PlainHeader (header : EvhtpKv) : Prop where
  someKey : header.key.bytes ≠ []
  key : ∀ c ∈ header.key.bytes, c ≠ colon ∧ c ≠ cr ∧ c ≠ lf
  unfolded : header.key.bytes.head? ≠ some 9
  shortKey : header.key.bytes.length < PARSER_STACK_MAX
  someVal : header.val.bytes ≠ []
  val : ∀ c ∈ header.val.bytes, c ≠ cr ∧ c ≠ lf
  trimmed : header.val.bytes.head? ≠ some space
  shortVal : header.val.bytes.length < PARSER_STACK_MAX

structure WellFormed (r : ClientRequest) : Prop where
  method : r.method < methodNames.length
  absolute : r.path.bytes.head? = some slash
  path : ∀ c ∈ r.path.bytes, c ≠ space ∧ c ≠ cr ∧ c ≠ lf ∧ c ≠ Query.questionMark
  args : ∀ args ∈ r.args, ∀ c ∈ args.bytes, c ≠ space ∧ c ≠ cr ∧ c ≠ lf
  query : ∀ args ∈ r.args, ∃ kvs, evhtpParseQuery args.bytes = .ok kvs
  short : r.target.length < PARSER_STACK_MAX
  headed : r.headers ≠ []
  headers : ∀ header ∈ r.headers, PlainHeader header
  unchunked : ∀ header ∈ r.headers, ¬Named header "transfer-encoding"
  kept : ∀ header ∈ r.headers, Named header "connection" → header.val.bytes ≠ ascii "close"
  lengths : ∀ header ∈ r.headers, Named header "content-length" →
    header.val.bytes = decimalNat r.body.length
  length : r.body ≠ [] → ∃ header ∈ r.headers, Named header "content-length"
  small : r.body.length < 2 ^ 64

namespace ClientRequest

def isForm (r : ClientRequest) : Bool :=
  r.body ≠ [] && match evhtpKvFind r.headers (ascii "content-type") with
    | some contentType =>
        strcasecmp (contentType.take EvhtpConnection.urlencoded.length)
          (ascii EvhtpConnection.urlencoded)
    | none => false

def rawQuery (r : ClientRequest) : Option Bytes :=
  match r.args with
  | some args => some args.bytes
  | none => if r.isForm then some r.body else none

def received (r : ClientRequest) : Received :=
  ⟨⟨r.method, r.path, r.rawQuery.bind fun query => (evhtpParseQuery query).toOption, r.headers,
    r.body⟩, r.rawQuery.map cStr⟩

end ClientRequest

/-! ## Lengths -/

theorem decimalNat_step {n : Nat} (big : 10 ≤ n) :
    decimalNat n = decimalNat (n / 10) ++ [UInt8.ofNat (48 + n % 10)] := by
  have some' : n / 10 ≠ 0 := by omega
  unfold decimalNat
  rw [if_neg (by omega), if_neg some', Nat.digits_def' (by norm_num) (by omega)]
  simp

theorem strToUint64Loop_append (s t : Bytes) (value : UInt64) :
    strToUint64Loop (s ++ t) value = (strToUint64Loop s value).bind (strToUint64Loop t) := by
  induction s generalizing value with
  | nil => rfl
  | cons c s ih =>
      rw [List.cons_append, strToUint64Loop, strToUint64Loop]
      dsimp only
      split
      · rfl
      · split
        · rfl
        · exact ih _

theorem digit_read {m d : Nat} (digit : d < 10) (fits : 10 * m + d < 2 ^ 64) :
    strToUint64Loop [UInt8.ofNat (48 + d)] (UInt64.ofNat m) = some (UInt64.ofNat (10 * m + d)) := by
  have isDigit : IsDigit (UInt8.ofNat (48 + d)) := by interval_cases d <;> decide
  have read : (UInt8.ofNat (48 + d) - 48).toUInt64 = UInt64.ofNat d := by interval_cases d <;> rfl
  have check : UInt64.ofNat m * 10 + UInt64.ofNat d = UInt64.ofNat (10 * m + d) := by
    rw [UInt64.ofNat_add, UInt64.ofNat_mul, mul_comm]
    rfl
  have grows : ¬(UInt64.ofNat m ≠ 0 ∧ UInt64.ofNat (10 * m + d) ≤ UInt64.ofNat m) := by
    rintro ⟨some', less⟩
    rw [UInt64.le_iff_toNat_le, UInt64.toNat_ofNat_of_lt' fits,
      UInt64.toNat_ofNat_of_lt' (show m < 2 ^ 64 by omega)] at less
    obtain rfl : m = 0 := by omega
    exact some' rfl
  rw [strToUint64Loop, if_neg (not_not.mpr isDigit)]
  dsimp only
  rw [read, check, if_neg grows]
  rfl

theorem length_read {n : Nat} (fits : n < 2 ^ 64) :
    strToUint64 (decimalNat n) = some (UInt64.ofNat n) := by
  have loop : strToUint64Loop (decimalNat n) 0 = some (UInt64.ofNat n) := by
    induction n using Nat.strong_induction_on with
    | _ n ih =>
      by_cases small : n < 10
      · interval_cases n <;> rfl
      · rw [decimalNat_step (by omega), strToUint64Loop_append, ih (n / 10) (by omega) (by omega),
          Option.bind_some, digit_read (by omega) (by omega)]
        congr 2
        omega
  have short := decimalNat_length_le n 20 (by norm_num) (by omega)
  rw [strToUint64, if_neg (by omega), loop]

theorem strcasecmp_names {s t u : Bytes} (first : strcasecmp s t = true)
    (second : strcasecmp s u = true) : strcasecmp t u = true := by
  simp only [strcasecmp, decide_eq_true_eq] at first second ⊢
  exact first.symm.trans second

theorem evalHdr_length (key : Bytes) :
    evalHdr key = .contentLength ↔ strcasecmp key (ascii "content-length") = true := by
  constructor
  · unfold evalHdr
    split_ifs <;> simp_all
  · intro named
    have other (name : String) (differs : strcasecmp (ascii name) (ascii "content-length") = false) :
        ¬strcasecmp key (ascii name) = true := fun same => by
      simp [strcasecmp_names same named] at differs
    unfold evalHdr
    rw [if_neg (other "host" (by decide)), if_neg (other "connection" (by decide)),
      if_neg (other "content-type" (by decide)), if_pos named]

theorem evalHdr_coding {key : Bytes} (coding : evalHdr key = .transferEncoding) :
    strcasecmp key (ascii "transfer-encoding") = true := by
  unfold evalHdr at coding
  split_ifs at coding
  assumption

theorem evalHdr_connection {key : Bytes} (connection : evalHdr key = .connection) :
    strcasecmp key (ascii "connection") = true := by
  unfold evalHdr at connection
  split_ifs at connection
  assumption

/-! ## One turn -/

/-- Where the parser is in a request, with what it needs to know later. -/
structure At (p : Htparser) (state : ParserState) (method : Nat) (len : UInt64) : Prop where
  fine : p.error = .none
  state : p.state = state
  unchunked : p.chunked = false
  untrailed : p.trailing = false
  unclosed : p.close = false
  method : p.method = method
  left : p.contentLen = len
  whole : p.origContentLen = len

theorem At.moved {p q : Htparser} {state state' : ParserState} {method : Nat} {len : UInt64}
    (here : At p state method len)
    (same : (q.error, q.chunked, q.trailing, q.close, q.method, q.contentLen, q.origContentLen) =
      (p.error, p.chunked, p.trailing, p.close, p.method, p.contentLen, p.origContentLen))
    (goes : q.state = state') : At q state' method len := by
  simp only [Prod.mk.injEq] at same
  obtain ⟨error, chunked, trailing, close, method', left, whole⟩ := same
  exact ⟨error.trans here.fine, goes, chunked.trans here.unchunked, trailing.trans here.untrailed,
    close.trans here.unclosed, method'.trans here.method, left.trans here.left,
    whole.trans here.whole⟩

structure Idle (p : Htparser) : Prop where
  fine : p.error = .none
  state : p.state = .start
  buf : p.buf = []

section Generic
variable {σ : Type} {hook : Htparser → Hook → σ → Bool × σ} {p p' : Htparser} {s s' : σ}

theorem feed_next {ch : UInt8} (fine : p.error = .none)
    (turned : turn hook true p ch [] s = next p' s') : feed hook (p, s) ch = some (p', s') := by
  simp [feed, htparserRun, reset fine, loop, turnBack, turned, next]

theorem feeds_next {ch : UInt8} (data : Bytes) (fine : p.error = .none)
    (turned : turn hook true p ch [] s = next p' s') :
    feeds hook (p, s) (ch :: data) = feeds hook (p', s') data := by
  rw [feeds_cons, feed_next fine turned, Option.bind_some]

theorem feeds_then {data more : Bytes} {y : Htparser × σ} (first : feeds hook (p, s) data = some y) :
    feeds hook (p, s) (data ++ more) = feeds hook y more := by
  rw [feeds_append, first, Option.bind_some]

theorem hooked_next {h : Hook} {q : Htparser} (passed : hook q h s = (false, s')) :
    hooked hook h q p' s = next p' s' := by
  simp [hooked, checked, passed, next]

theorem hooked₂_next {h h' : Hook} {q : Htparser} {s₁ : σ} (passed : hook q h s = (false, s₁))
    (passed' : hook q h' s₁ = (false, s')) : hooked₂ hook h h' q p' s = next p' s' := by
  simp [hooked₂, passed, passed']

def filled (p : Htparser) (data : Bytes) : Htparser := { p with buf := p.buf ++ data }

variable (hook) in
theorem feeds_put {state : ParserState} (data : Bytes) (fine : p.error = .none)
    (at' : p.state = state) (room : p.buf.length + data.length ≤ PARSER_STACK_MAX)
    (puts : ∀ (q : Htparser) (ch : UInt8), ch ∈ data → q.state = state →
      q.buf.length < PARSER_STACK_MAX → turn hook true q ch [] s = next (q.put ch) s) :
    feeds hook (p, s) data = some (filled p data, s) := by
  induction data generalizing p with
  | nil => simp [feeds, filled]
  | cons ch data ih =>
      rw [List.length_cons] at room
      have here := puts p ch List.mem_cons_self at' (by omega)
      have rest := ih (p := p.put ch) fine at' (by simp [Htparser.put]; omega)
        fun q ch inside => puts q ch (.tail _ inside)
      rw [feeds_next data fine here, rest]
      simp [filled, Htparser.put]

end Generic

def asks (c : EvhtpConnection) (req : Incoming) : EvhtpConnection := { c with request := some req }

/-! ## Methods -/

section Stages
variable {p : Htparser} {c : EvhtpConnection}

theorem methods_known : ∀ i < methodNames.length,
    (∀ ch ∈ ascii (methodNames.getD i ""), IsToken ch) ∧ ascii (methodNames.getD i "") ≠ [] ∧
      htpMethod (ascii (methodNames.getD i "")) = i ∧
      (ascii (methodNames.getD i "")).length < 10 := by
  decide +kernel

theorem token_other {ch : UInt8} (token : IsToken ch) : ch ≠ space ∧ ch ≠ cr ∧ ch ≠ lf := by
  refine ⟨?_, ?_, ?_⟩ <;> rintro rfl <;> revert token <;> decide

/-- A new request takes the place of one that was answered. -/
theorem start_run (idle : Idle p) (answered : ∀ req ∈ c.request, req.finished = true) {ch : UInt8}
    (token : IsToken ch) :
    ∃ q, feed requestPsets (p, c) ch = some (q, asks c evhtpRequestNew) ∧
      At q .method htpMethodUNKNOWN 0 ∧ q.buf = [ch] ∧ q.argsOffset = none := by
  obtain ⟨-, noCr, noLf⟩ := token_other token
  have started (q : Htparser) : requestPsets q .onMsgBegin c =
      (false, asks c evhtpRequestNew) := by
    show c.parserStart = _
    unfold EvhtpConnection.parserStart
    cases request : c.request with
    | none => rfl
    | some req =>
        simp [answered req (by simp [request])]
        rfl
  have turned : ∃ q, turn requestPsets true p ch [] c =
      next q (asks c evhtpRequestNew) ∧
      At q .method htpMethodUNKNOWN 0 ∧ q.buf = [ch] ∧ q.argsOffset = none := by
    unfold turn
    rw [if_neg (by simp [idle.buf, PARSER_STACK_MAX]), idle.state]
    unfold startTurn
    rw [if_neg (by simp [noCr, noLf]), if_neg (by simpa using token)]
    exact ⟨_, hooked_next (started _), ⟨rfl, rfl, rfl, rfl, rfl, rfl, rfl, rfl⟩,
      by simp [Htparser.put, Htparser.goto, idle.buf], rfl⟩
  obtain ⟨q, turned, facts⟩ := turned
  exact ⟨q, feed_next idle.fine turned, facts⟩

theorem method_run (idle : Idle p) (answered : ∀ req ∈ c.request, req.finished = true) {i : Nat}
    (known : i < methodNames.length) :
    ∃ q, feeds requestPsets (p, c) (ascii (methodNames.getD i "") ++ [space]) =
        some (q, asks c evhtpRequestNew) ∧
      At q .spacesBeforeUri i 0 ∧ q.buf = [] ∧ q.argsOffset = none := by
  obtain ⟨tokens, some', named, short⟩ := methods_known i known
  obtain ⟨ch, name, letters⟩ := List.exists_cons_of_ne_nil some'
  rw [letters] at tokens named short ⊢
  rw [List.length_cons] at short
  obtain ⟨q, first, here, buf, args⟩ := start_run idle answered (tokens ch List.mem_cons_self)
  have rest := feeds_put requestPsets (s := asks c evhtpRequestNew)
    name here.fine here.state (by simp [buf, PARSER_STACK_MAX]; omega) fun q ch inside state room => by
      have token := tokens ch (.tail _ inside)
      unfold turn
      rw [if_neg (by omega), state]
      unfold methodTurn
      rw [if_neg (token_other token).1, if_neg (by simpa using token)]
  have last : turn requestPsets true (filled q name) space []
      (asks c evhtpRequestNew) =
      next { q with buf := [], method := i, state := .spacesBeforeUri }
        (asks c evhtpRequestNew) := by
    unfold turn
    rw [if_neg (by simp [filled, buf, PARSER_STACK_MAX]; omega)]
    simp only [filled, here.state, methodTurn, if_true, buf, List.singleton_append, named]
    exact hooked_next rfl
  refine ⟨{ q with buf := [], method := i, state := .spacesBeforeUri }, ?_, ⟨here.fine, rfl,
    here.unchunked, here.untrailed, here.unclosed, rfl, here.left, here.whole⟩, rfl, args⟩
  rw [List.cons_append, feeds_cons, first, Option.bind_some, feeds_then rest,
    feeds_next [] (p := filled q name) here.fine last]
  rfl

/-! ## Targets -/

def InTarget (p : Htparser) : Prop :=
  p.state = .afterSlashInUri ∨ p.state = .checkUri ∨ p.state = .uri

theorem target_put {q : Htparser} (inside : InTarget q) (room : q.buf.length < PARSER_STACK_MAX)
    {ch : UInt8} (plain : ch ≠ space ∧ ch ≠ cr ∧ ch ≠ lf)
    (same : ch = Query.questionMark → q.argsOffset.isSome ∧ q.state = .uri) :
    ∃ state, turn requestPsets true q ch [] c = next { q.put ch with state := state } c ∧
      InTarget { q.put ch with state := state } ∧ (q.state = .uri → state = .uri) := by
  obtain ⟨noSpace, noCr, noLf⟩ := plain
  have notFull : ¬q.buf.length ≥ PARSER_STACK_MAX := by omega
  obtain state | state | state := inside
  · have noMark : ch ≠ 63 := fun mark => by simp [state] at same; exact same mark
    simp only [turn, if_neg notFull, state, afterSlashInUriTurn, if_neg noSpace, if_neg noCr,
      if_neg noLf, if_neg noMark]
    split_ifs
    · exact ⟨.checkUri, rfl, .inr (.inl rfl), by simp⟩
    · exact ⟨.uri, rfl, .inr (.inr rfl), by simp⟩
    · exact ⟨.checkUri, rfl, .inr (.inl rfl), by simp⟩
  · have noMark : ch ≠ 63 := fun mark => by simp [state] at same; exact same mark
    simp only [turn, if_neg notFull, state, checkUriTurn, if_neg noSpace, if_neg noCr,
      if_neg noLf, if_neg noMark]
    split_ifs
    · exact ⟨.checkUri, by rw [← state]; rfl, .inr (.inl rfl), by simp⟩
    · exact ⟨.afterSlashInUri, rfl, .inl rfl, by simp⟩
    · exact ⟨.uri, rfl, .inr (.inr rfl), by simp⟩
  · have noMark : ¬(ch = 63 ∧ q.argsOffset.isNone) := by
      rintro ⟨mark, none⟩
      have some' := (same mark).1
      simp_all
    simp only [turn, if_neg notFull, state, uriTurn, if_neg noSpace, if_neg noCr,
      if_neg noLf, if_neg noMark]
    split_ifs <;> exact ⟨.uri, by rw [← state]; rfl, .inr (.inr rfl), by simp⟩

theorem target_puts (data : Bytes) {q : Htparser} (fine : q.error = .none) (inside : InTarget q)
    (room : q.buf.length + data.length ≤ PARSER_STACK_MAX)
    (plain : ∀ ch ∈ data, ch ≠ space ∧ ch ≠ cr ∧ ch ≠ lf)
    (marks : Query.questionMark ∈ data → q.argsOffset.isSome ∧ q.state = .uri) :
    ∃ state, feeds requestPsets (q, c) data = some ({ filled q data with state := state }, c) ∧
      InTarget { q with state := state } ∧ (q.state = .uri → state = .uri) := by
  induction data generalizing q with
  | nil => exact ⟨q.state, by simp [feeds, filled], inside, id⟩
  | cons ch data ih =>
      rw [List.length_cons] at room
      obtain ⟨state, turned, inside', kept⟩ := target_put (c := c) inside (by omega)
        (plain ch List.mem_cons_self) fun mark => marks (by simp [mark])
      obtain ⟨state', run, inside'', kept'⟩ := ih (q := { q.put ch with state := state }) fine
        inside' (by simp [Htparser.put]; omega) (fun ch' member => plain ch' (.tail _ member))
        fun mark => ⟨(marks (.tail _ mark)).1, kept (marks (.tail _ mark)).2⟩
      refine ⟨state', ?_, inside'', fun uri => kept' (kept uri)⟩
      rw [feeds_next data fine turned, run]
      simp [filled, Htparser.put]

theorem target_end {q : Htparser} {c' : EvhtpConnection} (inside : InTarget q)
    (room : q.buf.length < PARSER_STACK_MAX) (args : q.argsOffset.isSome → q.state = .uri)
    (told : requestPsets q q.target c = (false, c')) :
    turn requestPsets true q space [] c = next { q with buf := [], state := .http09 } c' := by
  have notFull : ¬q.buf.length ≥ PARSER_STACK_MAX := by omega
  have blank : usual space = false := by decide
  obtain state | state | state := inside
  · have path : q.target = .path (q.since q.pathOffset) := by
      have none : ¬q.argsOffset.isSome := fun some' => by simp [args some'] at state
      rw [Htparser.target, if_neg none]
    rw [path] at told
    simp only [turn, if_neg notFull, state, afterSlashInUriTurn, blank, Bool.false_eq_true, if_false,
      if_true]
    exact hooked₂_next told rfl
  · simp only [turn, if_neg notFull, state, checkUriTurn, blank, Bool.false_eq_true, if_false,
      if_true]
    exact hooked₂_next told rfl
  · simp only [turn, if_neg notFull, state, uriTurn, blank, Bool.false_eq_true, if_false, if_true]
    exact hooked_next told

def argsBegun (q : Htparser) : Htparser :=
  { q.put Query.questionMark with argsOffset := some (q.buf.length + 1), state := .uri }

theorem target_mark {q : Htparser} {c' : EvhtpConnection} (inside : InTarget q)
    (room : q.buf.length < PARSER_STACK_MAX) (args : q.argsOffset = none)
    (told : requestPsets q (.path (q.since q.pathOffset)) c = (false, c')) :
    turn requestPsets true q Query.questionMark [] c = next (argsBegun q) c' := by
  have notFull : ¬q.buf.length ≥ PARSER_STACK_MAX := by omega
  have mark : usual 63 = false := by decide
  have turned : turn requestPsets true q Query.questionMark [] c =
      argsTurn requestPsets q Query.questionMark c := by
    obtain state | state | state := inside <;>
      simp [turn, notFull, state, afterSlashInUriTurn, checkUriTurn, uriTurn, mark, args,
        Query.questionMark, space, cr, lf, dot, slash]
  rw [turned]
  exact hooked_next told

def pathBegun (p : Htparser) : Htparser :=
  { p.put slash with pathOffset := some 0, state := .afterSlashInUri }

def ClientRequest.uri (r : ClientRequest) : EvhtpUri :=
  ⟨r.path, r.args.bind fun args => (evhtpParseQuery args.bytes).toOption, r.args⟩

def ClientRequest.asked (r : ClientRequest) (uri : EvhtpUri) : Incoming :=
  { evhtpRequestNew with method := r.method, uri := some uri }

variable {r : ClientRequest}

/-- The path is behind the parser, but was not told of. -/
structure BehindPath (r : ClientRequest) (q : Htparser) : Prop where
  at' : At q q.state r.method 0
  inside : InTarget q
  bytes : q.buf = r.path.bytes
  since : q.pathOffset = some 0
  args : q.argsOffset = none

theorem BehindPath.told {q : Htparser} (behind : BehindPath r q) :
    requestPsets q (.path (q.since q.pathOffset)) (asks c evhtpRequestNew) =
      (false, asks c (r.asked ⟨r.path, none, none⟩)) := by
  have since : q.since q.pathOffset = r.path.bytes := by
    rw [Htparser.since, behind.since, behind.bytes]
    rfl
  simp [requestPsets, EvhtpConnection.parserPath, EvhtpConnection.onRequest, asks, since,
    Query.cStr_bytes, behind.at'.method, ClientRequest.asked]

theorem path_run (formed : WellFormed r) (here : At p .spacesBeforeUri r.method 0)
    (buf : p.buf = []) (noArgs : p.argsOffset = none) :
    ∃ q, feeds requestPsets (p, c) r.path.bytes = some (q, c) ∧ BehindPath r q := by
  obtain ⟨path, split⟩ : ∃ path, r.path.bytes = slash :: path :=
    List.head?_eq_some_iff.mp formed.absolute
  have short := formed.short
  rw [ClientRequest.target, List.length_append, split, List.length_cons] at short
  have first : turn requestPsets true p slash [] c = next (pathBegun p) c := by
    simp only [turn, here.state, spacesBeforeUriTurn, pathBegun, buf]
    rfl
  obtain ⟨state, run, inside, -⟩ := target_puts (c := c) path (q := pathBegun p) here.fine
    (.inl rfl) (by simp [pathBegun, Htparser.put, buf]; omega)
    (fun ch member => by
      have plain := formed.path ch (by simp [split, member])
      exact ⟨plain.1, plain.2.1, plain.2.2.1⟩)
    fun mark => absurd rfl (formed.path _ (by simp [split, mark])).2.2.2
  refine ⟨{ filled (pathBegun p) path with state := state }, ?_, here.moved rfl rfl, inside, ?_,
    rfl, noArgs⟩
  · rw [split, feeds_next path here.fine first, run]
  · simp [filled, pathBegun, Htparser.put, buf, split]

theorem blank_run {q : Htparser} {state : ParserState} {c' : EvhtpConnection}
    (here : At q state r.method 0) (inside : InTarget q) (room : q.buf.length < PARSER_STACK_MAX)
    (args : q.argsOffset.isSome → q.state = .uri) (told : requestPsets q q.target c = (false, c')) :
    ∃ q', feeds requestPsets (q, c) [space] = some (q', c') ∧ At q' .http09 r.method 0 ∧
      q'.buf = [] := by
  refine ⟨{ q with buf := [], state := .http09 }, ?_, here.moved rfl rfl, rfl⟩
  rw [feeds_next [] here.fine (target_end inside room args told)]
  rfl

theorem args_run (formed : WellFormed r) {a : CString} (some' : r.args = some a) {q : Htparser}
    (behind : BehindPath r q) :
    ∃ q', feeds requestPsets (q, asks c evhtpRequestNew)
        (Query.questionMark :: a.bytes ++ [space]) = some (q', asks c (r.asked r.uri)) ∧
      At q' .http09 r.method 0 ∧ q'.buf = [] := by
  have short := formed.short
  rw [ClientRequest.target, some', Option.elim_some, List.length_append, List.length_cons] at short
  have room : q.buf.length < PARSER_STACK_MAX := by rw [behind.bytes]; omega
  have mark := target_mark behind.inside room behind.args (behind.told (c := c))
  obtain ⟨state, run, inside, kept⟩ := target_puts (c := asks c (r.asked ⟨r.path, none, none⟩))
    a.bytes (q := argsBegun q) behind.at'.fine (.inr (.inr rfl))
    (by simp [argsBegun, Htparser.put, behind.bytes]; omega) (formed.args a some')
    fun _ => ⟨rfl, rfl⟩
  obtain rfl := kept rfl
  obtain ⟨kvs, parsed⟩ := formed.query a some'
  have target : ({ filled (argsBegun q) a.bytes with state := .uri } : Htparser).target =
      .args a.bytes := by
    simp [Htparser.target, Htparser.since, filled, argsBegun, Htparser.put]
  have told : requestPsets { filled (argsBegun q) a.bytes with state := .uri } (.args a.bytes)
      (asks c (r.asked ⟨r.path, none, none⟩)) = (false, asks c (r.asked r.uri)) := by
    simp [requestPsets, EvhtpConnection.parserArgs, EvhtpConnection.onRequest, asks,
      ClientRequest.asked, ClientRequest.uri, some', parsed, Query.cStr_bytes, Except.toOption]
  obtain ⟨q', last, facts⟩ := blank_run (r := r)
    (q := { filled (argsBegun q) a.bytes with state := .uri }) (behind.at'.moved rfl rfl) inside
    (by simp [filled, argsBegun, Htparser.put, behind.bytes]; omega) (fun _ => rfl)
    (by rw [target]; exact told)
  refine ⟨q', ?_, facts⟩
  rw [List.cons_append, feeds_next _ behind.at'.fine mark, feeds_then run, last]

theorem target_run (formed : WellFormed r) (here : At p .spacesBeforeUri r.method 0)
    (buf : p.buf = []) (noArgs : p.argsOffset = none) :
    ∃ q, feeds requestPsets (p, asks c evhtpRequestNew) (r.target ++ [space]) =
        some (q, asks c (r.asked r.uri)) ∧ At q .http09 r.method 0 ∧ q.buf = [] := by
  obtain ⟨q, run, behind⟩ := path_run (c := asks c evhtpRequestNew) formed here buf noArgs
  cases args : r.args with
  | none =>
      have target : q.target = .path (q.since q.pathOffset) := by
        rw [Htparser.target, behind.args]
        rfl
      have short := formed.short
      rw [ClientRequest.target, List.length_append] at short
      obtain ⟨q', last, facts⟩ := blank_run behind.at' behind.inside
        (by rw [behind.bytes]; omega) (fun some' => by simp [behind.args] at some')
        (by rw [target]; exact behind.told (c := c))
      refine ⟨q', ?_, facts⟩
      rw [ClientRequest.target, args, Option.elim_none, List.append_nil, feeds_then run, last,
        ClientRequest.uri, args]
      rfl
  | some a =>
      obtain ⟨q', rest, facts⟩ := args_run (c := c) formed args behind
      refine ⟨q', ?_, facts⟩
      rw [ClientRequest.target, args, Option.elim_some, List.append_assoc, feeds_then run, rest]

/-! ## The version -/

def reading (p : Htparser) (state : ParserState) : Htparser := { p with buf := [], state := state }

theorem letters_run (p : Htparser) (c : EvhtpConnection) :
    turn requestPsets true (reading p .httpH) 84 [] c = next (reading p .httpHT) c ∧
      turn requestPsets true (reading p .httpHT) 84 [] c = next (reading p .httpHTT) c ∧
      turn requestPsets true (reading p .httpHTT) 80 [] c = next (reading p .httpHTTP) c ∧
      turn requestPsets true (reading p .httpHTTP) slash [] c = next (reading p .firstMajorDigit) c :=
  ⟨rfl, rfl, rfl, rfl⟩

def numbered (p : Htparser) (state : ParserState) : Htparser := { reading p state with major := 1 }

def versioned (p : Htparser) (state : ParserState) : Htparser := { numbered p state with minor := 1 }

theorem digits_run (p : Htparser) (c : EvhtpConnection) :
    turn requestPsets true (reading p .firstMajorDigit) 49 [] c =
        next (numbered p .majorDigit) c ∧
      turn requestPsets true (numbered p .majorDigit) dot [] c =
        next (numbered p .firstMinorDigit) c ∧
      turn requestPsets true (numbered p .firstMinorDigit) 49 [] c =
        next (versioned p .minorDigit) c ∧
      turn requestPsets true (versioned p .minorDigit) cr [] c = next (versioned p .almostDone) c ∧
      turn requestPsets true (versioned p .almostDone) lf [] c = next (versioned p .done) c :=
  ⟨rfl, rfl, rfl, rfl, rfl⟩

theorem version_run {i : Nat} (here : At p .http09 i 0) (buf : p.buf = []) :
    ∃ q, feeds requestPsets (p, c) ClientRequest.version = some (q, c) ∧ At q .done i 0 ∧
      q.buf = [] ∧ q.major = 1 ∧ q.minor = 1 := by
  have fine (state : ParserState) : (reading p state).error = .none := here.fine
  have fine₁ (state : ParserState) : (numbered p state).error = .none := here.fine
  have fine' (state : ParserState) : (versioned p state).error = .none := here.fine
  have first : turn requestPsets true p 72 [] c = next (reading p .httpH) c := by
    simp only [turn, here.state, http09Turn, buf]
    rfl
  obtain ⟨one, two, three, four⟩ := letters_run p c
  obtain ⟨major, point, minor, ends, last⟩ := digits_run p c
  refine ⟨versioned p .done, ?_, here.moved rfl rfl, rfl, rfl, rfl⟩
  rw [ClientRequest.version, feeds_next _ here.fine first, feeds_next _ (fine _) one,
    feeds_next _ (fine _) two, feeds_next _ (fine _) three, feeds_next _ (fine _) four,
    feeds_next _ (fine _) major, feeds_next _ (fine₁ _) point, feeds_next _ (fine₁ _) minor,
    feeds_next _ (fine' _) ends, feeds_next _ (fine' _) last]
  rfl

end Stages
end Ximg.Wire
