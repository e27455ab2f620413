import Ximg.WireRequests

/-!
# Messages

The parser behind the headers, the body and the whole of a request that a client wrote.
-/

namespace Ximg.Wire
open Text Htparse

section Stages
variable {p : Htparser} {c : EvhtpConnection} {r : ClientRequest}

/-! ## Headers -/

def ClientRequest.headed (r : ClientRequest) (headers : List HeaderIn) : Incoming :=
  { r.asked r.uri with headersIn := headers }

def complete (header : EvhtpKv) : HeaderIn := ⟨header.key, some header.val⟩

def ClientRequest.lengthBehind (r : ClientRequest) (header : EvhtpKv) (len : UInt64) : UInt64 :=
  if evalHdr header.key.bytes = .contentLength then UInt64.ofNat r.body.length else len

def SameVersion (p q : Htparser) : Prop := q.major = p.major ∧ q.minor = p.minor

variable {header : EvhtpKv} {l : List HeaderIn} {len : UInt64} {i : Nat}

theorem value_end (formed : WellFormed r) (member : header ∈ r.headers)
    (here : At p .hdrlineHdrVal i len) (buf : p.buf = header.val.bytes)
    (heval : p.heval = evalHdr header.key.bytes) :
    ∃ q, turn requestPsets true p cr [] c = next q c ∧
      At q .hdrlineHdrAlmostDone i (r.lengthBehind header len) ∧ q.buf = header.val.bytes ∧
      SameVersion p q := by
  have short := (formed.headers header member).shortVal
  obtain ⟨fine, state, unchunked, untrailed, unclosed, method, left, whole⟩ := here
  have notFull : ¬p.buf.length ≥ PARSER_STACK_MAX := by rw [buf]; omega
  simp only [turn, if_neg notFull, state, hdrValTurn, if_true]
  cases eval : p.heval with
  | none | proxyConnection | contentType =>
      have other : r.lengthBehind header len = len := by
        rw [ClientRequest.lengthBehind, ← heval, eval, if_neg (by simp)]
      rw [other]
      exact ⟨_, rfl, ⟨fine, rfl, unchunked, untrailed, unclosed, method, left, whole⟩, buf, rfl,
        rfl⟩
  | hostname =>
      have other : r.lengthBehind header len = len := by
        rw [ClientRequest.lengthBehind, ← heval, eval, if_neg (by simp)]
      rw [other]
      exact ⟨_, hooked_next rfl, ⟨fine, rfl, unchunked, untrailed, unclosed, method, left, whole⟩,
        buf, rfl, rfl⟩
  | transferEncoding =>
      exact absurd (evalHdr_coding (heval.symm.trans eval)) (formed.unchunked header member)
  | connection =>
      have other : r.lengthBehind header len = len := by
        rw [ClientRequest.lengthBehind, ← heval, eval, if_neg (by simp)]
      have kept := formed.kept header member (evalHdr_connection (heval.symm.trans eval))
      rw [other]
      exact ⟨_, rfl, ⟨fine, rfl, unchunked, untrailed, by simp [unclosed, buf, kept], method, left,
        whole⟩, buf, rfl, rfl⟩
  | contentLength =>
      have length := heval.symm.trans eval
      have read := length_read formed.small
      rw [← formed.lengths header member ((evalHdr_length _).mp length), ← buf] at read
      simp only [read]
      rw [ClientRequest.lengthBehind, if_pos length]
      exact ⟨_, rfl, ⟨fine, rfl, unchunked, untrailed, unclosed, method, rfl, rfl⟩, buf, rfl,
        rfl⟩

def named (p : Htparser) (header : EvhtpKv) (state : ParserState) (buf : Bytes) : Htparser :=
  { p with heval := evalHdr header.key.bytes, buf := buf, state := state }

theorem At.named (here : At p .hdrlineHdrKey i len) (header : EvhtpKv) (state : ParserState)
    (buf : Bytes) : At (named p header state buf) state i len :=
  here.moved rfl rfl

theorem key_run (plain : PlainHeader header) {k : UInt8} {ks : Bytes}
    (key : header.key.bytes = k :: ks) (here : At p .hdrlineHdrKey i len) (buf : p.buf = [k]) :
    feeds requestPsets (p, asks c (r.headed l)) (ks ++ [colon, space]) =
      some (named p header .hdrlineHdrSpaceBeforeVal [],
        asks c (r.headed (l ++ [⟨header.key, none⟩]))) := by
  have short := plain.shortKey
  have bytes : (filled p ks).buf = header.key.bytes := by simp [filled, buf, key]
  have keys := feeds_put requestPsets (s := asks c (r.headed l)) ks here.fine here.state
    (by simp [buf, key] at short ⊢; omega) fun q ch inside state room => by
      obtain ⟨noColon, noCr, noLf⟩ := plain.key ch (by simp [key, inside])
      simp only [turn, if_neg (show ¬q.buf.length ≥ PARSER_STACK_MAX by omega), state, hdrKeyTurn,
        if_neg noColon, if_neg noCr, if_neg noLf]
  have told : turn requestPsets true (filled p ks) colon [] (asks c (r.headed l)) =
      next (named p header .hdrlineHdrSpaceBeforeVal [])
        (asks c (r.headed (l ++ [⟨header.key, none⟩]))) := by
    have state : (filled p ks).state = .hdrlineHdrKey := here.state
    have notFull : ¬header.key.bytes.length ≥ PARSER_STACK_MAX := by omega
    simp only [turn, bytes, if_neg notFull, state, hdrKeyTurn, if_true]
    apply hooked_next
    simp [requestPsets, EvhtpConnection.parserHeaderKey, EvhtpConnection.onRequest, asks,
      ClientRequest.headed, Query.cStr_bytes]
  have blank (c : EvhtpConnection) :
      turn requestPsets true (named p header .hdrlineHdrSpaceBeforeVal []) space [] c =
        next (named p header .hdrlineHdrSpaceBeforeVal []) c := rfl
  rw [feeds_then keys, feeds_next (p := filled p ks) _ here.fine told,
    feeds_next _ (here.named header _ []).fine (blank _)]
  rfl

theorem val_run (formed : WellFormed r) (member : header ∈ r.headers)
    (here : At p .hdrlineHdrKey i len) :
    ∃ q, feeds requestPsets (named p header .hdrlineHdrSpaceBeforeVal [], c)
        (header.val.bytes ++ [cr, lf]) = some (q, c) ∧
      At q .hdrlineHdrDone i (r.lengthBehind header len) ∧ q.buf = header.val.bytes ∧
      SameVersion p q := by
  have plain := formed.headers header member
  have short := plain.shortVal
  obtain ⟨v, vs, val⟩ := List.exists_cons_of_ne_nil plain.someVal
  have noSpace : v ≠ space := fun same => plain.trimmed (by rw [val, same]; rfl)
  have noEnd := plain.val v (by simp [val])
  have first : turn requestPsets true (named p header .hdrlineHdrSpaceBeforeVal []) v [] c =
      next (named p header .hdrlineHdrVal [v]) c := by
    have notFull : ¬([] : Bytes).length ≥ PARSER_STACK_MAX := by simp [PARSER_STACK_MAX]
    simp only [turn, named, if_neg notFull, spaceBeforeValTurn, if_neg noSpace, if_neg noEnd.1,
      if_neg noEnd.2]
    rfl
  have vals := feeds_put requestPsets (p := named p header .hdrlineHdrVal [v]) (s := c) vs
    (here.named header .hdrlineHdrVal [v]).fine
    (here.named header .hdrlineHdrVal [v]).state (by simp [named, val] at short ⊢; omega)
    fun q ch inside state room => by
      obtain ⟨noCr, noLf⟩ := plain.val ch (by simp [val, inside])
      simp only [turn, if_neg (show ¬q.buf.length ≥ PARSER_STACK_MAX by omega), state, hdrValTurn,
        if_neg noCr, if_neg noLf]
  have whole : filled (named p header .hdrlineHdrVal [v]) vs =
      named p header .hdrlineHdrVal header.val.bytes := by simp [filled, named, val]
  rw [whole] at vals
  obtain ⟨q, ends, at', buf, version⟩ := value_end (c := c) formed member
    (here.named header .hdrlineHdrVal header.val.bytes) rfl rfl
  have last : turn requestPsets true q lf [] c = next (q.goto .hdrlineHdrDone) c := by
    have notFull : ¬q.buf.length ≥ PARSER_STACK_MAX := by rw [buf]; omega
    simp only [turn, if_neg notFull, at'.state, hdrAlmostDoneTurn, if_true, at'.untrailed,
      Bool.false_eq_true, if_false]
  refine ⟨q.goto .hdrlineHdrDone, ?_, at'.moved rfl rfl, buf, version⟩
  rw [val, List.cons_append, feeds_next _ (here.named header _ _).fine first, feeds_then vals,
    feeds_next _ (here.named header _ _).fine ends, feeds_next _ at'.fine last]
  rfl

theorem line_run (formed : WellFormed r) (member : header ∈ r.headers) {k : UInt8} {ks : Bytes}
    (key : header.key.bytes = k :: ks) (here : At p .hdrlineHdrKey i len) (buf : p.buf = [k]) :
    ∃ q, feeds requestPsets (p, asks c (r.headed l))
        (ks ++ colon :: space :: (header.val.bytes ++ [cr, lf])) =
          some (q, asks c (r.headed (l ++ [⟨header.key, none⟩]))) ∧
      At q .hdrlineHdrDone i (r.lengthBehind header len) ∧ q.buf = header.val.bytes ∧
      SameVersion p q := by
  have keys := key_run (c := c) (r := r) (l := l) (formed.headers header member) key here buf
  obtain ⟨q, vals, facts⟩ := val_run (c := asks c (r.headed (l ++ [⟨header.key, none⟩])))
    formed member here
  refine ⟨q, ?_, facts⟩
  have parts : ks ++ colon :: space :: (header.val.bytes ++ [cr, lf]) =
      (ks ++ [colon, space]) ++ (header.val.bytes ++ [cr, lf]) := by simp
  rw [parts, feeds_then keys, vals]

def keyed (p : Htparser) (k : UInt8) : Htparser := { p with buf := [k], state := .hdrlineHdrKey }

theorem At.keyed {state : ParserState} (here : At p state i len) (k : UInt8) :
    At (keyed p k) .hdrlineHdrKey i len :=
  here.moved rfl rfl

theorem first_key (here : At p .done i len) (buf : p.buf = []) {k : UInt8} (noCr : k ≠ cr)
    (noLf : k ≠ lf) : turn requestPsets true p k [] c = next (keyed p k) c := by
  have notFull : ¬([] : Bytes).length ≥ PARSER_STACK_MAX := by simp [PARSER_STACK_MAX]
  simp only [turn, buf, if_neg notFull, here.state, doneTurn, if_neg noCr, if_neg noLf,
    hdrlineStartTurn]
  rfl

theorem value_told {last : EvhtpKv} {q : Htparser} :
    requestPsets q (.hdrVal last.val.bytes) (asks c (r.headed (l ++ [⟨last.key, none⟩]))) =
      (false, asks c (r.headed (l ++ [complete last]))) := by
  simp [requestPsets, EvhtpConnection.parserHeaderVal, EvhtpConnection.onRequest, asks,
    ClientRequest.headed, Query.cStr_bytes, complete]

theorem next_key {last : EvhtpKv} (here : At p .hdrlineHdrDone i len) (buf : p.buf = last.val.bytes)
    (short : last.val.bytes.length < PARSER_STACK_MAX) {k : UInt8} (noCr : k ≠ cr) (noLf : k ≠ lf)
    (noTab : k ≠ 9) :
    turn requestPsets true p k [] (asks c (r.headed (l ++ [⟨last.key, none⟩]))) =
      next (keyed p k) (asks c (r.headed (l ++ [complete last]))) := by
  have notFull : ¬last.val.bytes.length ≥ PARSER_STACK_MAX := by omega
  simp only [turn, buf, if_neg notFull, here.state, hdrDoneTurn, if_neg noCr, if_neg noLf,
    if_neg noTab]
  exact hooked_next value_told

def ClientRequest.lengthsBehind (r : ClientRequest) (headers : List EvhtpKv) (len : UInt64) : UInt64 :=
  headers.foldl (fun len header => r.lengthBehind header len) len

/-- Behind some headers, the last of which was not told of. -/
structure BehindHeaders (i : Nat) (len : UInt64) (last : EvhtpKv) (p q : Htparser) : Prop where
  at' : At q .hdrlineHdrDone i len
  buf : q.buf = last.val.bytes
  version : SameVersion p q

theorem headers_run (formed : WellFormed r) (headers told : List EvhtpKv) (last : EvhtpKv)
    (members : ∀ header ∈ last :: headers, header ∈ r.headers)
    (here : At p .hdrlineHdrDone i len) (buf : p.buf = last.val.bytes) :
    ∃ q told' last', last :: headers = told' ++ [last'] ∧
      feeds requestPsets (p, asks c (r.headed (told.map complete ++ [⟨last.key, none⟩])))
        (headers.flatMap headerLine) =
          some (q, asks c (r.headed ((told ++ told').map complete ++ [⟨last'.key, none⟩]))) ∧
      BehindHeaders i (r.lengthsBehind headers len) last' p q := by
  induction headers generalizing p len last told with
  | nil => exact ⟨p, [], last, rfl, by simp [feeds], ⟨here, buf, rfl, rfl⟩⟩
  | cons header headers ih =>
      have member := members header (.tail _ List.mem_cons_self)
      have plain := formed.headers header member
      obtain ⟨k, ks, key⟩ := List.exists_cons_of_ne_nil plain.someKey
      have noTab : k ≠ 9 := fun same => plain.unfolded (by rw [key, same]; rfl)
      obtain ⟨-, noCr, noLf⟩ := plain.key k (by simp [key])
      have first := next_key (c := c) (r := r) (l := told.map complete) here buf
        (formed.headers last (members last List.mem_cons_self)).shortVal noCr noLf noTab
      obtain ⟨q₁, line, at₁, buf₁, version₁⟩ := line_run (c := c)
        (l := told.map complete ++ [complete last]) formed member key (here.keyed k) rfl
      obtain ⟨q, told', last', split, run, behind⟩ := ih (p := q₁) (told ++ [last]) header
        (fun header' inside => members header' (.tail _ inside)) at₁ buf₁
      refine ⟨q, last :: told', last', by rw [split]; rfl, ?_,
        ⟨behind.at', behind.buf, behind.version.1.trans version₁.1,
          behind.version.2.trans version₁.2⟩⟩
      rw [List.flatMap_cons, headerLine, key, List.cons_append, List.cons_append,
        feeds_next _ here.fine first, feeds_then line]
      simpa using run

theorem lengthsBehind_eq (headers : List EvhtpKv) (len : UInt64) :
    r.lengthsBehind headers len =
      if ∃ header ∈ headers, evalHdr header.key.bytes = .contentLength then
        UInt64.ofNat r.body.length
      else len := by
  induction headers generalizing len with
  | nil => simp [ClientRequest.lengthsBehind]
  | cons header headers ih =>
      show r.lengthsBehind headers (r.lengthBehind header len) = _
      rw [ih, ClientRequest.lengthBehind]
      by_cases here : evalHdr header.key.bytes = .contentLength <;> simp [here]

theorem lengths_all (formed : WellFormed r) :
    r.lengthsBehind r.headers 0 = UInt64.ofNat r.body.length := by
  rw [lengthsBehind_eq]
  split
  · rfl
  · rename_i none
    by_cases empty : r.body = []
    · rw [empty]
      rfl
    · obtain ⟨header, member, length⟩ := formed.length empty
      exact absurd ⟨header, member, (evalHdr_length _).mpr length⟩ none

theorem lines_run (formed : WellFormed r) (here : At p .done i 0) (buf : p.buf = []) :
    ∃ q told last, r.headers = told ++ [last] ∧
      feeds requestPsets (p, asks c (r.asked r.uri)) (r.headers.flatMap headerLine) =
        some (q, asks c (r.headed (told.map complete ++ [⟨last.key, none⟩]))) ∧
      BehindHeaders i (UInt64.ofNat r.body.length) last p q := by
  obtain ⟨header, headers, all⟩ := List.exists_cons_of_ne_nil formed.headed
  have member : header ∈ r.headers := by simp [all]
  obtain ⟨k, ks, key⟩ := List.exists_cons_of_ne_nil (formed.headers header member).someKey
  obtain ⟨-, noCr, noLf⟩ := (formed.headers header member).key k (by simp [key])
  have first := first_key (c := asks c (r.asked r.uri)) here buf noCr noLf
  obtain ⟨q₁, line, at₁, buf₁, version₁⟩ := line_run (c := c) (l := []) formed member key
    (here.keyed k) rfl
  obtain ⟨q, told, last, split, run, behind⟩ := headers_run (c := c) formed headers [] header
    (fun header' inside => by rw [all]; exact inside) at₁ buf₁
  have whole : r.lengthsBehind headers (r.lengthBehind header 0) = UInt64.ofNat r.body.length := by
    rw [← lengths_all formed, all]
    rfl
  rw [whole] at behind
  refine ⟨q, told, last, all.trans split, ?_, ⟨behind.at', behind.buf,
    behind.version.1.trans version₁.1, behind.version.2.trans version₁.2⟩⟩
  rw [all, List.flatMap_cons, headerLine, key, List.cons_append, List.cons_append,
    feeds_next _ here.fine first]
  show feeds requestPsets (_, asks c (r.headed [])) _ = _
  rw [feeds_then line]
  simpa using run

/-! ## The end of the headers -/

structure Ready (r : ClientRequest) (body : Bytes) (c c' : EvhtpConnection) : Prop where
  request : c'.request = some
    { r.headed (r.headers.map complete) with keepalive := true, bufferIn := body }
  received : c'.received = c.received

theorem ends_run (formed : WellFormed r) {told : List EvhtpKv} {last : EvhtpKv}
    (all : r.headers = told ++ [last]) (here : At p .hdrlineHdrDone i len)
    (buf : p.buf = last.val.bytes) (major : p.major = 1) (minor : p.minor = 1) :
    ∃ c', turn requestPsets true p cr []
        (asks c (r.headed (told.map complete ++ [⟨last.key, none⟩]))) =
          next (p.goto .hdrlineAlmostDone) c' ∧ Ready r [] c c' := by
  have short := (formed.headers last (by simp [all])).shortVal
  have notFull : ¬last.val.bytes.length ≥ PARSER_STACK_MAX := by omega
  have keeps : (p.goto .hdrlineAlmostDone).shouldKeepAlive = true := by
    simp [Htparser.shouldKeepAlive, Htparser.goto, major, minor, here.unclosed]
  have headers : told.map complete ++ [complete last] = r.headers.map complete := by simp [all]
  obtain ⟨c', told', ready⟩ : ∃ c', requestPsets (p.goto .hdrlineAlmostDone) .onHdrsComplete
      (asks c (r.headed (r.headers.map complete))) = (false, c') ∧ Ready r [] c c' := by
    simp only [requestPsets, EvhtpConnection.parserHeaders, asks, keeps]
    split
    · exact ⟨_, rfl, rfl, rfl⟩
    · exact ⟨_, rfl, rfl, rfl⟩
  refine ⟨c', ?_, ready⟩
  simp only [turn, buf, if_neg notFull, here.state, hdrDoneTurn, if_true, value_told, headers,
    Bool.false_eq_true, if_false]
  exact hooked_next told'

/-! ## The end of a request -/

theorem find_complete (headers : List EvhtpKv) (name : String) :
    (headerInFind (headers.map complete) name).bind HeaderIn.val =
      (headers.find? fun header => strcasecmp header.key.bytes (ascii name)).map EvhtpKv.val := by
  induction headers with
  | nil => rfl
  | cons header headers ih =>
      unfold headerInFind at ih ⊢
      rw [List.map_cons, List.find?_cons, List.find?_cons]
      by_cases same : strcasecmp header.key.bytes (ascii name) = true <;> simp_all [complete]

theorem withValues_complete (headers : List EvhtpKv) :
    EvhtpConnection.withValues (headers.map complete) = headers := by
  simp [EvhtpConnection.withValues, complete, List.filterMap_map, Function.comp_def]

theorem form_parsed (formed : WellFormed r) (whole : p.origContentLen = UInt64.ofNat r.body.length)
    (req : Incoming) (headers : req.headersIn = r.headers.map complete) (body : req.bufferIn = r.body) :
    EvhtpConnection.shouldParseQueryBody p req r.uri = (r.args.isNone && r.isForm) := by
  have toNat : (UInt64.ofNat r.body.length).toNat = r.body.length :=
    UInt64.toNat_ofNat_of_lt' formed.small
  have empty : UInt64.ofNat r.body.length ≠ 0 ↔ r.body ≠ [] := by
    rw [Ne, ← UInt64.toNat_inj, toNat]
    simp
  have query : r.uri.query.isNone = r.args.isNone := by
    cases args : r.args with
    | none => simp [ClientRequest.uri, args]
    | some a =>
        obtain ⟨kvs, parsed⟩ := formed.query a args
        simp [ClientRequest.uri, args, parsed, Except.toOption]
  unfold EvhtpConnection.shouldParseQueryBody ClientRequest.isForm evhtpKvFind
  rw [query, whole, headers, body, find_complete, toNat]
  simp only [empty, decide_true, Bool.and_true, Bool.and_assoc]
  congr 2
  cases r.headers.find? fun header => strcasecmp header.key.bytes (ascii "content-type") <;> rfl

structure HandedOver (r : ClientRequest) (c c' : EvhtpConnection) : Prop where
  kept : ∃ req, c'.request = some req ∧ req.finished = true ∧ req.keepalive = true
  received : c'.received = c.received ++ [r.received]

theorem fini_told (formed : WellFormed r) {c' : EvhtpConnection} (ready : Ready r r.body c c')
    (whole : p.origContentLen = UInt64.ofNat r.body.length) :
    ∃ c'', requestPsets p .onMsgComplete c' = (false, c'') ∧ HandedOver r c c'' := by
  have form := form_parsed formed whole
    { r.headed (r.headers.map complete) with keepalive := true, bufferIn := r.body } rfl rfl
  have told : ∃ c'', requestPsets p .onMsgComplete c' = (false, c'') ∧
      (∃ req, c''.request = some req ∧ req.finished = true ∧ req.keepalive = true) ∧
      c''.received = c'.received ++ [r.received] := by
    simp only [requestPsets, EvhtpConnection.parserFini, ready.request]
    refine ⟨_, rfl, ⟨_, rfl, rfl, rfl⟩, ?_⟩
    dsimp only [ClientRequest.headed, ClientRequest.asked] at form ⊢
    simp only [form, withValues_complete]
    congr 2
    unfold ClientRequest.received ClientRequest.rawQuery
    cases args : r.args with
    | some a => simp [ClientRequest.uri, args, Query.cStr_bytes]
    | none => cases r.isForm <;> simp [ClientRequest.uri, args]
  obtain ⟨c'', told, kept, received⟩ := told
  exact ⟨c'', told, kept, by rw [received, ready.received]⟩

/-! ## Bodies -/

def taken (b : Bytes) (c : EvhtpConnection) : EvhtpConnection := (c.parserBody b).2

theorem requestPsets_takes : Takes requestPsets taken where
  body _ _ _ := rfl
  append b b' c := by
    simp [taken, EvhtpConnection.parserBody, Option.map_map, Function.comp_def]

theorem Ready.taken {body : Bytes} {c' : EvhtpConnection} (ready : Ready r body c c') (b : Bytes) :
    Ready r (body ++ b) c (taken b c') :=
  ⟨by simp [Wire.taken, EvhtpConnection.parserBody, ready.request], ready.received⟩

structure InBody (p : Htparser) (left : Nat) : Prop where
  fine : p.error = .none
  state : p.state = .bodyRead
  buf : p.buf = []
  left : p.contentLen.toNat = left

theorem InBody.turned {left : Nat} (inside : InBody p left) (some' : 0 < left) (ch : UInt8) :
    turn requestPsets true p ch [] c = checked 1 (bodyEnd requestPsets p 1 (taken [ch] c)).2
      (bodyEnd requestPsets p 1 (taken [ch] c)).1 := by
  have toRead : p.toRead [ch] = 1 := by
    simp only [Htparser.toRead, inside.left, List.length_singleton]
    omega
  exact turn_body requestPsets_takes (.inl inside.state) (by simp [inside.buf, PARSER_STACK_MAX])
    (by omega) toRead

theorem body_byte (ch : UInt8) {left : Nat} (inside : InBody p left) (more : 1 < left) :
    feed requestPsets (p, c) ch = some (p.minus 1, taken [ch] c) ∧
      InBody (p.minus 1) (left - 1) := by
  have part : 1 ≠ p.contentLen.toNat := by rw [inside.left]; omega
  have turned := inside.turned (c := c) (by omega) ch
  rw [bodyEnd, if_neg part] at turned
  refine ⟨feed_next inside.fine turned, inside.fine, inside.state, inside.buf, ?_⟩
  rw [minus_left (by rw [inside.left]; omega), inside.left]

theorem body_run (data : Bytes) {left : Nat} (inside : InBody p left) (more : data.length < left) :
    feeds requestPsets (p, c) data = some (p.minus data.length, taken data c) ∧
      InBody (p.minus data.length) (left - data.length) := by
  induction data generalizing p c left with
  | nil =>
      have none : p.minus 0 = p := by simp [Htparser.minus]
      have same : taken [] c = c := by
        cases request : c.request <;> simp [taken, EvhtpConnection.parserBody, request]
        all_goals rw [← request]
      simp [feeds, none, same, inside]
  | cons ch data ih =>
      rw [List.length_cons] at more
      obtain ⟨first, inside₁⟩ := body_byte (c := c) ch inside (by omega)
      obtain ⟨rest, inside₂⟩ := ih (c := taken [ch] c) inside₁ (by omega)
      have both : (p.minus 1).minus data.length = p.minus (ch :: data).length := by
        rw [minus_minus, List.length_cons, Nat.add_comm]
      have whole : taken data (taken [ch] c) = taken (ch :: data) c := by
        rw [← requestPsets_takes.append, List.singleton_append]
      rw [both] at rest inside₂
      rw [whole] at rest
      have less : left - (ch :: data).length = left - 1 - data.length := by
        rw [List.length_cons]
        omega
      rw [less]
      exact ⟨by rw [feeds_cons, first, Option.bind_some, rest], inside₂⟩

structure Last (r : ClientRequest) (c : EvhtpConnection) (last : UInt8)
    (x : Htparser × EvhtpConnection) : Prop where
  before : x.2.received = c.received
  hands : ∃ y, feed requestPsets x last = some y ∧ Idle y.1 ∧ HandedOver r c y.2

theorem body_last (formed : WellFormed r) {init : Bytes} {b : UInt8} (body : r.body = init ++ [b])
    (inside : InBody p 1) (whole : p.origContentLen = UInt64.ofNat r.body.length)
    {c' : EvhtpConnection} (ready : Ready r init c c') : Last r c b (p, c') := by
  have ready' : Ready r r.body c (taken [b] c') := body ▸ ready.taken [b]
  obtain ⟨c'', told, handed⟩ := fini_told (p := p.minus 1) formed ready' whole
  have turned := inside.turned (c := c') (by omega) b
  rw [bodyEnd, if_pos inside.left.symm, if_pos inside.state, told] at turned
  exact ⟨ready.received, _, feed_next inside.fine turned, ⟨inside.fine, rfl, inside.buf⟩, handed⟩

theorem message_run (formed : WellFormed r) {c' : EvhtpConnection}
    (here : At p .hdrlineAlmostDone i (UInt64.ofNat r.body.length))
    (room : p.buf.length < PARSER_STACK_MAX) (ready : Ready r [] c c') :
    ∃ w last x, lf :: r.body = w ++ [last] ∧ feeds requestPsets (p, c') w = some x ∧
      Last r c last x := by
  have notFull : ¬p.buf.length ≥ PARSER_STACK_MAX := by omega
  have toNat : (UInt64.ofNat r.body.length).toNat = r.body.length :=
    UInt64.toNat_ofNat_of_lt' formed.small
  obtain empty | ⟨init, b, body⟩ := r.body.eq_nil_or_concat'
  · rw [empty] at here
    obtain ⟨c'', told, handed⟩ := fini_told (p := { p with buf := [] }) formed (empty ▸ ready)
      (by rw [empty]; exact here.whole)
    have turned : turn requestPsets true p lf [] c' =
        next (Htparser.goto { p with buf := [] } .start) c'' := by
      simp only [turn, if_neg notFull, here.state, hdrlineAlmostDoneTurn, if_true, here.untrailed,
        here.unchunked, here.left, Bool.false_eq_true, if_false]
      exact hooked_next told
    exact ⟨[], lf, (p, c'), by rw [empty]; rfl, rfl, ready.received, _,
      feed_next here.fine turned, ⟨here.fine, rfl, rfl⟩, handed⟩
  · have length : r.body.length = init.length + 1 := by simp [body]
    have some' : UInt64.ofNat r.body.length > 0 := by
      rw [gt_iff_lt, UInt64.lt_iff_toNat_lt, toNat]
      simp [length]
    have turned : turn requestPsets true p lf [] c' =
        next (Htparser.goto { p with buf := [] } .bodyRead) c' := by
      simp only [turn, if_neg notFull, here.state, hdrlineAlmostDoneTurn, if_true, here.untrailed,
        here.unchunked, here.left, some', Bool.false_eq_true, if_false]
    have start : InBody (Htparser.goto { p with buf := [] } .bodyRead) r.body.length :=
      ⟨here.fine, rfl, rfl, by rw [← toNat, ← here.left]; rfl⟩
    obtain ⟨run, inside⟩ := body_run (c := c') init start (by omega)
    have one : r.body.length - init.length = 1 := by omega
    rw [one] at inside
    have ready' : Ready r init c (taken init c') := by simpa using ready.taken init
    exact ⟨lf :: init, b, _, by rw [body]; rfl, (feeds_next init here.fine turned).trans run,
      body_last formed body inside here.whole ready'⟩

/-! ## A request -/

/-- All but the last byte of a request hand nothing over, and the last one hands the request over. -/
theorem wire_run (formed : WellFormed r) (idle : Idle p)
    (answered : ∀ req ∈ c.request, req.finished = true) :
    ∃ w last x, r.wire = w ++ [last] ∧ feeds requestPsets (p, c) w = some x ∧
      Last r c last x := by
  obtain ⟨p₁, method, at₁, buf₁, args₁⟩ := method_run idle answered formed.method
  obtain ⟨p₂, target, at₂, buf₂⟩ := target_run (c := c) formed at₁ buf₁ args₁
  obtain ⟨p₃, version, at₃, buf₃, major, minor⟩ :=
    version_run (c := asks c (r.asked r.uri)) at₂ buf₂
  obtain ⟨p₄, told, last, all, lines, behind⟩ := lines_run (c := c) formed at₃ buf₃
  obtain ⟨c', ends, ready⟩ := ends_run (c := c) formed all behind.at' behind.buf
    (behind.version.1.trans major) (behind.version.2.trans minor)
  have short := (formed.headers last (by simp [all])).shortVal
  obtain ⟨w, b, x, split, run, hands⟩ := message_run (p := p₄.goto .hdrlineAlmostDone) formed
    (behind.at'.moved rfl rfl)
    (show p₄.buf.length < PARSER_STACK_MAX by rw [behind.buf]; exact short) ready
  refine ⟨(r.methodName ++ [space]) ++ ((r.target ++ [space]) ++ (ClientRequest.version ++
    (r.headers.flatMap headerLine ++ cr :: w))), b, x, ?_, ?_, hands⟩
  · simp [ClientRequest.wire, split]
  · rw [ClientRequest.methodName, feeds_then method, feeds_then target, feeds_then version,
      feeds_then lines, feeds_next w behind.at'.fine ends, run]

end Stages
end Ximg.Wire
