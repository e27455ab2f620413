import Ximg.Evhtp

/-!
# Queries

The parser of queries cuts a query into its pairs, whose escapes it leaves as they are, and a query
that was printed from pairs gives these pairs.
-/

namespace Ximg.Query
open Text

def percent : UInt8 := 37
def questionMark : UInt8 := 63
def ampersand : UInt8 := 38

inductive Escaped : Bytes → Prop where
  | nil : Escaped []
  | byte {c : UInt8} {s : Bytes} (plain : c ≠ percent) (rest : Escaped s) : Escaped (c :: s)
  | escape {a b : UInt8} {s : Bytes} (first : evhtpIsHexQueryChar a) (second : evhtpIsHexQueryChar b)
      (rest : Escaped s) : Escaped (percent :: a :: b :: s)

def EndsVal (c : UInt8) : Prop := c = semicolon ∨ c = ampersand

instance (c : UInt8) : Decidable (EndsVal c) := inferInstanceAs (Decidable (_ ∨ _))

def IsVal (v : Bytes) : Prop := ∀ c ∈ v, ¬EndsVal c

/-- The pairs that a query lists. Its last value needs no end, but then both halves must be there. -/
inductive Lists : Bytes → List (Bytes × Bytes) → Prop where
  | key {k : Bytes} (isKey : equals ∉ k) : Lists k []
  | last {k v : Bytes} (isKey : equals ∉ k) (isVal : IsVal v) :
      Lists (k ++ equals :: v) (if k ≠ [] ∧ v ≠ [] then [(k, v)] else [])
  | pair {k v s : Bytes} {c : UInt8} {kvs : List (Bytes × Bytes)} (isKey : equals ∉ k) (isVal : IsVal v)
      (ends : EndsVal c) (rest : Lists s kvs) : Lists (k ++ equals :: (v ++ c :: s)) ((k, v) :: kvs)

inductive Leads : Bytes → Prop where
  | none : Leads []
  | questionMark : Leads [questionMark]
  | path (n : Nat) : Leads (List.replicate (n + 1) slash ++ [questionMark])

def kvOf (kv : Bytes × Bytes) : EvhtpKv := ⟨cStr kv.1, cStr kv.2⟩

/-! ## Escapes -/

theorem Escaped.split {c : UInt8} (other : c ≠ percent) (ends : evhtpIsHexQueryChar c = false)
    {t : Bytes} (escaped : Escaped t) {k s : Bytes} (parts : t = k ++ c :: s) :
    Escaped k ∧ Escaped s := by
  induction escaped generalizing k with
  | nil => simp at parts
  | byte plain rest ih =>
      cases k with
      | nil =>
          obtain ⟨rfl, rfl⟩ := List.cons.inj parts
          exact ⟨.nil, rest⟩
      | cons c' k =>
          obtain ⟨rfl, tail⟩ := List.cons.inj parts
          exact ⟨.byte plain (ih tail).1, (ih tail).2⟩
  | escape first second rest ih =>
      -- `c` is neither the percent sign nor one of the digits behind it
      cases k with
      | nil => exact absurd (List.cons.inj parts).1.symm other
      | cons c₁ k =>
        obtain ⟨begins, digits⟩ := List.cons.inj parts
        subst begins
        cases k with
        | nil =>
            obtain ⟨rfl, -⟩ := List.cons.inj digits
            simp [ends] at first
        | cons c₂ k =>
          obtain ⟨rfl, digit⟩ := List.cons.inj digits
          cases k with
          | nil =>
              obtain ⟨rfl, -⟩ := List.cons.inj digit
              simp [ends] at second
          | cons c₃ k =>
              obtain ⟨rfl, tail⟩ := List.cons.inj digit
              exact ⟨.escape first second (ih tail).1, (ih tail).2⟩

theorem escaped_equals {k s : Bytes} (escaped : Escaped (k ++ equals :: s)) :
    Escaped k ∧ Escaped s :=
  escaped.split (by decide) (by decide) rfl

theorem escaped_ends {c : UInt8} (ends : EndsVal c) {v s : Bytes} (escaped : Escaped (v ++ c :: s)) :
    Escaped v ∧ Escaped s := by
  obtain rfl | rfl := ends
  · exact escaped.split (by decide) (by decide) rfl
  · exact escaped.split (by decide) (by decide) rfl

/-! ## Keys and values -/

section Runs
variable {len : Nat} {p : QueryParser} {c : UInt8}

theorem putByte_room {buf : Bytes} (room : buf.length < len) :
    putByte len buf c = .ok (buf ++ [c]) := if_pos room

def Room (len : Nat) (p : QueryParser) : Prop := p.keyBuf.length < len ∧ p.valBuf.length < len

theorem Room.passes (room : Room len p) : ¬(p.keyBuf.length ≥ len ∨ p.valBuf.length ≥ len) := by
  obtain ⟨key, val⟩ := room
  omega

theorem turn_key (state : p.state = .key) (room : Room len p) (other : c ≠ equals) :
    p.turn len c = .ok { p with
      keyBuf := p.keyBuf ++ [c], state := if c = percent then .keyHex1 else .key } := by
  simp only [QueryParser.turn, if_neg room.passes, state, QueryParser.keyTurn, if_neg other,
    QueryParser.putKey, putByte_room room.1]
  rfl

theorem turn_keyHex1 (state : p.state = .keyHex1) (room : Room len p)
    (hex : evhtpIsHexQueryChar c = true) :
    p.turn len c = .ok { p with keyBuf := p.keyBuf ++ [c], state := .keyHex2 } := by
  simp only [QueryParser.turn, if_neg room.passes, state, hex, if_true, QueryParser.putKey,
    putByte_room room.1]
  rfl

theorem turn_keyHex2 (state : p.state = .keyHex2) (room : Room len p)
    (hex : evhtpIsHexQueryChar c = true) :
    p.turn len c = .ok { p with keyBuf := p.keyBuf ++ [c], state := .key } := by
  simp only [QueryParser.turn, if_neg room.passes, state, hex, if_true, QueryParser.putKey,
    putByte_room room.1]
  rfl

theorem turn_val (state : p.state = .val) (room : Room len p) (inside : ¬EndsVal c) :
    p.turn len c = .ok { p with
      valBuf := p.valBuf ++ [c], state := if c = percent then .valHex1 else .val } := by
  have inside : ¬(c = semicolon ∨ c = 38) := inside
  simp only [QueryParser.turn, if_neg room.passes, state, if_neg inside, QueryParser.putVal,
    putByte_room room.2]
  rfl

theorem turn_valHex1 (state : p.state = .valHex1) (room : Room len p)
    (hex : evhtpIsHexQueryChar c = true) :
    p.turn len c = .ok { p with valBuf := p.valBuf ++ [c], state := .valHex2 } := by
  simp only [QueryParser.turn, if_neg room.passes, state, hex, if_true, QueryParser.putVal,
    putByte_room room.2]
  rfl

theorem turn_valHex2 (state : p.state = .valHex2) (room : Room len p)
    (hex : evhtpIsHexQueryChar c = true) :
    p.turn len c = .ok { p with valBuf := p.valBuf ++ [c], state := .val } := by
  simp only [QueryParser.turn, if_neg room.passes, state, hex, if_true, QueryParser.putVal,
    putByte_room room.2]
  rfl

theorem turn_equals (state : p.state = .key) (room : Room len p) :
    p.turn len equals = .ok { p with state := .val } := by
  simp only [QueryParser.turn, if_neg room.passes, state, QueryParser.keyTurn, if_true]

theorem turn_ends (state : p.state = .val) (room : Room len p) (ends : EndsVal c) :
    p.turn len c = .ok ⟨.key, [], [], p.args ++ [p.kv]⟩ := by
  have ends : c = semicolon ∨ c = 38 := ends
  simp only [QueryParser.turn, if_neg room.passes, state, if_pos ends]

theorem foldlM_turn {p' : QueryParser} (s : Bytes) (turned : p.turn len c = .ok p') :
    (c :: s).foldlM (QueryParser.turn len) p = s.foldlM (QueryParser.turn len) p' := by
  rw [List.foldlM_cons, turned]
  rfl

theorem keys_run {key k val : Bytes} {args : List EvhtpKv} (escaped : Escaped k) (isKey : equals ∉ k)
    (fits : key.length + k.length ≤ len) (room : val.length < len) :
    k.foldlM (QueryParser.turn len) ⟨.key, key, val, args⟩ = .ok ⟨.key, key ++ k, val, args⟩ := by
  induction escaped generalizing key with
  | nil => simp [pure, Except.pure]
  | @byte c s plain rest ih =>
      rw [List.length_cons] at fits
      have first := turn_key (p := ⟨.key, key, val, args⟩) rfl ⟨by dsimp only; omega, room⟩
        (List.ne_of_not_mem_cons isKey).symm
      rw [if_neg plain] at first
      rw [foldlM_turn s first, ih (List.not_mem_of_not_mem_cons isKey) (by simp; omega)]
      simp
  | @escape a b s first second rest ih =>
      simp only [List.length_cons] at fits
      have sign := turn_key (p := ⟨.key, key, val, args⟩) (c := percent) rfl
        ⟨by dsimp only; omega, room⟩ (by decide)
      rw [if_pos rfl] at sign
      rw [foldlM_turn _ sign, foldlM_turn _ (turn_keyHex1 rfl ⟨by simp; omega, room⟩ first),
        foldlM_turn _ (turn_keyHex2 rfl ⟨by simp; omega, room⟩ second),
        ih (by simp_all) (by simp; omega)]
      simp

theorem vals_run {key val v : Bytes} {args : List EvhtpKv} (escaped : Escaped v) (isVal : IsVal v)
    (fits : val.length + v.length ≤ len) (room : key.length < len) :
    v.foldlM (QueryParser.turn len) ⟨.val, key, val, args⟩ = .ok ⟨.val, key, val ++ v, args⟩ := by
  induction escaped generalizing val with
  | nil => simp [pure, Except.pure]
  | @byte c s plain rest ih =>
      rw [List.length_cons] at fits
      have first := turn_val (p := ⟨.val, key, val, args⟩) rfl ⟨room, by dsimp only; omega⟩
        (isVal c List.mem_cons_self)
      rw [if_neg plain] at first
      rw [foldlM_turn s first, ih (fun c inside => isVal c (.tail _ inside)) (by simp; omega)]
      simp
  | @escape a b s first second rest ih =>
      simp only [List.length_cons] at fits
      have sign := turn_val (p := ⟨.val, key, val, args⟩) (c := percent) rfl
        ⟨room, by dsimp only; omega⟩ (by decide)
      rw [if_pos rfl] at sign
      rw [foldlM_turn _ sign, foldlM_turn _ (turn_valHex1 rfl ⟨room, by simp; omega⟩ first),
        foldlM_turn _ (turn_valHex2 rfl ⟨room, by simp; omega⟩ second),
        ih (fun c inside => isVal c (.tail _ (.tail _ (.tail _ inside)))) (by simp; omega)]
      simp

/-! ## Pairs -/

variable (len) in
theorem lists_run {s : Bytes} {kvs : List (Bytes × Bytes)} (lists : Lists s kvs) (escaped : Escaped s)
    (args : List EvhtpKv) (fits : s.length ≤ len) :
    ∃ p, s.foldlM (QueryParser.turn len) ⟨.key, [], [], args⟩ = .ok p ∧
      p.finish = args ++ kvs.map kvOf := by
  induction lists generalizing args with
  | @key k isKey =>
      cases k with
      | nil => exact ⟨_, rfl, by simp [QueryParser.finish]⟩
      | cons c k =>
          have room : ([] : Bytes).length < len := by simp at fits ⊢; omega
          exact ⟨_, keys_run escaped isKey (by simpa using fits) room, by simp [QueryParser.finish]⟩
  | @last k v isKey isVal =>
      obtain ⟨escapedKey, escapedVal⟩ := escaped_equals escaped
      simp only [List.length_append, List.length_cons] at fits
      refine ⟨⟨.val, k, v, args⟩, ?_, ?_⟩
      · rw [List.foldlM_append, keys_run escapedKey isKey (by simp; omega) (by simp; omega)]
        show List.foldlM _ _ _ = _
        rw [foldlM_turn v (turn_equals rfl ⟨by simp; omega, by simp; omega⟩),
          vals_run escapedVal isVal (by simp; omega) (by simp; omega)]
        simp
      · unfold QueryParser.finish
        split <;> simp [QueryParser.kv, kvOf]
  | @pair k v s c kvs isKey isVal ends rest ih =>
      obtain ⟨escapedKey, escapedTail⟩ := escaped_equals escaped
      obtain ⟨escapedVal, escapedRest⟩ := escaped_ends ends escapedTail
      simp only [List.length_append, List.length_cons] at fits
      obtain ⟨p, run, finish⟩ := ih escapedRest (args ++ [kvOf (k, v)]) (by omega)
      refine ⟨p, ?_, by simp [finish]⟩
      rw [List.foldlM_append, keys_run escapedKey isKey (by simp; omega) (by simp; omega)]
      show List.foldlM _ _ _ = _
      rw [foldlM_turn _ (turn_equals rfl ⟨by simp; omega, by simp; omega⟩), List.foldlM_append,
        vals_run escapedVal isVal (by simp; omega) (by simp; omega)]
      show List.foldlM _ _ _ = _
      rw [foldlM_turn s (turn_ends rfl ⟨by simp; omega, by simp; omega⟩ ends)]
      exact run

/-! ## Leads -/

theorem turn_slash {state : QueryState} (lead : state = .start ∨ state = .questionMark)
    (some : 0 < len) :
    (QueryParser.mk state [] [] []).turn len slash = .ok ⟨.questionMark, [], [], []⟩ := by
  have room : Room len ⟨state, [], [], []⟩ := ⟨some, some⟩
  obtain rfl | rfl := lead <;> simp only [QueryParser.turn, if_neg room.passes] <;> rfl

theorem turn_questionMark {state : QueryState} (lead : state = .start ∨ state = .questionMark)
    (some : 0 < len) :
    (QueryParser.mk state [] [] []).turn len questionMark = .ok ⟨.key, [], [], []⟩ := by
  have room : Room len ⟨state, [], [], []⟩ := ⟨some, some⟩
  obtain rfl | rfl := lead <;> simp only [QueryParser.turn, if_neg room.passes] <;> rfl

theorem slashes_run (n : Nat) (s : Bytes) {state : QueryState}
    (lead : state = .start ∨ state = .questionMark) (some : 0 < len) :
    (List.replicate (n + 1) slash ++ s).foldlM (QueryParser.turn len) ⟨state, [], [], []⟩ =
      s.foldlM (QueryParser.turn len) ⟨.questionMark, [], [], []⟩ := by
  induction n generalizing state with
  | zero => exact foldlM_turn s (turn_slash lead some)
  | succ n ih =>
      rw [List.replicate_succ, List.cons_append, foldlM_turn _ (turn_slash lead some)]
      exact ih (.inr rfl)

theorem turn_start (other : c ≠ questionMark) (other' : c ≠ slash) :
    (QueryParser.mk .start [] [] []).turn len c = (QueryParser.mk .key [] [] []).turn len c := by
  have other : c ≠ 63 := other
  simp only [QueryParser.turn, if_neg other, if_neg other']

end Runs

/-- A query without a lead does not begin like one. -/
def Begins (lead s : Bytes) : Prop :=
  lead = [] → ∀ c ∈ s.head?, c ≠ questionMark ∧ c ≠ slash

theorem parse_lists {lead s : Bytes} {kvs : List (Bytes × Bytes)} (lists : Lists s kvs)
    (escaped : Escaped s) (leads : Leads lead) (begins : Begins lead s) :
    evhtpParseQuery (lead ++ s) = .ok (kvs.map kvOf) := by
  obtain ⟨p, run, finish⟩ := lists_run (lead ++ s).length lists escaped [] (by simp)
  rw [List.nil_append] at finish
  suffices parsed : (lead ++ s).foldlM (QueryParser.turn (lead ++ s).length) ⟨.start, [], [], []⟩ =
      .ok p ∨ lead ++ s = [] by
    obtain parsed | empty := parsed
    · rw [evhtpParseQuery, parsed, ← finish]
      rfl
    · obtain ⟨rfl, rfl⟩ := List.append_eq_nil_iff.mp empty
      cases run
      rw [← finish]
      rfl
  cases leads with
  | none =>
      cases s with
      | nil => exact .inr rfl
      | cons c s =>
          obtain ⟨other, other'⟩ := begins rfl c rfl
          rw [List.nil_append, List.foldlM_cons, turn_start other other']
          exact .inl run
  | questionMark =>
      rw [List.singleton_append, foldlM_turn _ (turn_questionMark (.inl rfl) (by simp))]
      exact .inl run
  | path n =>
      refine .inl ?_
      rw [← run, List.append_assoc, slashes_run n _ (.inl rfl) (by simp), List.singleton_append,
        foldlM_turn _ (turn_questionMark (.inr rfl) (by simp))]

theorem lists_exists (s : Bytes) : ∃ kvs, Lists s kvs := by
  induction size : s.length using Nat.strong_induction_on generalizing s with
  | _ n ih =>
    by_cases inside : equals ∈ s
    · obtain ⟨k, t, rfl, isKey⟩ := List.eq_append_cons_of_mem inside
      cases found : t.find? fun c => EndsVal c with
      | none => exact ⟨_, .last isKey (by simpa [IsVal] using found)⟩
      | some c =>
          obtain ⟨ends, v, rest, rfl, isVal⟩ := List.find?_eq_some_iff_append.mp found
          obtain ⟨kvs, lists⟩ := ih rest.length (by simp at size; omega) rest rfl
          exact ⟨_, .pair isKey (by simpa [IsVal] using isVal) (by simpa using ends) lists⟩
    · exact ⟨_, .key inside⟩

/-- Every query with whole escapes is taken, and for the pairs that it lists. -/
theorem escaped_query_parsed (lead s : Bytes) (leads : Leads lead) (escaped : Escaped s)
    (begins : Begins lead s) :
    ∃ kvs, Lists s kvs ∧ evhtpParseQuery (lead ++ s) = .ok (kvs.map kvOf) := by
  obtain ⟨kvs, lists⟩ := lists_exists s
  exact ⟨kvs, lists, parse_lists lists escaped leads begins⟩

theorem escaped_query_parsed_small :
    ∃ kvs, Lists (ascii "w=%41&g=1") kvs ∧
      evhtpParseQuery ([slash, questionMark] ++ ascii "w=%41&g=1") = .ok (kvs.map kvOf) := by
  have escaped : Escaped (ascii "w=%41&g=1") :=
    .byte (by decide) (.byte (by decide) (.escape rfl rfl (.byte (by decide) (.byte (by decide)
      (.byte (by decide) (.byte (by decide) .nil))))))
  exact escaped_query_parsed [slash, questionMark] _ (.path 0) escaped fun none => by cases none

/-! ## Printed queries -/

def printKv (kv : EvhtpKv) : Bytes := kv.key.bytes ++ equals :: kv.val.bytes

def printQuery : List EvhtpKv → Bytes
  | [] => []
  | [kv] => printKv kv
  | kv :: kvs => printKv kv ++ ampersand :: printQuery kvs

structure Printable (kv : EvhtpKv) : Prop where
  isKey : equals ∉ kv.key.bytes
  isVal : IsVal kv.val.bytes
  escapedKey : Escaped kv.key.bytes
  escapedVal : Escaped kv.val.bytes
  someKey : kv.key.bytes ≠ []
  someVal : kv.val.bytes ≠ []

theorem cStr_bytes (s : CString) : cStr s.bytes = s := by
  obtain ⟨bytes, noNul⟩ := s
  have other : ∀ c ∈ bytes, ¬c = 0 := fun c inside => ne_of_mem_of_not_mem inside noNul
  simpa [cStr] using other

theorem Escaped.append {s t : Bytes} (first : Escaped s) (second : Escaped t) : Escaped (s ++ t) := by
  induction first with
  | nil => exact second
  | byte plain _ ih => exact .byte plain ih
  | escape a b _ ih => exact .escape a b ih

theorem printKv_escaped {kv : EvhtpKv} (printable : Printable kv) : Escaped (printKv kv) :=
  printable.escapedKey.append (.byte (by decide) printable.escapedVal)

theorem printQuery_lists (kvs : List EvhtpKv) (printable : ∀ kv ∈ kvs, Printable kv) :
    Lists (printQuery kvs) (kvs.map fun kv => (kv.key.bytes, kv.val.bytes)) ∧
      Escaped (printQuery kvs) := by
  induction kvs with
  | nil => exact ⟨.key (by simp [printQuery]), .nil⟩
  | cons kv kvs ih =>
      have here := printable kv List.mem_cons_self
      obtain ⟨lists, escaped⟩ := ih fun kv inside => printable kv (.tail _ inside)
      cases kvs with
      | nil =>
          have last := Lists.last here.isKey here.isVal
          rw [if_pos ⟨here.someKey, here.someVal⟩] at last
          exact ⟨last, printKv_escaped here⟩
      | cons kv' kvs =>
          have pair := Lists.pair here.isKey here.isVal (.inr rfl) lists
          refine ⟨?_, (printKv_escaped here).append (.byte (by decide) escaped)⟩
          rw [printQuery, printKv, List.append_assoc]
          · exact pair
          · simp

theorem query_round_trip (kvs : List EvhtpKv) (printable : ∀ kv ∈ kvs, Printable kv)
    (begins : Begins [] (printQuery kvs)) : evhtpParseQuery (printQuery kvs) = .ok kvs := by
  obtain ⟨lists, escaped⟩ := printQuery_lists kvs printable
  rw [← List.nil_append (printQuery kvs), parse_lists lists escaped .none begins, List.map_map]
  have whole : (kvOf ∘ fun kv => (kv.key.bytes, kv.val.bytes)) = id := by
    funext kv
    simp [kvOf, cStr_bytes]
  rw [whole, List.map_id]

def smallQuery : List EvhtpKv := [⟨cStr [119], cStr [49, 50]⟩, ⟨cStr [103], cStr [49]⟩]

theorem query_round_trip_small :
    smallQuery ≠ [] ∧ evhtpParseQuery (printQuery smallQuery) = .ok smallQuery := by
  have digits : Escaped [49] ∧ Escaped [49, 50] :=
    ⟨.byte (by decide) .nil, .byte (by decide) (.byte (by decide) .nil)⟩
  have printable : ∀ kv ∈ smallQuery, Printable kv := by
    intro kv inside
    have isVals : IsVal [49] ∧ IsVal [49, 50] := by simp [IsVal, EndsVal, semicolon, ampersand]
    obtain rfl | rfl : kv = ⟨cStr [119], cStr [49, 50]⟩ ∨ kv = ⟨cStr [103], cStr [49]⟩ := by
      simpa [smallQuery] using inside
    · exact ⟨by decide, isVals.2, .byte (by decide) .nil, digits.2, by decide, by decide⟩
    · exact ⟨by decide, isVals.1, .byte (by decide) .nil, digits.1, by decide, by decide⟩
  refine ⟨List.cons_ne_nil _ _, query_round_trip smallQuery printable fun _ c first => ?_⟩
  obtain rfl : 119 = c := Option.some.inj first
  exact ⟨by decide, by decide⟩

end Ximg.Query
