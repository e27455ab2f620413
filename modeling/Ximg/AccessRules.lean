import Ximg.Zaccess
import Mathlib.Tactic.Linarith

/-!
# What the access rules mean

The rule string read as its segments, and the decision that the parser and the walk over the rules
reach from them.
-/

namespace Ximg
open Text

/-- What stands behind the first space of a segment. -/
def rangeText (seg : Bytes) : Option Bytes :=
  (seg.findIdx? (· == 32)).map fun i => seg.drop (i + 1)

def segmentRange (seg : Bytes) : Option ZimgRule :=
  match rangeText seg with
  | none => none
  | some text =>
      if text = ascii "all" then some ⟨0, 0, 0⟩ else stor text 0 text.length ⟨0, 0, 0⟩

/-- A segment has a space, and behind the first one `all` or what `stor` takes. -/
def Valid (seg : Bytes) : Prop := (segmentRange seg).isSome

def Denies (seg : Bytes) : Prop := seg.head? = some 100

instance (seg : Bytes) : Decidable (Valid seg) := inferInstanceAs (Decidable (_ = true))

instance (seg : Bytes) : Decidable (Denies seg) := inferInstanceAs (Decidable (_ = _))

def Applies (seg : Bytes) (a : UInt32) : Prop :=
  ∃ range ∈ segmentRange seg, a &&& range.mask = range.addr

def segmentRule (seg : Bytes) : Option ZimgRule :=
  (segmentRange seg).map fun range => { range with deny := if Denies seg then 1 else 0 }

/-- What is read as the rule string: the copy has no terminator, so a last segment goes on up to a
semicolon that comes before the next zero byte. -/
def overread (beyond : Bytes) : Bytes :=
  match beyond.findIdx? fun c => c == semicolon || c == 0 with
  | some i => if beyond.getD i 0 = semicolon then beyond.take i else []
  | none => []

/-! ## Pieces of memory -/

theorem wrap_below {m n : Nat} (small : n < 2 ^ 63) (lt : m < n) :
    wrap ((m : Int) - n) = 2 ^ 64 - (n - m) := by
  unfold wrap
  omega

theorem span_append (pre text tail : Bytes) {i j : Nat} (inside : j ≤ text.length) :
    span (pre ++ text ++ tail) (pre.length + i) (pre.length + j) = span text i j := by
  rw [span, span, List.append_assoc, ← List.drop_drop, List.drop_left, Nat.add_sub_add_left]
  by_cases short : i ≤ text.length
  · rw [List.drop_append_of_le_length short, List.take_append_of_le_length]
    rw [List.length_drop]
    omega
  · have none : j - i = 0 := by omega
    rw [none, List.take_zero, List.take_zero]

theorem span_front (pre text tail : Bytes) {j : Nat} (inside : j ≤ text.length) :
    span (pre ++ text ++ tail) pre.length (pre.length + j) = span text 0 j :=
  span_append pre text tail (i := 0) inside

theorem span_all (text : Bytes) : span text 0 text.length = text := by
  rw [span, List.drop_zero, Nat.sub_zero, List.take_length]

theorem stor_text {pre text tail : Bytes} (small : (pre ++ text ++ tail).length < 2 ^ 63)
    (rule : ZimgRule) :
    stor (pre ++ text ++ tail) pre.length text.length rule = stor text 0 text.length rule := by
  simp only [List.length_append] at small
  have last : wrap ((pre.length : Int) + text.length) = pre.length + text.length := by
    rw [← Int.natCast_add]
    exact wrap_natCast (by omega)
  have last' : wrap (((0 : Nat) : Int) + text.length) = text.length := by
    rw [Int.natCast_zero, zero_add]
    exact wrap_natCast (by omega)
  have whole : span (pre ++ text ++ tail) pre.length (pre.length + text.length) = text := by
    rw [span_front pre text tail le_rfl, span_all]
  have addr {k : Nat} (inside : k ≤ text.length) :
      zimgInetAddr (pre ++ text ++ tail) pre.length k = zimgInetAddr text 0 k := by
    have stop : wrap ((pre.length : Int) + k) = pre.length + k := by
      rw [← Int.natCast_add]
      exact wrap_natCast (by omega)
    have stop' : wrap (((0 : Nat) : Int) + k) = k := by
      rw [Int.natCast_zero, zero_add]
      exact wrap_natCast (by omega)
    rw [zimgInetAddr, zimgInetAddr, stop, stop', span_front pre text tail inside]
  unfold stor
  simp only [last, last', zimgStrlchr, whole, span_all]
  cases found : text.findIdx? (· == slash) with
  | none =>
      simp only [Option.map_none, Option.getD_none]
      rw [wrap_sub (by omega) (by omega), wrap_sub (by omega) (by omega), addr (by omega),
        Nat.add_sub_cancel_left, Nat.sub_zero]
  | some i =>
      have inside : i < text.length := (List.findIdx?_eq_some_iff_getElem.mp found).1
      simp only [Option.map_some, Option.getD_some]
      rw [wrap_sub (by omega) (by omega), wrap_sub (by omega) (by omega), addr (by omega),
        Nat.add_assoc, span_append pre text tail le_rfl, Nat.add_sub_cancel_left, Nat.zero_add,
        Nat.sub_zero]

theorem stor_deny (text : Bytes) (len : Nat) (deny : UInt32) :
    stor text 0 len ⟨0, 0, deny⟩ =
      (stor text 0 len ⟨0, 0, 0⟩).map fun range => { range with deny := deny } := by
  unfold stor
  dsimp only
  split
  · rfl
  split
  · rfl
  split
  · rfl
  split <;> rfl

theorem stor_reversed {mem : Bytes} {range stop : Nat} (behind : stop < range)
    (small : range < 2 ^ 63) (rule : ZimgRule) :
    stor mem range (wrap ((stop : Int) - range)) rule = none := by
  rw [wrap_below small behind]
  have last : wrap ((range : Int) + ((2 ^ 64 - (range - stop) : Nat) : Int)) = stop := by
    unfold wrap
    omega
  have empty : span mem range stop = [] := by
    rw [span, Nat.sub_eq_zero_of_le behind.le, List.take_zero]
  unfold stor
  simp only [last, zimgStrlchr, empty, List.findIdx?_nil, Option.map_none, Option.getD_none]
  rw [wrap_below small behind, zimgInetAddr, last, empty]
  rfl

/-! ## Searching for a character -/

theorem strchrLoop_append {c : UInt8} {t : Bytes} (rest : Bytes) (start : Nat) (found : c ∈ t)
    (plain : 0 ∉ t) :
    strchrLoop c (t ++ rest) start = (t.findIdx? (· == c)).map (start + ·) := by
  induction t generalizing start with
  | nil => cases found
  | cons d t ih =>
      rw [List.cons_append, strchrLoop]
      by_cases here : d = c
      · simp [here, List.findIdx?_cons]
      · have zero : d ≠ 0 := fun h => plain (h ▸ List.mem_cons_self)
        have later : c ∈ t := (List.mem_cons.mp found).resolve_left fun h => here h.symm
        rw [if_neg here, if_neg zero, ih (start + 1) later fun h => plain (List.mem_cons_of_mem d h)]
        simp only [List.findIdx?_cons, beq_eq_false_iff_ne.mpr here]
        cases t.findIdx? (· == c) with
        | none => rfl
        | some i =>
            simp
            omega

theorem strchrLoop_skip {c : UInt8} {t : Bytes} (rest : Bytes) (start : Nat) (absent : c ∉ t)
    (plain : 0 ∉ t) :
    strchrLoop c (t ++ rest) start = strchrLoop c rest (start + t.length) := by
  induction t generalizing start with
  | nil => rfl
  | cons d t ih =>
      have here : d ≠ c := fun h => absent (h ▸ List.mem_cons_self)
      have zero : d ≠ 0 := fun h => plain (h ▸ List.mem_cons_self)
      rw [List.cons_append, strchrLoop, if_neg here, if_neg zero,
        ih (start + 1) (fun h => absent (List.mem_cons_of_mem d h))
          fun h => plain (List.mem_cons_of_mem d h), List.length_cons]
      congr 1
      omega

theorem strchrLoop_lt {c : UInt8} {t : Bytes} {start p : Nat}
    (h : strchrLoop c t start = some p) : p < start + t.length := by
  induction t generalizing start with
  | nil => cases h
  | cons d t ih =>
      rw [strchrLoop] at h
      rw [List.length_cons]
      split_ifs at h
      · cases h
        omega
      · have := ih h
        omega

/-! ## Segments -/

theorem confGetRule_spaceless {pre seg tail : Bytes} (plain : 0 ∉ seg)
    (small : (pre ++ seg ++ tail).length < 2 ^ 63) (absent : 32 ∉ seg) :
    confGetRule (pre ++ seg ++ tail) pre.length (pre.length + seg.length) = none := by
  have search : strchr (pre ++ seg ++ tail) pre.length 32 =
      strchrLoop 32 tail (pre.length + seg.length) := by
    rw [strchr, List.append_assoc, List.drop_left, strchrLoop_skip tail _ absent plain]
  rw [confGetRule, search]
  cases found : strchrLoop 32 tail (pre.length + seg.length) with
  | none => rfl
  | some sp =>
      have after := strchrLoop_ge found
      have before := strchrLoop_lt found
      simp only [List.length_append] at small
      have behind : pre.length + seg.length < sp + 1 := by omega
      dsimp only
      rw [if_neg]
      · exact stor_reversed behind (by omega) _
      · intro all
        rw [wrap_below (by omega) behind] at all
        omega

theorem confGetRule_segment {pre seg tail : Bytes} (plain : 0 ∉ seg)
    (small : (pre ++ seg ++ tail).length < 2 ^ 63) :
    confGetRule (pre ++ seg ++ tail) pre.length (pre.length + seg.length) = segmentRule seg := by
  by_cases present : 32 ∈ seg
  · obtain ⟨i, found⟩ : ∃ i, seg.findIdx? (· == 32) = some i := by
      rw [← Option.isSome_iff_exists, List.findIdx?_isSome, List.any_eq_true]
      exact ⟨32, present, rfl⟩
    have inside : i < seg.length := (List.findIdx?_eq_some_iff_getElem.mp found).1
    have search : strchr (pre ++ seg ++ tail) pre.length 32 = some (pre.length + i) := by
      rw [strchr, List.append_assoc, List.drop_left, strchrLoop_append tail _ present plain, found]
      rfl
    have mode : ((pre ++ seg ++ tail).getD pre.length 0 = 100) = (seg.head? = some 100) := by
      cases seg with
      | nil => cases present
      | cons c seg => simp
    -- the memory around the range
    have front : (pre ++ seg.take (i + 1)).length = pre.length + i + 1 := by
      rw [List.length_append, List.length_take]
      omega
    have split : pre ++ seg ++ tail = pre ++ seg.take (i + 1) ++ seg.drop (i + 1) ++ tail := by
      rw [List.append_assoc pre (seg.take _), List.take_append_drop]
    have stop : wrap ((pre.length + seg.length : Nat) - ((pre.length + i + 1 : Nat) : Int)) =
        (seg.drop (i + 1)).length := by
      simp only [List.length_append] at small
      rw [wrap_sub (by omega) (by omega), List.length_drop]
      omega
    have all : ((seg.drop (i + 1)).length = 3 ∧
        ((pre ++ seg ++ tail).drop (pre.length + i + 1)).take 3 = ascii "all") ↔
          seg.drop (i + 1) = ascii "all" := by
      rw [split, ← front, List.append_assoc, List.drop_left]
      constructor
      · rintro ⟨three, same⟩
        rw [← three, List.take_left] at same
        exact same
      · intro same
        rw [same]
        exact ⟨rfl, rfl⟩
    have stored (rule : ZimgRule) :
        stor (pre ++ seg ++ tail) (pre.length + i + 1) (seg.drop (i + 1)).length rule =
          stor (seg.drop (i + 1)) 0 (seg.drop (i + 1)).length rule := by
      rw [split] at small ⊢
      rw [← front]
      exact stor_text small rule
    rw [confGetRule, search, segmentRule, segmentRange, rangeText, found]
    dsimp only [Option.map_some]
    rw [stop]
    simp only [mode, all, stored]
    split
    · rfl
    · exact stor_deny _ _ _
  · rw [confGetRule_spaceless plain small present, segmentRule, segmentRange, rangeText]
    have none : seg.findIdx? (· == 32) = none := by
      rw [List.findIdx?_eq_none_iff]
      intro c member
      apply beq_eq_false_iff_ne.mpr
      rintro rfl
      exact present member
    rw [none]
    rfl

theorem overread_cases (beyond : Bytes) :
    (∃ rest, beyond = overread beyond ++ semicolon :: rest ∧ semicolon ∉ overread beyond ∧
      0 ∉ overread beyond) ∨
    (overread beyond = [] ∧ ∀ start, strchrLoop semicolon beyond start = none) := by
  have other (c : UInt8) : (c == semicolon || c == 0) = false ↔ semicolon ≠ c ∧ 0 ≠ c := by
    rw [Bool.or_eq_false_iff, beq_eq_false_iff_ne, beq_eq_false_iff_ne, ne_comm, ne_comm (a := c)]
  cases found : beyond.findIdx? fun c => c == semicolon || c == 0 with
  | none =>
      have none := List.findIdx?_eq_none_iff.mp found
      have skip := strchrLoop_skip [] (c := semicolon) (t := beyond)
      refine .inr ⟨by rw [overread, found], fun start => ?_⟩
      rw [List.append_nil] at skip
      exact skip start (fun h => ((other _).mp (none _ h)).1 rfl)
        fun h => ((other _).mp (none _ h)).2 rfl
  | some i =>
      obtain ⟨inside, here, before⟩ := List.findIdx?_eq_some_iff_getElem.mp found
      have split : beyond = beyond.take i ++ beyond[i] :: beyond.drop (i + 1) := by simp
      have clean (c : UInt8) (h : c ∈ beyond.take i) : semicolon ≠ c ∧ 0 ≠ c := by
        obtain ⟨j, small, rfl⟩ := List.mem_take_iff_getElem.mp h
        exact (other _).mp (Bool.not_eq_true _ ▸ before j (by omega))
      have value : beyond.getD i 0 = beyond[i] := by simp [inside]
      by_cases semi : beyond[i] = semicolon
      · have taken : overread beyond = beyond.take i := by
          rw [overread, found]
          dsimp only
          rw [if_pos (value.trans semi)]
        refine .inl ⟨beyond.drop (i + 1), ?_, ?_, ?_⟩
        · rw [taken, ← semi]
          exact split
        · rw [taken]
          exact fun h => (clean _ h).1 rfl
        · rw [taken]
          exact fun h => (clean _ h).2 rfl
      · have zero : beyond[i] = 0 := by simpa [semi] using here
        refine .inr ⟨?_, fun start => ?_⟩
        · rw [overread, found]
          dsimp only
          rw [if_neg (value ▸ semi)]
        · rw [split, zero, strchrLoop_skip _ _ (fun h => (clean _ h).1 rfl)
            fun h => (clean _ h).2 rfl]
          rfl

theorem confGetRulesLoop_done {mem : Bytes} {accLen start : Nat} (done : accLen < start)
    (rules : List ZimgRule) : confGetRulesLoop mem accLen start rules = rules := by
  rw [confGetRulesLoop, if_neg (by omega)]

theorem confGetRulesLoop_found {mem : Bytes} {accLen start stop : Nat} (inside : start ≤ accLen)
    (found : strchr mem start semicolon = some stop) (rules : List ZimgRule) :
    confGetRulesLoop mem accLen start rules =
      confGetRulesLoop mem accLen (stop + 1) ((confGetRule mem start stop).toList ++ rules) := by
  rw [confGetRulesLoop, if_pos inside]
  split
  · rename_i other same
    cases same.symm.trans found
    rfl
  · rename_i none
    cases none.symm.trans found

theorem confGetRulesLoop_last {mem : Bytes} {accLen start : Nat} (inside : start ≤ accLen)
    (absent : strchr mem start semicolon = none) (rules : List ZimgRule) :
    confGetRulesLoop mem accLen start rules = (confGetRule mem start accLen).toList ++ rules := by
  rw [confGetRulesLoop, if_pos inside]
  split
  · rename_i found
    cases found.symm.trans absent
  · exact confGetRulesLoop_done (Nat.lt_succ_self _) _

theorem strchr_segment {c : UInt8} (pre rest beyond : Bytes) {seg : Bytes} (first : c ∉ seg)
    (clean : 0 ∉ seg) : strchr (pre ++ (seg ++ c :: rest) ++ beyond) pre.length c =
      some (pre.length + seg.length) := by
  rw [strchr, List.append_assoc, List.drop_left, List.append_assoc,
    strchrLoop_skip _ _ first clean, List.cons_append, strchrLoop, if_pos rfl]

theorem confGetRulesLoop_segments (pre t beyond : Bytes) (plain : 0 ∉ t)
    (small : (pre ++ t ++ beyond).length < 2 ^ 63) (rules : List ZimgRule) :
    confGetRulesLoop (pre ++ t ++ beyond) (pre.length + t.length) pre.length rules =
      (((t ++ overread beyond).splitOn semicolon).filterMap segmentRule).reverse ++ rules := by
  induction t using segments_induction semicolon generalizing pre rules with
  | last t more _ =>
      have search : strchr (pre ++ t ++ beyond) pre.length semicolon =
          strchrLoop semicolon beyond (pre.length + t.length) := by
        rw [strchr, List.append_assoc, List.drop_left, strchrLoop_skip _ _ more plain]
      obtain ⟨rest, split, clean, zero⟩ | ⟨nothing, absent⟩ := overread_cases beyond
      · -- the last segment ends behind the copy
        have found : strchrLoop semicolon beyond (pre.length + t.length) =
            some (pre.length + (t ++ overread beyond).length) := by
          rw [split, strchrLoop_skip _ _ clean zero, ← split, List.length_append, Nat.add_assoc]
          rfl
        have text : pre ++ t ++ beyond = pre ++ (t ++ overread beyond) ++ semicolon :: rest := by
          rw [List.append_assoc pre, List.append_assoc pre, List.append_assoc t, ← split]
        have here : confGetRule (pre ++ t ++ beyond) pre.length
            (pre.length + (t ++ overread beyond).length) = segmentRule (t ++ overread beyond) := by
          rw [text] at small ⊢
          apply confGetRule_segment _ small
          simp [plain, zero]
        rw [confGetRulesLoop_found (by omega) (search.trans found), here, confGetRulesLoop_done,
          splitOn_last]
        · cases rule : segmentRule (t ++ overread beyond) <;> simp [rule]
        · simp [more, clean]
        · rw [List.length_append]
          omega
      · rw [confGetRulesLoop_last (by omega) (search.trans (absent _)),
          confGetRule_segment plain small, nothing, List.append_nil, splitOn_last more]
        cases rule : segmentRule t <;> simp [rule]
  | more seg t first _ ih =>
      obtain ⟨plainSeg, plainRest⟩ := not_mem_parts plain
      have found := strchr_segment pre t beyond first plainSeg
      have here : confGetRule (pre ++ (seg ++ semicolon :: t) ++ beyond) pre.length
          (pre.length + seg.length) = segmentRule seg := by
        have text : pre ++ (seg ++ semicolon :: t) ++ beyond =
            pre ++ seg ++ (semicolon :: t ++ beyond) := by simp
        rw [text] at small ⊢
        exact confGetRule_segment plainSeg small
      have shift := segment_shift semicolon pre seg t beyond
      have next := ih (pre ++ seg ++ [semicolon]) plainRest (shift ▸ small)
        ((segmentRule seg).toList ++ rules)
      rw [confGetRulesLoop_found (by omega) found, here, segment_stop, segment_next, shift, next,
        List.append_assoc seg, List.cons_append, splitOn_segment first]
      cases rule : segmentRule seg <;> simp [rule]

theorem confGetRules_segments {s beyond : Bytes} (plain : 0 ∉ s)
    (small : (s ++ beyond).length < 2 ^ 63) :
    (confGetRules s beyond).rules =
      (((s ++ overread beyond).splitOn semicolon).filterMap segmentRule).reverse := by
  have loop := confGetRulesLoop_segments [] s beyond plain small []
  rw [List.append_nil, List.nil_append, List.length_nil, Nat.zero_add] at loop
  exact loop

/-! ## The decision -/

/-- The last segment whose range matches decides. -/
inductive Verdict (segs : List Bytes) (a : UInt32) : Int → Prop
  | unruled (none : ∀ seg ∈ segs, ¬Valid seg) : Verdict segs a ZIMG_OK
  | decided (before : List Bytes) (seg : Bytes) (after : List Bytes)
      (here : segs = before ++ seg :: after) (holds : Applies seg a)
      (last : ∀ later ∈ after, ¬Applies later a) :
      Verdict segs a (if Denies seg then ZIMG_FORBIDDEN else ZIMG_OK)
  | unmatched (ruled : ∃ seg ∈ segs, Valid seg) (none : ∀ seg ∈ segs, ¬Applies seg a) :
      Verdict segs a ZIMG_FORBIDDEN

theorem Applies.rule {seg : Bytes} {a : UInt32} (holds : Applies seg a) :
    ∃ rule, segmentRule seg = some rule ∧ a &&& rule.mask = rule.addr ∧
      (rule.deny ≠ 0 ↔ Denies seg) := by
  obtain ⟨range, found, matching⟩ := holds
  have made : segmentRule seg = some { range with deny := if Denies seg then 1 else 0 } := by
    rw [segmentRule, Option.mem_def.mp found]
    rfl
  refine ⟨_, made, matching, ?_⟩
  by_cases denies : Denies seg <;> simp [denies]

theorem segmentRule_holds {seg : Bytes} {a : UInt32} {rule : ZimgRule}
    (found : segmentRule seg = some rule) (matching : a &&& rule.mask = rule.addr) :
    Applies seg a := by
  rw [segmentRule, Option.map_eq_some_iff] at found
  obtain ⟨range, found, rfl⟩ := found
  exact ⟨range, found, matching⟩

theorem segmentRule_none {seg : Bytes} : segmentRule seg = none ↔ ¬Valid seg := by
  simp [segmentRule, Valid]

theorem filterMap_valid (segs : List Bytes) :
    (segs.filter fun seg => Valid seg).filterMap segmentRule = segs.filterMap segmentRule := by
  induction segs with
  | nil => rfl
  | cons seg segs ih =>
      by_cases valid : Valid seg
      · simp [valid, List.filterMap_cons, ih]
      · simp [valid, segmentRule_none.mpr valid, ih]

theorem Applies.valid {seg : Bytes} {a : UInt32} (holds : Applies seg a) : Valid seg := by
  obtain ⟨range, found, -⟩ := holds
  rw [Valid, Option.mem_def.mp found]
  rfl

theorem accessWalk_skip {a : UInt32} {segs : List Bytes} (none : ∀ seg ∈ segs, ¬Applies seg a)
    (rules : List ZimgRule) :
    accessWalk a ((segs.filterMap segmentRule).reverse ++ rules) = accessWalk a rules := by
  induction segs generalizing rules with
  | nil => rfl
  | cons seg segs ih =>
      have rest (rules : List ZimgRule) := ih (fun s m => none s (List.mem_cons_of_mem seg m)) rules
      cases found : segmentRule seg with
      | none =>
          rw [List.filterMap_cons_none found]
          exact rest rules
      | some rule =>
          have other : a &&& rule.mask ≠ rule.addr :=
            fun matching => none seg List.mem_cons_self (segmentRule_holds found matching)
          rw [List.filterMap_cons_some found, List.reverse_cons, List.append_assoc, rest,
            List.singleton_append, accessWalk, if_neg other]

theorem accessWalk_last {a : UInt32} {before after : List Bytes} {seg : Bytes}
    (holds : Applies seg a) (last : ∀ later ∈ after, ¬Applies later a) :
    accessWalk a (((before ++ seg :: after).filterMap segmentRule).reverse) =
      if Denies seg then ZIMG_FORBIDDEN else ZIMG_OK := by
  obtain ⟨rule, found, matching, denies⟩ := holds.rule
  rw [List.filterMap_append, List.filterMap_cons_some found, List.reverse_append,
    List.reverse_cons, List.append_assoc, accessWalk_skip last, List.singleton_append, accessWalk,
    if_pos matching]
  simp only [denies]

def decision (segs : List Bytes) (a : UInt32) : Int :=
  let rules := (segs.filterMap segmentRule).reverse
  if rules = [] then ZIMG_OK else accessWalk a rules

theorem rules_nil {segs : List Bytes} :
    (segs.filterMap segmentRule).reverse = [] ↔ ∀ seg ∈ segs, ¬Valid seg := by
  rw [List.reverse_eq_nil_iff, List.filterMap_eq_nil_iff]
  simp only [segmentRule_none]


theorem matching_cases (segs : List Bytes) (a : UInt32) :
    (∃ before seg after, segs = before ++ seg :: after ∧ Applies seg a ∧
      ∀ later ∈ after, ¬Applies later a) ∨ ∀ seg ∈ segs, ¬Applies seg a := by
  induction segs using List.reverseRecOn with
  | nil => exact .inr fun seg member => absurd member List.not_mem_nil
  | append_singleton segs seg ih =>
      by_cases holds : Applies seg a
      · exact .inl ⟨segs, seg, [], rfl, holds, fun later m => absurd m List.not_mem_nil⟩
      have extend {segs : List Bytes} (none : ∀ seg ∈ segs, ¬Applies seg a) :
          ∀ other ∈ segs ++ [seg], ¬Applies other a := by
        intro other member
        rcases List.mem_append.mp member with member | member
        · exact none other member
        · rw [List.mem_singleton.mp member]
          exact holds
      obtain ⟨before, found, after, rfl, matching, last⟩ | none := ih
      · exact .inl ⟨before, found, after ++ [seg], by simp, matching, extend last⟩
      · exact .inr (extend none)

theorem decision_unruled {segs : List Bytes} (a : UInt32) (none : ∀ seg ∈ segs, ¬Valid seg) :
    decision segs a = ZIMG_OK := by
  rw [decision, rules_nil.mpr none]
  rfl

theorem decision_ruled {segs : List Bytes} (a : UInt32) {seg : Bytes} (member : seg ∈ segs)
    (valid : Valid seg) :
    decision segs a = accessWalk a ((segs.filterMap segmentRule).reverse) := by
  have some : (segs.filterMap segmentRule).reverse ≠ [] :=
    fun none => rules_nil.mp none seg member valid
  rw [decision]
  exact if_neg some

theorem verdict_iff {segs : List Bytes} {a : UInt32} {result : Int} :
    Verdict segs a result ↔ result = decision segs a := by
  have unmatched (none : ∀ seg ∈ segs, ¬Applies seg a) :
      accessWalk a ((segs.filterMap segmentRule).reverse) = ZIMG_FORBIDDEN := by
    have walk := accessWalk_skip none []
    rw [List.append_nil] at walk
    exact walk
  constructor
  · intro verdict
    cases verdict with
    | unruled none => exact (decision_unruled a none).symm
    | decided before seg after here holds last =>
        subst here
        have member : seg ∈ before ++ seg :: after := by simp
        rw [decision_ruled a member holds.valid, accessWalk_last holds last]
    | unmatched ruled none =>
        obtain ⟨seg, member, valid⟩ := ruled
        rw [decision_ruled a member valid, unmatched none]
  · rintro rfl
    by_cases unruled : ∀ seg ∈ segs, ¬Valid seg
    · rw [decision_unruled a unruled]
      exact .unruled unruled
    · push Not at unruled
      obtain ⟨other, member, valid⟩ := unruled
      rw [decision_ruled a member valid]
      obtain ⟨before, seg, after, rfl, holds, last⟩ | none := matching_cases segs a
      · rw [accessWalk_last holds last]
        exact .decided before seg after rfl holds last
      · rw [unmatched none]
        exact .unmatched ⟨other, member, valid⟩ none

theorem access_decision {s beyond : Bytes} (a : UInt32) (plain : 0 ∉ s)
    (small : (s ++ beyond).length < 2 ^ 63) :
    zimgAccessInet (confGetRules s beyond) a =
      decision ((s ++ overread beyond).splitOn semicolon) a := by
  rw [zimgAccessInet, confGetRules_segments plain small]
  rfl

/-- When a zero byte follows the copy, the last segment of the string whose range matches decides,
and segments that are not valid do not count. -/
theorem access_verdict (s rest : Bytes) (a : UInt32) (plain : 0 ∉ s)
    (small : (s ++ 0 :: rest).length < 2 ^ 63) :
    Verdict (s.splitOn semicolon) a (zimgAccessInet (confGetRules s (0 :: rest)) a) ∧
      ∀ s' rest', 0 ∉ s' → (s' ++ 0 :: rest').length < 2 ^ 63 →
        (s'.splitOn semicolon).filter (fun seg => Valid seg) =
          (s.splitOn semicolon).filter (fun seg => Valid seg) →
        zimgAccessInet (confGetRules s' (0 :: rest')) a =
          zimgAccessInet (confGetRules s (0 :: rest)) a := by
  have ended (t : Bytes) : s ++ overread (0 :: t) = s := List.append_nil s
  constructor
  · rw [verdict_iff, access_decision a plain small, ended]
  · intro s' rest' plain' small' same
    have ended' : s' ++ overread (0 :: rest') = s' := List.append_nil s'
    rw [access_decision a plain small, access_decision a plain' small', ended, ended', decision,
      decision, ← filterMap_valid, same, filterMap_valid]

theorem access_verdict_deny :
    Verdict ((ascii "allow all;nonsense;deny 10.0.0.0/8").splitOn semicolon) 0x0100000a
      (zimgAccessInet (confGetRules (ascii "allow all;nonsense;deny 10.0.0.0/8") [0]) 0x0100000a) :=
  (access_verdict _ [] _ (by decide) (by decide)).1

/-! ## What an allow rule should say -/

def digitsValue (t : Bytes) : Nat := t.foldl (fun n c => n * 10 + (c.toNat - 48)) 0

def IsNumber (bound : Nat) (t : Bytes) : Prop :=
  t ≠ [] ∧ (∀ c ∈ t, IsDigit c) ∧ digitsValue t ≤ bound

structure Ipv4 (text : Bytes) (value : Nat) : Prop where
  intro ::
  octets : ∃ o1 o2 o3 o4, IsNumber 255 o1 ∧ IsNumber 255 o2 ∧ IsNumber 255 o3 ∧ IsNumber 255 o4 ∧
    text = o1 ++ ascii "." ++ o2 ++ ascii "." ++ o3 ++ ascii "." ++ o4 ∧
    value = ((digitsValue o1 * 256 + digitsValue o2) * 256 + digitsValue o3) * 256 +
      digitsValue o4

/-- A range in its standard notation contains an address, whose bytes are in network order. -/
inductive Contains : Bytes → UInt32 → Prop
  | all (a : UInt32) : Contains (ascii "all") a
  | address {text : Bytes} {value : Nat} {a : UInt32} (ipv4 : Ipv4 text value)
      (same : (htonl a).toNat = value) : Contains text a
  | network {text len : Bytes} {value : Nat} {a : UInt32} (ipv4 : Ipv4 text value)
      (length : IsNumber 32 len)
      (same : (htonl a).toNat / 2 ^ (32 - digitsValue len) =
        value / 2 ^ (32 - digitsValue len)) : Contains (text ++ ascii "/" ++ len) a

/-- Some segment is an allow rule, spelled in full, that contains the address. -/
def Allowed (s : Bytes) (a : UInt32) : Prop :=
  ∃ range, ascii "allow " ++ range ∈ s.splitOn semicolon ∧ Contains range a

/-- An address without an allow rule is refused exactly when the string that is read has a valid
segment, and the last one that matches the address starts like a deny rule. -/
theorem access_fails_closed (s beyond : Bytes) (a : UInt32) (plain : 0 ∉ s)
    (small : (s ++ beyond).length < 2 ^ 63) :
    (zimgAccessInet (confGetRules s beyond) a = ZIMG_OK → Allowed s a) ↔
      (¬Allowed s a →
        (∃ seg ∈ (s ++ overread beyond).splitOn semicolon, Valid seg) ∧
        ∀ before seg after, (s ++ overread beyond).splitOn semicolon = before ++ seg :: after →
          Applies seg a → (∀ later ∈ after, ¬Applies later a) → Denies seg) := by
  have decided := access_decision a plain small
  have refused : ZIMG_FORBIDDEN ≠ ZIMG_OK := by decide
  constructor
  · intro closed foreign
    have notOk : zimgAccessInet (confGetRules s beyond) a ≠ ZIMG_OK := fun ok => foreign (closed ok)
    constructor
    · by_contra none
      push Not at none
      exact notOk (decided.trans (verdict_iff.mp (.unruled none)).symm)
    · intro before seg after here holds last
      by_contra allows
      have verdict := Verdict.decided before seg after here holds last
      rw [if_neg allows, verdict_iff, ← decided] at verdict
      exact notOk verdict.symm
  · intro condition ok
    by_contra foreign
    obtain ⟨⟨seg, member, valid⟩, denied⟩ := condition foreign
    have verdict := verdict_iff.mpr decided
    rw [ok] at verdict
    generalize result : ZIMG_OK = r at verdict
    cases verdict with
    | unruled none => exact none seg member valid
    | decided before seg after here holds last =>
        rw [if_pos (denied before seg after here holds last)] at result
        exact refused result.symm
    | unmatched ruled none => exact refused result.symm

theorem access_fails_closed_small :
    (zimgAccessInet (confGetRules (ascii "allow 10.0.0.0/8") [0]) 0x0100000a = ZIMG_OK →
        Allowed (ascii "allow 10.0.0.0/8") 0x0100000a) ↔
      (¬Allowed (ascii "allow 10.0.0.0/8") 0x0100000a →
        (∃ seg ∈ (ascii "allow 10.0.0.0/8" ++ overread [0]).splitOn semicolon, Valid seg) ∧
        ∀ before seg after,
          (ascii "allow 10.0.0.0/8" ++ overread [0]).splitOn semicolon = before ++ seg :: after →
          Applies seg 0x0100000a → (∀ later ∈ after, ¬Applies later 0x0100000a) → Denies seg) :=
  access_fails_closed _ [0] _ (by decide) (by decide)

theorem access_fails_open :
    zimgAccessInet (confGetRules (ascii "permit all") [0]) 0x0100000a = ZIMG_OK ∧
      ¬Allowed (ascii "permit all") 0x0100000a := by
  refine ⟨by decide +kernel, ?_⟩
  rintro ⟨range, member, -⟩
  rw [splitOn_last (by decide)] at member
  cases List.mem_singleton.mp member

end Ximg
