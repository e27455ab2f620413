import Mathlib.Data.Nat.Digits.Lemmas

/-!
# Byte strings

C strings as lists of bytes: text constants, decimal printing, and the cut that a bounded copy
makes.
-/

namespace Text

abbrev Bytes := List UInt8

def ascii (s : String) : Bytes := s.toList.map fun c => UInt8.ofNat c.toNat

def slash : UInt8 := 47
def dot : UInt8 := 46
def minus : UInt8 := 45
def cr : UInt8 := 13
def lf : UInt8 := 10
def space : UInt8 := 32
def quote : UInt8 := 34
def comma : UInt8 := 44
def colon : UInt8 := 58
def semicolon : UInt8 := 59
def equals : UInt8 := 61

def IsDigit (c : UInt8) : Prop := 48 ≤ c ∧ c ≤ 57

instance (c : UInt8) : Decidable (IsDigit c) := inferInstanceAs (Decidable (_ ∧ _))

/-- What `%u` prints. -/
def decimalNat (n : Nat) : Bytes :=
  if n = 0 then [48] else (Nat.digits 10 n).reverse.map fun d => UInt8.ofNat (48 + d)

/-- What `%d` prints. -/
def decimal (i : Int) : Bytes :=
  if i < 0 then minus :: decimalNat i.natAbs else decimalNat i.natAbs

/-- A buffer of `size` bytes keeps at most `size - 1` of them before the terminator. -/
def cut (size : Nat) (s : Bytes) : Bytes := s.take (size - 1)

theorem cut_eq_self {size : Nat} {s : Bytes} (h : s.length < size) : cut size s = s :=
  List.take_of_length_le (by omega)

theorem decimalNat_digits (n : Nat) : ∀ c ∈ decimalNat n, IsDigit c := by
  intro c member
  unfold decimalNat at member
  split at member
  · rw [List.mem_singleton.mp member]
    decide
  · obtain ⟨d, hd, rfl⟩ := List.mem_map.mp member
    have small : d < 10 := Nat.digits_lt_base (by norm_num) (List.mem_reverse.mp hd)
    interval_cases d <;> decide

theorem decimalNat_ne_nil (n : Nat) : decimalNat n ≠ [] := by
  unfold decimalNat
  split
  · exact List.cons_ne_nil _ _
  · rename_i h
    simpa using Nat.digits_ne_nil_iff_ne_zero.mpr h

theorem decimal_ne_nil (i : Int) : decimal i ≠ [] := by
  unfold decimal
  split
  · exact List.cons_ne_nil _ _
  · exact decimalNat_ne_nil _

theorem decimal_chars (i : Int) : ∀ c ∈ decimal i, c = minus ∨ IsDigit c := by
  intro c member
  unfold decimal at member
  split at member
  · rcases List.mem_cons.mp member with rfl | member
    · exact Or.inl rfl
    · exact Or.inr (decimalNat_digits _ c member)
  · exact Or.inr (decimalNat_digits _ c member)

theorem decimalNat_length_le (n k : Nat) (hk : 0 < k) (h : n < 10 ^ k) :
    (decimalNat n).length ≤ k := by
  unfold decimalNat
  split
  · exact hk
  · simpa using (Nat.digits_length_le_iff (by norm_num) n).mpr h

theorem decimalNat_inj {m n : Nat} (same : decimalNat m = decimalNat n) : m = n := by
  -- the printed digits determine the digits, also for zero
  have digits (k : Nat) : (decimalNat k).map (fun c => c.toNat - 48) =
      if k = 0 then [0] else (Nat.digits 10 k).reverse := by
    unfold decimalNat
    split
    · rfl
    · rw [List.map_map]
      conv_rhs => rw [← List.map_id (Nat.digits 10 k).reverse]
      apply List.map_congr_left
      intro d member
      have small : d < 10 := Nat.digits_lt_base (by norm_num) (List.mem_reverse.mp member)
      interval_cases d <;> rfl
  have value (k : Nat) : Nat.ofDigits 10 ((decimalNat k).map fun c => c.toNat - 48).reverse = k := by
    rw [digits]
    split
    · rename_i zero
      rw [zero]
      rfl
    · rw [List.reverse_reverse, Nat.ofDigits_digits]
  rw [← value m, same, value n]

theorem decimal_inj {i j : Int} (same : decimal i = decimal j) : i = j := by
  have sign (n m : Nat) : decimalNat n ≠ minus :: decimalNat m := by
    intro h
    have digit := decimalNat_digits n minus (by rw [h]; exact List.mem_cons_self)
    exact absurd digit (by decide)
  unfold decimal at same
  split at same <;> split at same
  · have := decimalNat_inj (List.cons.inj same).2
    omega
  · exact absurd same.symm (sign _ _)
  · exact absurd same (sign _ _)
  · have := decimalNat_inj same
    omega

/-! ## Texts with a letter after every word -/

def ended (sep : UInt8) (ws : List Bytes) : Bytes := ws.flatMap fun w => w ++ [sep]

theorem ended_cons (sep : UInt8) (w : Bytes) (ws : List Bytes) (s : Bytes) :
    ended sep (w :: ws) ++ s = w ++ sep :: (ended sep ws ++ s) := by simp [ended]

theorem word_prefix {sep : UInt8} {w w' s s' : Bytes} (plain : sep ∉ w) (plain' : sep ∉ w')
    (h : w ++ sep :: s <+: w' ++ sep :: s') : w = w' ∧ s <+: s' := by
  induction w generalizing w' with
  | nil =>
      cases w' with
      | nil => exact ⟨rfl, (List.cons_prefix_cons.mp h).2⟩
      | cons c w' =>
          have first := (List.cons_prefix_cons.mp h).1
          exact absurd (first ▸ List.mem_cons_self) plain'
  | cons d w ih =>
      cases w' with
      | nil =>
          have first := (List.cons_prefix_cons.mp h).1
          exact absurd (first ▸ List.mem_cons_self) plain
      | cons c w' =>
          obtain ⟨first, rest⟩ := List.cons_prefix_cons.mp h
          obtain ⟨same, tail⟩ := ih (fun m => plain (List.mem_cons_of_mem d m))
            (fun m => plain' (List.mem_cons_of_mem c m)) rest
          exact ⟨by rw [first, same], tail⟩

theorem ended_prefix {sep : UInt8} {ws ws' : List Bytes} {s s' : Bytes}
    (plain : ∀ w ∈ ws, sep ∉ w) (plain' : ∀ w ∈ ws', sep ∉ w) (count : ws.length = ws'.length)
    (h : ended sep ws ++ s <+: ended sep ws' ++ s') : ws = ws' ∧ s <+: s' := by
  induction ws generalizing ws' with
  | nil =>
      rw [List.eq_nil_of_length_eq_zero count.symm] at h ⊢
      exact ⟨rfl, h⟩
  | cons w ws ih =>
      cases ws' with
      | nil => cases count
      | cons w' ws' =>
          rw [ended_cons, ended_cons] at h
          obtain ⟨same, rest⟩ := word_prefix (plain w List.mem_cons_self)
            (plain' w' List.mem_cons_self) h
          obtain ⟨sames, tail⟩ := ih (fun v m => plain v (List.mem_cons_of_mem w m))
            (fun v m => plain' v (List.mem_cons_of_mem w' m)) (Nat.succ.inj count) rest
          exact ⟨by rw [same, sames], tail⟩

/-! ## First occurrences -/

theorem findIdx_split {c : UInt8} {name : Bytes} (absent : c ∉ name) (after : Bytes) :
    (name ++ c :: after).findIdx? (· == c) = some name.length := by
  induction name with
  | nil => simp [List.findIdx?_cons]
  | cons d name ih =>
      rw [List.mem_cons, not_or] at absent
      simp [List.findIdx?_cons, Ne.symm absent.1, ih absent.2]

theorem findIdx_absent {c : UInt8} {s : Bytes} (absent : c ∉ s) :
    s.findIdx? (· == c) = none := by
  rw [List.findIdx?_eq_none_iff]
  intro d member
  exact beq_eq_false_iff_ne.mpr fun same => absent (same ▸ member)

theorem split_unique {c : UInt8} {front front' rest rest' : Bytes}
    (same : front ++ c :: rest = front' ++ c :: rest') (absent : c ∉ front)
    (absent' : c ∉ front') : front = front' ∧ rest = rest' := by
  have length := findIdx_split absent rest
  rw [same, findIdx_split absent'] at length
  obtain ⟨fronts, rests⟩ := List.append_inj same (Option.some.inj length).symm
  exact ⟨fronts, (List.cons.inj rests).2⟩

/-! ## Segments -/

theorem splitOn_segment {c : UInt8} {seg : Bytes} (plain : c ∉ seg) (rest : Bytes) :
    (seg ++ c :: rest).splitOn c = seg :: rest.splitOn c := by
  rw [List.splitOn_eq_splitOnP, List.splitOn_eq_splitOnP, List.splitOnP_append_cons _ _ (by simp),
    List.splitOnP_eq_singleton]
  · rfl
  · intro d member
    apply beq_eq_false_iff_ne.mpr
    rintro rfl
    exact plain member

theorem splitOn_last {c : UInt8} {seg : Bytes} (plain : c ∉ seg) : seg.splitOn c = [seg] := by
  rw [List.splitOn_eq_splitOnP]
  apply List.splitOnP_eq_singleton
  intro d member
  apply beq_eq_false_iff_ne.mpr
  rintro rfl
  exact plain member

theorem segment_cases (c : UInt8) (s : Bytes) :
    (c ∉ s ∧ s.splitOn c = [s]) ∨
      ∃ seg rest, s = seg ++ c :: rest ∧ c ∉ seg ∧ s.splitOn c = seg :: rest.splitOn c := by
  by_cases member : c ∈ s
  · obtain ⟨seg, rest, rfl, plain⟩ := List.eq_append_cons_of_mem member
    exact .inr ⟨seg, rest, rfl, plain, splitOn_segment plain rest⟩
  · exact .inl ⟨member, splitOn_last member⟩

theorem segments_induction (c : UInt8) {P : Bytes → Prop}
    (last : ∀ s, c ∉ s → s.splitOn c = [s] → P s)
    (more : ∀ seg rest, c ∉ seg → (seg ++ c :: rest).splitOn c = seg :: rest.splitOn c → P rest →
      P (seg ++ c :: rest)) (s : Bytes) : P s := by
  induction length : s.length using Nat.strong_induction_on generalizing s with
  | _ size ih =>
      obtain ⟨plain, split⟩ | ⟨seg, rest, rfl, plain, split⟩ := segment_cases c s
      · exact last s plain split
      · apply more seg rest plain split
        apply ih rest.length _ rest rfl
        rw [← length, List.length_append, List.length_cons]
        omega

theorem not_mem_parts {x c : UInt8} {seg rest : Bytes} (h : x ∉ seg ++ c :: rest) :
    x ∉ seg ∧ x ∉ rest :=
  ⟨fun here => h (List.mem_append_left _ here),
    fun here => h (List.mem_append_right _ (List.mem_cons_of_mem c here))⟩

/-! ## A text that is read from its next segment on -/

section Shift
variable (c : UInt8) (pre seg rest beyond : Bytes)

theorem segment_shift :
    pre ++ (seg ++ c :: rest) ++ beyond = (pre ++ seg ++ [c]) ++ rest ++ beyond := by simp

theorem segment_next : pre.length + seg.length + 1 = (pre ++ seg ++ [c]).length := by
  simp only [List.length_append, List.length_singleton]

theorem segment_stop :
    pre.length + (seg ++ c :: rest).length = (pre ++ seg ++ [c]).length + rest.length := by
  simp only [List.length_append, List.length_cons, List.length_nil]
  omega

end Shift

end Text
