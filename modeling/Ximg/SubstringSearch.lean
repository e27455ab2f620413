import Ximg.UploadFilter

/-!
# The bounded search for a text

What `strnstr` finds in a buffer without a terminator, and the bytes it reads for it.
-/

namespace Ximg
open Text

/-- The search for a pattern of any bytes in the `slen` bytes from an offset on. -/
def strnstrBytes (mem : Bytes) (s : Nat) (find : Bytes) (slen : Nat) : Option Nat :=
  match find with
  | [] => some s
  | c :: rest => strnstrLoop c rest (mem.drop s) slen s

example (mem : Bytes) (s : Nat) (find : String) (slen : Nat) :
    strnstr mem s find slen = strnstrBytes mem s (ascii find) slen := rfl

/-! ## The offsets read -/

/-- `strncmp` reads up to the first difference; the pattern has no zero byte. -/
def strncmpReads : Bytes → Bytes → Nat → List Nat
  | [], _, _ => []
  | _ :: _, [], p => [p]
  | f :: find, d :: s, p => p :: if d = f then strncmpReads find s (p + 1) else []

def strnstrReads (c : UInt8) (rest : Bytes) : Bytes → Nat → Nat → List Nat
  | [], _, p => [p]
  | sc :: s, slen, p =>
      p ::
        if sc = 0 then []
        else if slen < 1 then []
        else if sc ≠ c then strnstrReads c rest s (slen - 1) (p + 1)
        else if rest.length > slen - 1 then []
        else strncmpReads rest s (p + 1) ++
          if rest <+: s then [] else strnstrReads c rest s (slen - 1) (p + 1)

def strnstrBytesReads (mem : Bytes) (s : Nat) (find : Bytes) (slen : Nat) : List Nat :=
  match find with
  | [] => []
  | c :: rest => strnstrReads c rest (mem.drop s) slen s

def Below (stop : Nat) (reads : List Nat) : Prop := ∀ i ∈ reads, i < stop

theorem below_cons {stop p : Nat} {reads : List Nat} :
    Below stop (p :: reads) ↔ p < stop ∧ Below stop reads := List.forall_mem_cons

theorem below_nil (stop : Nat) : Below stop [] := fun _ member => absurd member List.not_mem_nil

theorem below_append {stop : Nat} {reads more : List Nat} :
    Below stop (reads ++ more) ↔ Below stop reads ∧ Below stop more := List.forall_mem_append

theorem strncmpReads_within (find s : Bytes) (p : Nat) :
    Below (p + find.length) (strncmpReads find s p) := by
  induction find generalizing s p with
  | nil => exact below_nil _
  | cons f find ih =>
      cases s with
      | nil => exact below_cons.mpr ⟨by simp, below_nil _⟩
      | cons d s =>
          refine below_cons.mpr ⟨by simp, ?_⟩
          split
          · have later := ih s (p + 1)
            rw [List.length_cons]
            rwa [Nat.add_assoc, Nat.add_comm 1] at later
          · exact below_nil _

/-- What ends a search in a buffer: a zero byte, an occurrence, or the pattern's first byte where
the pattern no longer fits. -/
def EndsInside (find s : Bytes) : Prop :=
  0 ∈ s ∨ find <:+: s ∨ ∃ c ∈ s.drop (s.length - (find.length - 1)), find.head? = some c

theorem endsInside_skip {c d : UInt8} {rest s : Bytes} (nonzero : d ≠ 0)
    (miss : ¬c :: rest <+: d :: s) (fits : d = c → rest.length ≤ s.length) :
    EndsInside (c :: rest) (d :: s) ↔ EndsInside (c :: rest) s := by
  have tail : c ∈ (d :: s).drop (s.length + 1 - rest.length) ↔
      c ∈ s.drop (s.length - rest.length) := by
    by_cases long : rest.length ≤ s.length
    · rw [Nat.sub_add_comm long, List.drop_succ_cons]
    · have other : c ≠ d := fun same => long (fits same.symm)
      rw [Nat.sub_eq_zero_of_le (by omega), Nat.sub_eq_zero_of_le (by omega)]
      simp [other]
  simp [EndsInside, nonzero.symm, List.infix_cons_iff, miss, tail]

theorem strnstrReads_below (c : UInt8) (rest s beyond : Bytes) (p : Nat) :
    Below (p + s.length) (strnstrReads c rest (s ++ beyond) s.length p) ↔
      EndsInside (c :: rest) s := by
  induction s generalizing p with
  | nil =>
      have outside : p ∈ strnstrReads c rest ([] ++ beyond) 0 p := by
        cases beyond <;> exact List.mem_cons_self
      refine iff_of_false (fun below => absurd (below p outside) (Nat.lt_irrefl p)) ?_
      simp [EndsInside]
  | cons d s ih =>
      have later := ih (p + 1)
      rw [Nat.add_assoc, Nat.add_comm 1] at later
      simp only [List.cons_append, List.length_cons, strnstrReads, Nat.add_sub_cancel, below_cons]
      rw [and_iff_right (by omega)]
      split_ifs with zero empty other long found
      · exact iff_of_true (below_nil _) (.inl (by simp [zero]))
      · omega
      · rw [later]
        refine (endsInside_skip zero ?_ fun same => absurd same other).symm
        exact fun here => other (List.cons_prefix_cons.mp here).1.symm
      · have same : d = c := not_not.mp other
        refine iff_of_true (below_nil _) (.inr (.inr ⟨c, ?_, rfl⟩))
        have start : (d :: s).length - ((c :: rest).length - 1) = 0 := by
          simp only [List.length_cons]
          omega
        rw [start, same]
        exact List.mem_cons_self
      · have short : rest.length ≤ s.length := Nat.le_of_not_lt long
        have compared : Below (p + (s.length + 1)) (strncmpReads rest (s ++ beyond) (p + 1)) :=
          fun i member => (strncmpReads_within rest (s ++ beyond) (p + 1) i member).trans_le (by omega)
        rw [List.append_nil]
        refine iff_of_true compared (.inr (.inl ?_))
        have here : rest <+: s :=
          List.prefix_of_prefix_length_le found (List.prefix_append s beyond) short
        exact (List.cons_prefix_cons.mpr ⟨(not_not.mp other).symm, here⟩).isInfix
      · have short : rest.length ≤ s.length := Nat.le_of_not_lt long
        have compared : Below (p + (s.length + 1)) (strncmpReads rest (s ++ beyond) (p + 1)) :=
          fun i member => (strncmpReads_within rest (s ++ beyond) (p + 1) i member).trans_le (by omega)
        rw [below_append, and_iff_right compared, later]
        refine (endsInside_skip zero ?_ fun _ => short).symm
        intro here
        exact found ((List.cons_prefix_cons.mp here).2.trans (List.prefix_append s beyond))

/-! ## What is found -/

def LeastAt (find text : Bytes) : Option Nat → Prop
  | some n => find <+: text.drop n ∧ ∀ m < n, ¬find <+: text.drop m
  | none => ∀ n, ¬find <+: text.drop n

theorem prefix_text_iff {find s : Bytes} (nonempty : find ≠ []) (plain : 0 ∉ find) (n : Nat) :
    find <+: (s.takeWhile (· ≠ 0)).drop n ↔ find <+: s.drop n ∧ 0 ∉ s.take n := by
  have nonzero {text : Bytes} (absent : 0 ∉ text) : ∀ c ∈ text, decide (c ≠ 0) = true :=
    fun c member => decide_eq_true fun zero => absent (zero ▸ member)
  constructor
  · intro here
    have inside : n ≤ (s.takeWhile (· ≠ 0)).length := by
      by_contra outside
      rw [List.drop_of_length_le (by omega)] at here
      exact nonempty (List.prefix_nil.mp here)
    have cut : s.takeWhile (· ≠ 0) <+: s := List.takeWhile_prefix _
    refine ⟨here.trans (cut.drop n), ?_⟩
    have same : s.take n = (s.takeWhile (· ≠ 0)).take n := by
      conv_lhs => rw [← List.takeWhile_append_dropWhile (p := (· ≠ 0)) (l := s)]
      exact List.take_append_of_le_length inside
    intro member
    rw [same] at member
    have zero := List.mem_takeWhile_imp (List.mem_of_mem_take member)
    exact absurd zero (by simp)
  · rintro ⟨⟨v, split_⟩, before⟩
    have inside : n ≤ s.length := by
      by_contra outside
      rw [List.drop_of_length_le (by omega)] at split_
      exact nonempty (List.append_eq_nil_iff.mp split_).1
    have text : s.takeWhile (· ≠ 0) = s.take n ++ (find ++ v.takeWhile (· ≠ 0)) := by
      conv_lhs => rw [← List.take_append_drop n s, ← split_]
      rw [List.takeWhile_append_of_pos (nonzero before), List.takeWhile_append_of_pos (nonzero plain)]
    rw [text, List.drop_left' (List.length_take_of_le inside)]
    exact List.prefix_append find _

theorem firstAt_text_iff {find s : Bytes} (nonempty : find ≠ []) (plain : 0 ∉ find) (n : Nat) :
    FirstAt find s n ↔ LeastAt find (s.takeWhile (· ≠ 0)) (some n) := by
  constructor
  · rintro ⟨here, before, first⟩
    refine ⟨(prefix_text_iff nonempty plain n).mpr ⟨here, before⟩, ?_⟩
    intro m less found
    exact first m less ((prefix_text_iff nonempty plain m).mp found).1
  · rintro ⟨here, first⟩
    obtain ⟨here, before⟩ := (prefix_text_iff nonempty plain n).mp here
    refine ⟨here, before, ?_⟩
    intro m less found
    have before : 0 ∉ s.take m :=
      fun member => before ((List.take_prefix_take_left less.le).subset member)
    exact first m less ((prefix_text_iff nonempty plain m).mpr ⟨found, before⟩)

theorem strnstrBytes_leastAt {find : Bytes} (nonempty : find ≠ []) (plain : 0 ∉ find)
    (s beyond : Bytes) :
    LeastAt find (s.takeWhile (· ≠ 0)) (strnstrBytes (s ++ beyond) 0 find s.length) := by
  have answers (n : Nat) : strnstrBytes (s ++ beyond) 0 find s.length = some n ↔
      LeastAt find (s.takeWhile (· ≠ 0)) (some n) := by
    cases find with
    | nil => exact absurd rfl nonempty
    | cons c rest =>
        have nonzero : c ≠ 0 := fun zero => plain (zero ▸ List.mem_cons_self)
        rw [← firstAt_text_iff nonempty plain, strnstrBytes, List.drop_zero, strnstrLoop_append,
          strnstrLoop_iff nonzero]
        simp only [Nat.zero_add, exists_eq_left']
  cases result : strnstrBytes (s ++ beyond) 0 find s.length with
  | some n => exact (answers n).mp result
  | none =>
      intro n here
      -- Where the pattern stands at all, it stands first somewhere.
      have some : ∃ n, find <+: (s.takeWhile (· ≠ 0)).drop n := ⟨n, here⟩
      have least := (answers (Nat.find some)).mpr ⟨Nat.find_spec some, fun m => Nat.find_min some⟩
      cases result.symm.trans least

def SearchesBuffer (find s beyond : Bytes) : Prop :=
  (∀ i ∈ strnstrBytesReads (s ++ beyond) 0 find s.length, i < s.length) ∧
    LeastAt find (s.takeWhile (· ≠ 0)) (strnstrBytes (s ++ beyond) 0 find s.length)

/-- The answer is always right; the byte behind the buffer is read when nothing ends the search. -/
theorem substring_search (find s beyond : Bytes) (nonempty : find ≠ []) (plain : 0 ∉ find) :
    SearchesBuffer find s beyond ↔ EndsInside find s := by
  rw [SearchesBuffer, and_iff_left (strnstrBytes_leastAt nonempty plain s beyond)]
  cases find with
  | nil => exact absurd rfl nonempty
  | cons c rest =>
      have below := strnstrReads_below c rest s beyond 0
      rw [Nat.zero_add] at below
      exact below

theorem substring_search_small :
    SearchesBuffer (ascii "filename=") (ascii "form-data; filename=a") [0] ↔
      EndsInside (ascii "filename=") (ascii "form-data; filename=a") :=
  substring_search (ascii "filename=") (ascii "form-data; filename=a") [0] (by decide) (by decide)

theorem search_reads_behind :
    ¬SearchesBuffer (ascii "filename=") (ascii "form-data") [13] := by
  rintro ⟨reads, -⟩
  have behind : 9 ∈ strnstrBytesReads (ascii "form-data" ++ [13]) 0 (ascii "filename=") 9 := by
    decide
  exact absurd (reads 9 behind) (by decide)

end Ximg
