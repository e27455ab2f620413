import Ximg.Library.Disk

/-!
# The places a path names

A path names a location by its text alone; whether it resolves depends on the directories it passes
through. Paths are compared with the tree before and after directories are made.
-/

namespace Vfs
open Text

def enter (l : Loc) (n : Bytes) : Loc :=
  if n = [] ∨ n = [dot] then l else if n = [dot, dot] then l.tail else n :: l

def visits : Loc → List Bytes → List Loc
  | _, [] => []
  | l, n :: ns => l :: visits (enter l n) ns

theorem visits_append (l : Loc) (ns ms : List Bytes) :
    visits l (ns ++ ms) = visits l ns ++ visits (ns.foldl enter l) ms := by
  induction ns generalizing l with
  | nil => rfl
  | cons n ns ih => simp [visits, ih]

theorem paths_induction {P : Bytes → Prop} (plain : ∀ n, slash ∉ n → P n)
    (below : ∀ q n, slash ∉ n → P q → P (q ++ slash :: n)) (p : Bytes) : P p := by
  have split (p : Bytes) : slash ∉ p ∨ ∃ q n, p = q ++ slash :: n ∧ slash ∉ n := by
    induction p using List.reverseRecOn with
    | nil => exact .inl List.not_mem_nil
    | append_singleton p c ih =>
        by_cases hc : c = slash
        · exact .inr ⟨p, [], by rw [hc], List.not_mem_nil⟩
        cases ih with
        | inl absent => exact .inl (by simp [absent, Ne.symm hc])
        | inr found =>
            obtain ⟨q, n, rfl, absent⟩ := found
            exact .inr ⟨q, n ++ [c], by simp, by simp [absent, Ne.symm hc]⟩
  induction h : p.length using Nat.strong_induction_on generalizing p with
  | _ len ih =>
      cases split p with
      | inl absent => exact plain p absent
      | inr found =>
          obtain ⟨q, n, rfl, absent⟩ := found
          refine below q n absent (ih q.length ?_ q rfl)
          rw [← h, List.length_append, List.length_cons]
          omega

namespace Tree
variable {t t' : Tree} {p q : Bytes} {l k : Loc}

theorem walk_iff {ns : List Bytes} {l' : Loc} : t.walk l ns = some l' ↔
    l' = ns.foldl enter l ∧ ∀ k ∈ visits l ns, t.node k = some .dir := by
  induction ns generalizing l with
  | nil => simp [walk, visits, eq_comm]
  | cons n ns ih =>
      rw [walk, visits, List.foldl_cons, List.forall_mem_cons]
      by_cases dir : t.node l = some .dir
      · rw [if_pos dir, and_iff_right dir]
        unfold enter
        split_ifs <;> exact ih
      · simp [dir]

theorem Widens.keeps (widens : t.Widens t') : t.Keeps t' := by
  refine ⟨widens.cwd, fun l x here => ?_⟩
  cases widens.node l with
  | inl same => exact same.trans here
  | inr made =>
      rw [made.1] at here
      cases here

theorem Widens.dir_of_absent (widens : t.Widens t') (missing : t.node l = none)
    (here : (t'.node l).isSome) : t'.node l = some .dir := by
  cases widens.node l with
  | inl same => simp [same, missing] at here
  | inr made => exact made.2

def place (t : Tree) (p : Bytes) : Loc := (p.splitOn slash).foldl enter (t.start p)

def passed (t : Tree) (p : Bytes) : List Loc := visits (t.start p) (p.splitOn slash)

theorem resolve_iff : t.resolve p = some l ↔
    p ≠ [] ∧ l = t.place p ∧ ∀ k ∈ t.passed p, t.node k = some .dir := by
  rw [resolve]
  split
  · rename_i empty
    simp [empty]
  · rename_i nonempty
    rw [walk_iff, and_iff_right nonempty]
    rfl

theorem lookup_dir_iff : t.lookup p = some .dir ↔
    p ≠ [] ∧ t.node (t.place p) = some .dir ∧ ∀ k ∈ t.passed p, t.node k = some .dir := by
  rw [lookup, Option.bind_eq_some_iff]
  constructor
  · rintro ⟨l, found, dir⟩
    obtain ⟨nonempty, rfl, open_⟩ := resolve_iff.mp found
    exact ⟨nonempty, dir, open_⟩
  · rintro ⟨nonempty, dir, open_⟩
    exact ⟨t.place p, resolve_iff.mpr ⟨nonempty, rfl, open_⟩, dir⟩

theorem lookup_isSome : (t.lookup p).isSome ↔
    p ≠ [] ∧ (t.node (t.place p)).isSome ∧ ∀ k ∈ t.passed p, t.node k = some .dir := by
  rw [Option.isSome_iff_exists, Option.isSome_iff_exists]
  constructor
  · rintro ⟨x, found⟩
    obtain ⟨l, resolved, here⟩ := Option.bind_eq_some_iff.mp found
    obtain ⟨nonempty, rfl, open_⟩ := resolve_iff.mp resolved
    exact ⟨nonempty, ⟨x, here⟩, open_⟩
  · rintro ⟨nonempty, ⟨x, here⟩, open_⟩
    exact ⟨x, Option.bind_eq_some_iff.mpr ⟨t.place p, resolve_iff.mpr ⟨nonempty, rfl, open_⟩, here⟩⟩

theorem place_cwd (cwd : t'.cwd = t.cwd) (p : Bytes) : t'.place p = t.place p := by
  rw [place, place, start, start, cwd]

theorem passed_cwd (cwd : t'.cwd = t.cwd) (p : Bytes) : t'.passed p = t.passed p := by
  rw [passed, passed, start, start, cwd]

theorem place_below (hq : q ≠ []) (n : Bytes) :
    t.place (q ++ slash :: n) = (n.splitOn slash).foldl enter (t.place q) := by
  rw [place, splitOn_append_slash, List.foldl_append, start_append t _ hq]
  rfl

theorem passed_below (hq : q ≠ []) (n : Bytes) :
    t.passed (q ++ slash :: n) = t.passed q ++ visits (t.place q) (n.splitOn slash) := by
  rw [passed, splitOn_append_slash, visits_append, start_append t _ hq]
  rfl

theorem start_passed (t : Tree) (p : Bytes) : t.start p ∈ t.passed p := by
  unfold passed
  cases h : p.splitOn slash with
  | nil => exact absurd h (List.splitOn_ne_nil _ _)
  | cons n ns => exact List.mem_cons_self

theorem passed_cases (member : k ∈ t.passed p) :
    k = t.start p ∨ ∃ q, q ≠ [] ∧ q ++ [slash] <+: p ∧ k = t.place q := by
  induction p using paths_induction with
  | plain n absent =>
      rw [passed, splitOn_name absent] at member
      exact .inl (List.mem_singleton.mp member)
  | below q n absent ih =>
      have part : q ++ [slash] <+: q ++ slash :: n := ⟨n, by simp⟩
      by_cases hq : q = []
      · subst hq
        have same : (slash :: n).splitOn slash = [[], n] := by
          rw [← List.nil_append (slash :: n), splitOn_append_slash, splitOn_name absent,
            List.splitOn_nil]
          rfl
        rw [List.nil_append, passed, same] at member
        refine .inl ?_
        simpa [visits, enter] using member
      · rw [passed_below hq, splitOn_name absent, List.mem_append] at member
        cases member with
        | inl above =>
            refine (ih above).imp (fun here => ?_) ?_
            · rw [here, start_append t _ hq]
            · rintro ⟨q', nonempty, shorter, here⟩
              exact ⟨q', nonempty, shorter.trans (List.prefix_append q _), here⟩
        | inr last => exact .inr ⟨q, hq, part, List.mem_singleton.mp last⟩

end Tree
end Vfs
