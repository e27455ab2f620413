import Ximg.Library.Text
import Mathlib

/-!
# Directory trees and path resolution

A tree maps locations to nodes. A location lists names from the innermost outwards, so that the
parent of `n :: l` is `l`. A path is walked component by component as the kernel does it, with
empty components, `.` and `..`.
-/

namespace Vfs
open Text

abbrev Loc := List Bytes

def IsName (n : Bytes) : Prop := n ≠ [] ∧ n ≠ [dot] ∧ n ≠ [dot, dot] ∧ slash ∉ n

instance (n : Bytes) : Decidable (IsName n) := inferInstanceAs (Decidable (_ ∧ _))

inductive Node where
  | dir
  | file (content : Bytes)
  deriving DecidableEq, Repr

structure Tree where
  entries : List (Loc × Node)
  /-- The location relative paths start from. -/
  cwd : Loc
  root_dir : entries.lookup [] = some .dir
  parent_dir : ∀ n l x, entries.lookup (n :: l) = some x → entries.lookup l = some .dir
  plain : ∀ n l x, entries.lookup (n :: l) = some x → IsName n

namespace Tree

def node (t : Tree) (l : Loc) : Option Node := t.entries.lookup l

theorem node_root (t : Tree) : t.node [] = some .dir := t.root_dir

theorem node_parent {t : Tree} {n : Bytes} {l : Loc} {x : Node} (h : t.node (n :: l) = some x) :
    t.node l = some .dir := t.parent_dir n l x h

theorem node_name {t : Tree} {n : Bytes} {l : Loc} {x : Node} (h : t.node (n :: l) = some x) :
    IsName n := t.plain n l x h

theorem node_below_none {t : Tree} {l : Loc} (h : t.node l ≠ some .dir) (n : Bytes) (ns : Loc) :
    t.node (ns ++ n :: l) = none := by
  induction ns with
  | nil =>
      rw [List.nil_append, ← Option.not_isSome_iff_eq_none, Option.isSome_iff_exists]
      rintro ⟨x, hx⟩
      exact h (node_parent hx)
  | cons m ns ih =>
      rw [List.cons_append, ← Option.not_isSome_iff_eq_none, Option.isSome_iff_exists]
      rintro ⟨x, hx⟩
      rw [node_parent hx] at ih
      cases ih

theorem node_under_leaf {t : Tree} {l : Loc} (leaf : ∀ n, t.node (n :: l) = none) (n : Bytes)
    (ns : Loc) : t.node (n :: ns ++ l) = none := by
  induction ns generalizing n with
  | nil => exact leaf n
  | cons m ns ih =>
      rw [← Option.not_isSome_iff_eq_none, Option.isSome_iff_exists]
      rintro ⟨x, hx⟩
      have parent : t.node (m :: ns ++ l) = some .dir := node_parent hx
      rw [ih m] at parent
      cases parent

def root : Tree where
  entries := [([], .dir)]
  cwd := []
  root_dir := rfl
  parent_dir := by
    intro n l x found
    simp [List.lookup] at found
  plain := by
    intro n l x found
    simp [List.lookup] at found

theorem node_root_tree (l : Loc) : root.node l = if l = [] then some .dir else none := by
  cases l with
  | nil => rfl
  | cons n l => simp [root, node, List.lookup]

/-! ## Adding and removing a node -/

def put (t : Tree) (n : Bytes) (l : Loc) (x : Node) : Tree :=
  if h : t.node l = some .dir ∧ IsName n ∧ t.node (n :: l) ≠ some .dir then
    { entries := (n :: l, x) :: t.entries
      cwd := t.cwd
      root_dir := by simpa [List.lookup] using t.root_dir
      parent_dir := by
        intro m k y hy
        have hk : k ≠ n :: l := by
          rintro rfl
          have hm : (m :: n :: l == n :: l) = false := by simp
          simp only [List.lookup, hm] at hy
          exact h.2.2 (t.parent_dir _ _ _ hy)
        have hl : (k == n :: l) = false := by simpa using hk
        simp only [List.lookup, hl]
        by_cases same : m :: k = n :: l
        · obtain ⟨rfl, rfl⟩ := List.cons.inj same
          exact h.1
        · have hs : (m :: k == n :: l) = false := by simpa using same
          simp only [List.lookup, hs] at hy
          exact t.parent_dir _ _ _ hy
      plain := by
        intro m k y hy
        by_cases same : m :: k = n :: l
        · obtain ⟨rfl, rfl⟩ := List.cons.inj same
          exact h.2.1
        · have hs : (m :: k == n :: l) = false := by simpa using same
          simp only [List.lookup, hs] at hy
          exact t.plain _ _ _ hy }
  else t

theorem node_put {t : Tree} {n : Bytes} {l : Loc} {x : Node} (hd : t.node l = some .dir)
    (hn : IsName n) (hf : t.node (n :: l) ≠ some .dir) (l' : Loc) :
    (t.put n l x).node l' = if l' = n :: l then some x else t.node l' := by
  rw [put, dif_pos ⟨hd, hn, hf⟩]
  unfold node
  by_cases h : l' = n :: l
  · simp [List.lookup, h]
  · have hs : (l' == n :: l) = false := by simpa using h
    simp only [List.lookup, hs, if_neg h]

@[simp] theorem put_cwd (t : Tree) (n : Bytes) (l : Loc) (x : Node) : (t.put n l x).cwd = t.cwd := by
  unfold put
  split <;> rfl

def children (t : Tree) (l : Loc) : List Bytes :=
  (t.entries.filterMap fun e => match e.1 with
    | [] => none
    | n :: l' => if l' = l then some n else none).dedup

theorem mem_children {t : Tree} {l : Loc} {n : Bytes} :
    n ∈ t.children l ↔ ∃ x, t.node (n :: l) = some x := by
  have key : (∃ x, t.node (n :: l) = some x) ↔ ∃ e ∈ t.entries, e.1 = n :: l := by
    unfold node
    induction t.entries with
    | nil => simp
    | cons e es ih =>
        obtain ⟨k, x⟩ := e
        by_cases h : n :: l = k
        · simp [List.lookup, ← h]
        · have hs : (n :: l == k) = false := by simpa using h
          simp only [List.lookup, hs, ih, List.mem_cons, exists_eq_or_imp]
          simp [Ne.symm h]
  rw [key, children, List.mem_dedup, List.mem_filterMap]
  constructor
  · rintro ⟨⟨k, x⟩, member, found⟩
    cases k with
    | nil => simp at found
    | cons m k =>
        simp only [Option.ite_none_right_eq_some, Option.some.injEq] at found
        exact ⟨_, member, by rw [found.1, found.2]⟩
  · rintro ⟨⟨k, x⟩, member, rfl⟩
    exact ⟨_, member, by simp⟩

theorem children_nodup (t : Tree) (l : Loc) : (t.children l).Nodup := List.nodup_dedup _

theorem lookup_filter_ne (es : List (Loc × Node)) (k l : Loc) :
    (es.filter fun e => e.1 ≠ k).lookup l = if l = k then none else es.lookup l := by
  induction es with
  | nil => simp
  | cons e es ih =>
      obtain ⟨j, x⟩ := e
      by_cases hj : j = k
      · subst hj
        rw [List.filter_cons_of_neg (by simp), ih]
        by_cases hl : l = j
        · simp [hl]
        · have hs : (l == j) = false := by simpa using hl
          simp [List.lookup, hs, hl]
      · rw [List.filter_cons_of_pos (by simpa using hj)]
        by_cases hl : l = j
        · subst hl
          simp [List.lookup, hj]
        · have hs : (l == j) = false := by simpa using hl
          simp only [List.lookup, hs, ih]

/-- Removes a leaf other than the root. -/
def erase (t : Tree) (n : Bytes) (l : Loc) : Tree :=
  if h : t.children (n :: l) = [] then
    { entries := t.entries.filter fun e => e.1 ≠ n :: l
      cwd := t.cwd
      root_dir := by
        rw [lookup_filter_ne, if_neg (List.cons_ne_nil n l).symm]
        exact t.root_dir
      parent_dir := by
        intro m k y hy
        rw [lookup_filter_ne] at hy ⊢
        split at hy
        · cases hy
        · rw [if_neg]
          · exact t.parent_dir _ _ _ hy
          · rintro rfl
            have : m ∈ t.children (n :: l) := mem_children.mpr ⟨y, hy⟩
            simp [h] at this
      plain := by
        intro m k y hy
        rw [lookup_filter_ne] at hy
        split at hy
        · cases hy
        · exact t.plain _ _ _ hy }
  else t

theorem node_erase {t : Tree} {n : Bytes} {l : Loc} (h : t.children (n :: l) = []) (l' : Loc) :
    (t.erase n l).node l' = if l' = n :: l then none else t.node l' := by
  rw [erase, dif_pos h]
  exact lookup_filter_ne _ _ _

@[simp] theorem erase_cwd (t : Tree) (n : Bytes) (l : Loc) : (t.erase n l).cwd = t.cwd := by
  unfold erase
  split <;> rfl

theorem children_eq_nil {t : Tree} {l : Loc} :
    t.children l = [] ↔ ∀ n, t.node (n :: l) = none := by
  rw [List.eq_nil_iff_forall_not_mem]
  refine forall_congr' fun n => ?_
  rw [mem_children, ← Option.isSome_iff_exists, Option.not_isSome_iff_eq_none]

theorem children_of_not_dir {t : Tree} {l : Loc} (h : t.node l ≠ some .dir) :
    t.children l = [] :=
  children_eq_nil.mpr fun n => node_below_none h n []

/-! ## Walking a path -/

/-- The location the components lead to from a location. The last component need not exist, but
every component is looked up in a directory. -/
def walk (t : Tree) : Loc → List Bytes → Option Loc
  | l, [] => some l
  | l, n :: ns =>
      if t.node l = some .dir then
        if n = [] ∨ n = [dot] then walk t l ns
        else if n = [dot, dot] then walk t l.tail ns
        else walk t (n :: l) ns
      else none

def start (t : Tree) (p : Bytes) : Loc := if p.head? = some slash then [] else t.cwd

def resolve (t : Tree) (p : Bytes) : Option Loc :=
  if p = [] then none else t.walk (t.start p) (p.splitOn slash)

def lookup (t : Tree) (p : Bytes) : Option Node := (t.resolve p).bind t.node

theorem walk_append (t : Tree) (l : Loc) (ns ms : List Bytes) :
    t.walk l (ns ++ ms) = (t.walk l ns).bind fun l' => t.walk l' ms := by
  induction ns generalizing l with
  | nil => rfl
  | cons n ns ih =>
      simp only [List.cons_append, walk]
      split_ifs <;> first | exact ih _ | rfl

theorem walk_name {t : Tree} {l : Loc} {n : Bytes} (hn : IsName n) (hd : t.node l = some .dir) :
    t.walk l [n] = some (n :: l) := by
  simp [walk, hd, hn.1, hn.2.1, hn.2.2.1]

theorem walk_cons_not_dir {t : Tree} {l : Loc} (hd : t.node l ≠ some .dir) (n : Bytes)
    (ns : List Bytes) : t.walk l (n :: ns) = none := by
  simp [walk, hd]

theorem walk_fresh {t : Tree} {l l' : Loc} {ns : List Bytes} (hd : t.node l ≠ none)
    (hs : ∀ n ∈ ns, slash ∉ n) (h : t.walk l ns = some l') (free : t.node l' = none) :
    ∃ n k, l' = n :: k ∧ IsName n ∧ t.node k = some .dir := by
  induction ns generalizing l with
  | nil =>
      cases h
      exact absurd free hd
  | cons n ns ih =>
      simp only [walk] at h
      have rest : ∀ m ∈ ns, slash ∉ m := fun m member => hs m (List.mem_cons_of_mem n member)
      split_ifs at h with hl special parent
      · exact ih hd rest h
      · refine ih ?_ rest h
        cases l with
        | nil => exact hd
        | cons m k => simp [node_parent hl]
      · by_cases hf : t.node (n :: l) = none
        · cases ns with
          | nil =>
              cases h
              push Not at special
              exact ⟨n, l, rfl, ⟨special.1, special.2, parent, hs n List.mem_cons_self⟩, hl⟩
          | cons m ms => simp [walk, hf] at h
        · exact ih hf rest h

theorem walk_mono {t t' : Tree} (keep : ∀ l, t.node l = some .dir → t'.node l = some .dir)
    {l l' : Loc} {ns : List Bytes} (h : t.walk l ns = some l') : t'.walk l ns = some l' := by
  induction ns generalizing l with
  | nil => exact h
  | cons n ns ih =>
      simp only [walk] at h ⊢
      split_ifs at h with hl special parent
      · rw [if_pos (keep l hl), if_pos special]
        exact ih h
      · rw [if_pos (keep l hl), if_neg special, if_pos parent]
        exact ih h
      · rw [if_pos (keep l hl), if_neg special, if_neg parent]
        exact ih h

theorem start_append (t : Tree) {p : Bytes} (q : Bytes) (hp : p ≠ []) :
    t.start (p ++ q) = t.start p := by
  cases p with
  | nil => exact absurd rfl hp
  | cons c p => rfl

theorem splitOn_append_slash (p q : Bytes) :
    (p ++ slash :: q).splitOn slash = p.splitOn slash ++ q.splitOn slash := by
  rw [List.splitOn_eq_splitOnP, List.splitOn_eq_splitOnP, List.splitOn_eq_splitOnP]
  exact List.splitOnP_append_cons _ _ (by simp)

theorem splitOn_name {n : Bytes} (h : slash ∉ n) : n.splitOn slash = [n] := by
  rw [List.splitOn_eq_splitOnP]
  refine List.splitOnP_eq_singleton ?_
  intro c member
  simpa using fun e : c = slash => h (e ▸ member)

theorem slash_not_mem_splitOn (p : Bytes) : ∀ n ∈ p.splitOn slash, slash ∉ n := by
  induction p with
  | nil => simp
  | cons c p ih =>
      rw [List.splitOn_cons_eq_if_modifyHead]
      split
      · intro n member
        rcases List.mem_cons.mp member with rfl | member
        · exact List.not_mem_nil
        · exact ih n member
      · rename_i hc
        cases hp : p.splitOn slash with
        | nil => simp
        | cons d ds =>
            intro n member
            simp only [List.modifyHead_cons, List.mem_cons] at member
            rcases member with rfl | member
            · have hd := ih d (by simp [hp])
              simp only [List.mem_cons, not_or]
              exact ⟨by simpa using fun e : slash = c => hc (by simp [e]), hd⟩
            · exact ih n (by simp [hp, member])

theorem resolve_target {t : Tree} {p : Bytes} {l : Loc} (h : t.resolve p = some l)
    (hd : t.node l ≠ some .dir) : ∃ n k, l = n :: k ∧ IsName n ∧ t.node k = some .dir := by
  cases hx : t.node l with
  | some x =>
      cases l with
      | nil => exact absurd (t.node_root) hd
      | cons n k => exact ⟨n, k, rfl, node_name hx, node_parent hx⟩
  | none =>
      unfold resolve at h
      split at h
      · cases h
      · refine walk_fresh ?_ (slash_not_mem_splitOn p) h hx
        intro missing
        cases hs : p.splitOn slash with
        | nil => exact absurd hs (List.splitOn_ne_nil _ _)
        | cons n ns => simp [hs, walk, missing] at h

theorem resolve_append (t : Tree) (p q : Bytes) :
    t.resolve (p ++ slash :: q) =
      (t.resolve (p ++ [slash])).bind fun l => t.walk l (q.splitOn slash) := by
  have hq : p ++ slash :: q ≠ [] := by simp
  have hs : t.start (p ++ slash :: q) = t.start (p ++ [slash]) := by
    rw [show p ++ slash :: q = (p ++ [slash]) ++ q by simp]
    exact start_append t q (by simp)
  rw [resolve, resolve, if_neg hq, if_neg (by simp : p ++ [slash] ≠ []), hs,
    splitOn_append_slash, splitOn_append_slash, walk_append, walk_append]
  cases h : t.walk (t.start (p ++ [slash])) (p.splitOn slash) with
  | none => rfl
  | some l =>
      simp only [Option.bind_some, List.splitOn_nil, walk, true_or, if_true]
      cases hn : q.splitOn slash with
      | nil => exact absurd hn (List.splitOn_ne_nil _ _)
      | cons n ns =>
          by_cases hd : t.node l = some .dir
          · rw [if_pos hd, Option.bind_some]
          · rw [if_neg hd, walk_cons_not_dir hd, Option.bind_none]

theorem resolve_slash_dir {t : Tree} {p : Bytes} {l : Loc} (h : t.resolve (p ++ [slash]) = some l) :
    t.node l = some .dir := by
  rw [resolve, if_neg (by simp), splitOn_append_slash, walk_append] at h
  cases hw : t.walk (t.start (p ++ [slash])) (p.splitOn slash) with
  | none => simp [hw] at h
  | some k =>
      simp only [hw, Option.bind_some, List.splitOn_nil, walk, true_or, if_true] at h
      split at h
      · cases h
        assumption
      · cases h

theorem lookup_prefix {t : Tree} {p q : Bytes} {l : Loc} (hp : p ≠ [])
    (h : t.resolve (p ++ slash :: q) = some l) : t.lookup p = some .dir := by
  rw [resolve, if_neg (by simp), splitOn_append_slash, walk_append, start_append t _ hp] at h
  rw [lookup, resolve, if_neg hp]
  cases hw : t.walk (t.start p) (p.splitOn slash) with
  | none => simp [hw] at h
  | some k =>
      simp only [hw, Option.bind_some] at h ⊢
      cases hn : q.splitOn slash with
      | nil => exact absurd hn (List.splitOn_ne_nil _ _)
      | cons n ns =>
          by_contra hd
          rw [hn, walk_cons_not_dir hd] at h
          cases h

theorem resolve_mono {t t' : Tree} (keep : ∀ l, t.node l = some .dir → t'.node l = some .dir)
    (cwd : t'.cwd = t.cwd) {p : Bytes} {l : Loc} (h : t.resolve p = some l) :
    t'.resolve p = some l := by
  unfold resolve at h ⊢
  split at h
  · cases h
  · rename_i hp
    rw [if_neg hp]
    have : t'.start p = t.start p := by simp [start, cwd]
    rw [this]
    exact walk_mono keep h

/-! ## Naming what is inside a directory -/

theorem resolve_slash (t : Tree) {p : Bytes} (hp : p ≠ []) : t.resolve (p ++ [slash]) =
    (t.resolve p).bind fun l => if t.node l = some .dir then some l else none := by
  rw [resolve, if_neg (by simp), splitOn_append_slash, walk_append, start_append t _ hp, resolve,
    if_neg hp]
  cases t.walk (t.start p) (p.splitOn slash) with
  | none => rfl
  | some l => simp [walk]

theorem resolve_dir_slash {t : Tree} {p : Bytes} {d : Loc} (h : t.resolve p = some d)
    (hd : t.node d = some .dir) : t.resolve (p ++ [slash]) = some d := by
  have hp : p ≠ [] := by
    rintro rfl
    cases h
  rw [resolve_slash t hp, h, Option.bind_some, if_pos hd]

theorem resolve_child {t : Tree} {p n : Bytes} {d : Loc} (h : t.resolve p = some d)
    (hd : t.node d = some .dir) (hn : IsName n) : t.resolve (p ++ slash :: n) = some (n :: d) := by
  rw [resolve_append, resolve_dir_slash h hd, Option.bind_some, splitOn_name hn.2.2.2]
  exact walk_name hn hd

/-! ## Anchored directories -/

/-- The directory that `p` leads to is `base`, whatever happens below `base`. -/
def Anchored (t : Tree) (p : Bytes) (base : Loc) : Prop :=
  ∀ t' : Tree, t'.cwd = t.cwd →
    (∀ l, (∀ n ns, l ≠ n :: ns ++ base) → t.node l = some .dir → t'.node l = some .dir) →
    t'.resolve (p ++ [slash]) = some base

namespace Anchored
variable {t t' : Tree} {p : Bytes} {base : Loc}

theorem resolve (h : t.Anchored p base) : t.resolve (p ++ [slash]) = some base :=
  h t rfl fun _ _ hl => hl

theorem dir (h : t.Anchored p base) : t.node base = some .dir := resolve_slash_dir h.resolve

theorem mono (h : t.Anchored p base) (cwd : t'.cwd = t.cwd)
    (keep : ∀ l, (∀ n ns, l ≠ n :: ns ++ base) → t.node l = some .dir → t'.node l = some .dir) :
    t'.Anchored p base := fun u cwd' keep' =>
  h u (cwd'.trans cwd) fun l outside hl => keep' l outside (keep l outside hl)

theorem of_empty (h : t.resolve (p ++ [slash]) = some base)
    (empty : ∀ n ns, t.node (n :: ns ++ base) = none) : t.Anchored p base := by
  intro t' cwd keep
  refine resolve_mono (fun l hl => keep l ?_ hl) cwd h
  rintro n ns rfl
  rw [empty] at hl
  cases hl

theorem resolve_below (h : t.Anchored p base) (q : Bytes) :
    t.resolve (p ++ slash :: q) = t.walk base (q.splitOn slash) := by
  rw [resolve_append, h.resolve, Option.bind_some]

theorem found (h : t.Anchored p base) (hp : p ≠ []) : t.resolve p = some base := by
  have slashed := h.resolve
  rw [resolve_slash t hp, Option.bind_eq_some_iff] at slashed
  obtain ⟨l, hl, same⟩ := slashed
  rw [hl]
  split at same
  · exact same
  · cases same

end Anchored

end Tree
end Vfs
