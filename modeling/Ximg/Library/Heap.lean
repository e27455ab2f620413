import Mathlib.Data.List.AList

/-!
# Linked cells in a heap

A heap gives the cells in use by address. A chain is the list of cells that the links lead through.
-/

namespace Memory

/-- The cells in use; `NULL` is no address. -/
abbrev Heap (β : Type) := AList fun _ : Nat => β

theorem length_le_size {β : Type} {h : Heap β} {addresses : List Nat} (distinct : addresses.Nodup)
    (used : ∀ a ∈ addresses, a ∈ h) : addresses.length ≤ h.keys.length :=
  (List.subperm_of_subset distinct fun a member => AList.mem_keys.mp (used a member)).length_le

structure Cell (α : Type) where
  data : α
  next : Option Nat
  deriving DecidableEq

/-- The links from `p` on lead through the given cells, and then to `q`. -/
def Chain {α : Type} (h : Heap (Cell α)) (q : Option Nat) : Option Nat → List (Nat × α) → Prop
  | p, [] => p = q
  | p, (a, x) :: rest => p = some a ∧ ∃ next, h.lookup a = some ⟨x, next⟩ ∧ Chain h q next rest

section Chains
variable {α : Type} {h h' : Heap (Cell α)} {p q : Option Nat} {nodes more : List (Nat × α)}

theorem chain_append :
    Chain h q p (nodes ++ more) ↔ ∃ m, Chain h m p nodes ∧ Chain h q m more := by
  induction nodes generalizing p with
  | nil => simp [Chain]
  | cons node nodes ih =>
      simp only [List.cons_append, Chain, ih]
      constructor
      · rintro ⟨start, next, here, m, front, back⟩
        exact ⟨m, ⟨start, next, here, front⟩, back⟩
      · rintro ⟨m, ⟨start, next, here, front⟩, back⟩
        exact ⟨start, next, here, m, front, back⟩

theorem Chain.frame (chain : Chain h q p nodes)
    (same : ∀ node ∈ nodes, h'.lookup node.1 = h.lookup node.1) : Chain h' q p nodes := by
  induction nodes generalizing p with
  | nil => exact chain
  | cons node nodes ih =>
      obtain ⟨start, next, here, rest⟩ := chain
      refine ⟨start, next, (same node List.mem_cons_self).trans here, ih rest ?_⟩
      exact fun node member => same node (List.mem_cons_of_mem _ member)

theorem Chain.insert {a : Nat} (chain : Chain h q p nodes) (absent : a ∉ nodes.map Prod.fst)
    (cell : Cell α) : Chain (h.insert a cell) q p nodes := by
  apply chain.frame
  intro node member
  exact AList.lookup_insert_ne fun same => absent (same ▸ List.mem_map_of_mem member)

theorem Chain.erase {a : Nat} (chain : Chain h q p nodes) (absent : a ∉ nodes.map Prod.fst) :
    Chain (h.erase a) q p nodes := by
  apply chain.frame
  intro node member
  exact AList.lookup_erase_ne fun same => absent (same ▸ List.mem_map_of_mem member)

theorem Chain.starts (chain : Chain h q p nodes) (some_ : nodes ≠ []) :
    ∃ a ∈ nodes.map Prod.fst, p = some a := by
  cases nodes with
  | nil => exact absurd rfl some_
  | cons node nodes => exact ⟨node.1, List.mem_cons_self, chain.1⟩

theorem Chain.used (chain : Chain h q p nodes) : ∀ a ∈ nodes.map Prod.fst, a ∈ h := by
  induction nodes generalizing p with
  | nil => exact fun a member => absurd member List.not_mem_nil
  | cons node nodes ih =>
      obtain ⟨-, next, here, rest⟩ := chain
      rw [List.map_cons, List.forall_mem_cons]
      exact ⟨AList.lookup_isSome.mp (by rw [here]; rfl), ih rest⟩

end Chains

end Memory
