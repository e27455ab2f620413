import Ximg.Xlist

/-!
# What a linked list represents

The nodes that the links lead through, over whole sequences of calls.
-/

namespace Ximg
open Memory

variable {α : Type}

/-- The list consists of the given nodes: the links lead from `head` through them and end, and `tail`
is the last one. -/
structure Represents (m : ListMem α) (nodes : List (Nat × α)) : Prop where
  chain : Chain m.heap none m.list.head nodes
  tail : m.list.tail = nodes.getLast?.map Prod.fst
  distinct : (nodes.map Prod.fst).Nodup

section Loops
variable {heap : Heap (ListNode α)} {p : Option Nat} {nodes front : List (Nat × α)} {turns : Nat}

theorem operatorLoop_chain (chain : Chain heap none p nodes) (enough : nodes.length ≤ turns) :
    operatorLoop heap turns p = some (nodes.map Prod.snd) := by
  induction nodes generalizing p turns with
  | nil =>
      cases chain
      cases turns <;> rfl
  | cons node nodes ih =>
      obtain ⟨rfl, next, here, rest⟩ := chain
      cases turns with
      | zero => cases enough
      | succ turns =>
          rw [operatorLoop, here]
          simp [ih rest (Nat.le_of_succ_le_succ enough)]

def upTo (found : α → Bool) : List α → List α
  | [] => []
  | x :: xs => x :: if found x then [] else upTo found xs

theorem getNodeLoop_chain (compare : α → α → Int32) (data : α) (chain : Chain heap none p nodes)
    (enough : nodes.length ≤ turns) :
    getNodeLoop heap compare data turns p =
      some ((nodes.find? fun node => compare node.2 data = 0).map Prod.fst,
        upTo (fun x => compare x data = 0) (nodes.map Prod.snd)) := by
  induction nodes generalizing p turns with
  | nil =>
      cases chain
      cases turns <;> rfl
  | cons node nodes ih =>
      obtain ⟨rfl, next, here, rest⟩ := chain
      cases turns with
      | zero => cases enough
      | succ turns =>
          rw [getNodeLoop, here]
          by_cases found : compare node.2 data = 0
          · simp [found, upTo]
          · simp [found, upTo, ih rest (Nat.le_of_succ_le_succ enough)]

theorem beforeLoop_chain {node t : Nat} {y : α}
    (chain : Chain heap (some node) p (front ++ [(t, y)]))
    (absent : node ∉ (front ++ [(t, y)]).map Prod.fst) (enough : front.length < turns) :
    beforeLoop heap node turns p = some (some t) := by
  induction front generalizing p turns with
  | nil =>
      obtain ⟨rfl, next, here, stop⟩ := chain
      cases stop
      cases turns with
      | zero => cases enough
      | succ turns =>
          rw [beforeLoop, here]
          simp
  | cons first front ih =>
      obtain ⟨rfl, next, here, rest⟩ := chain
      rw [List.cons_append, List.map_cons, List.mem_cons, not_or] at absent
      obtain ⟨a, member, rfl⟩ := rest.starts (by simp)
      have other : some a ≠ some node := by
        intro same
        cases same
        exact absent.2 member
      cases turns with
      | zero => cases enough
      | succ turns =>
          rw [beforeLoop, here]
          simp only [Option.bind_eq_bind, Option.bind_some, if_pos other]
          exact ih rest absent.2 (Nat.lt_of_succ_lt_succ enough)

end Loops

/-! ## One call -/

section Calls
variable {m : ListMem α} {nodes front back : List (Nat × α)} {node : Nat} {x : α}

theorem Represents.enough (rep : Represents m nodes) : nodes.length ≤ m.heap.keys.length := by
  have bound := length_le_size rep.distinct rep.chain.used
  rwa [List.length_map] at bound

theorem Represents.absent (rep : Represents m nodes) (fresh : node ∉ m.heap) :
    node ∉ nodes.map Prod.fst :=
  fun member => fresh (rep.chain.used node member)

theorem initializeList_represents (heap : Heap (ListNode α)) :
    Represents (initializeList heap) [] :=
  ⟨rfl, rfl, List.nodup_nil⟩

theorem addHead_represents (rep : Represents m nodes) (fresh : node ∉ m.heap) :
    Represents (addHead m node x) ((node, x) :: nodes) := by
  have absent := rep.absent fresh
  have distinct : (((node, x) :: nodes).map Prod.fst).Nodup :=
    List.nodup_cons.mpr ⟨absent, rep.distinct⟩
  cases nodes with
  | nil =>
      have head : m.list.head = none := rep.chain
      rw [addHead, if_pos head]
      exact ⟨⟨rfl, none, AList.lookup_insert _, rfl⟩, rfl, distinct⟩
  | cons first nodes =>
      have head : m.list.head ≠ none := by simp [rep.chain.1]
      rw [addHead, if_neg head]
      refine ⟨⟨rfl, m.list.head, AList.lookup_insert _, rep.chain.insert absent _⟩, ?_, distinct⟩
      rw [List.getLast?_cons_cons]
      exact rep.tail

theorem addTail_represents (rep : Represents m nodes) (fresh : node ∉ m.heap) :
    ∃ m', addTail m node x = some m' ∧ Represents m' (nodes ++ [(node, x)]) := by
  have absent := rep.absent fresh
  have distinct : ((nodes ++ [(node, x)]).map Prod.fst).Nodup := by
    rw [List.map_append]
    refine List.nodup_append.mpr ⟨rep.distinct, List.nodup_singleton _, ?_⟩
    intro a member b last same
    rw [same, List.mem_singleton.mp last] at member
    exact absent member
  rw [addTail]
  cases nodes.eq_nil_or_concat' with
  | inl none =>
      subst none
      have head : m.list.head = none := rep.chain
      rw [if_pos head]
      exact ⟨_, rfl, ⟨rfl, none, AList.lookup_insert _, rfl⟩, rfl, distinct⟩
  | inr last =>
      obtain ⟨front, ⟨t, y⟩, rfl⟩ := last
      have tail : m.list.tail = some t := by
        rw [rep.tail]
        simp
      obtain ⟨a, -, head⟩ := rep.chain.starts (by simp)
      obtain ⟨p, front', rfl, next, here, rfl⟩ := chain_append.mp rep.chain
      have apart : t ∉ front.map Prod.fst := by
        have := rep.distinct
        rw [List.map_append, List.nodup_append] at this
        exact fun member => this.2.2 t member t (by simp) rfl
      rw [List.map_append, List.mem_append, not_or] at absent
      have other : t ≠ node := fun same => absent.2 (by simp [same])
      have last : (m.heap.insert node ⟨x, none⟩).lookup t = some ⟨y, none⟩ :=
        (AList.lookup_insert_ne other).trans here
      have some_ : m.list.head ≠ none := by simp [head]
      rw [if_neg some_, tail]
      simp only [Option.bind_eq_bind, Option.bind_some, last]
      refine ⟨_, rfl, ?_, ?_, distinct⟩
      · rw [List.append_assoc]
        refine chain_append.mpr ⟨some t, (front'.insert absent.1 _).insert apart _, ?_⟩
        refine ⟨rfl, some node, AList.lookup_insert _, rfl, none, ?_, rfl⟩
        rw [AList.lookup_insert_ne other.symm]
        exact AList.lookup_insert _
      · simp

theorem deleteNode_chain (rep : Represents m (front ++ (node, x) :: back)) :
    ∃ m', deleteNode m node = some m' ∧ Chain m'.heap none m'.list.head (front ++ back) ∧
      m'.list.tail = if front ++ back = [] then none else m.list.tail := by
  obtain ⟨p, frontChain, rfl, next, here, backChain⟩ := chain_append.mp rep.chain
  have used : node ∈ m.heap := AList.lookup_isSome.mp (by rw [here]; rfl)
  have distinct := rep.distinct
  rw [List.map_append, List.map_cons, List.nodup_append] at distinct
  obtain ⟨frontDistinct, rest, apart⟩ := distinct
  have notBack := (List.nodup_cons.mp rest).1
  have notFront : node ∉ front.map Prod.fst :=
    fun member => apart node member node List.mem_cons_self rfl
  rw [deleteNode]
  cases front.eq_nil_or_concat' with
  | inl none =>
      subst none
      have head : m.list.head = some node := frontChain
      rw [if_pos head, here, freeNode, if_pos used]
      simp only [Option.bind_eq_bind, Option.bind_some, List.nil_append]
      cases next with
      | none =>
          have empty : back = [] := by
            by_contra some_
            obtain ⟨a, -, same⟩ := backChain.starts some_
            cases same
          subst empty
          exact ⟨_, rfl, rfl, rfl⟩
      | some next =>
          have some_ : back ≠ [] := by
            rintro rfl
            cases backChain
          rw [if_neg (by simp), if_neg some_]
          exact ⟨_, rfl, backChain.erase notBack, rfl⟩
  | inr last =>
      obtain ⟨front, ⟨t, y⟩, rfl⟩ := last
      obtain ⟨a, member, head⟩ := frontChain.starts (by simp)
      have notHead : m.list.head ≠ some node := by
        rw [head]
        intro same
        cases same
        exact notFront member
      have enough : front.length < m.heap.keys.length := by
        have := rep.enough
        simp only [List.length_append, List.length_singleton] at this
        omega
      have before := beforeLoop_chain frontChain notFront enough
      obtain ⟨p, frontChain, rfl, next', last, stop⟩ := chain_append.mp frontChain
      cases stop
      rw [List.map_append, List.mem_append, not_or] at notFront
      have other : t ≠ node := fun same => notFront.2 (by simp [same])
      have notLast : t ∉ front.map Prod.fst := by
        rw [List.map_append, List.nodup_append] at frontDistinct
        exact fun member => frontDistinct.2.2 t member t (by simp) rfl
      have after : t ∉ back.map Prod.fst :=
        fun member => apart t (by simp) t (List.mem_cons_of_mem _ member) rfl
      have used' : node ∈ m.heap.insert t (⟨y, next⟩ : ListNode α) := AList.mem_insert _ |>.mpr (.inr used)
      rw [if_neg notHead, before]
      simp only [Option.bind_eq_bind, Option.bind_some, last, here, freeNode, if_pos used']
      refine ⟨_, rfl, ?_, by simp⟩
      rw [List.append_assoc]
      refine chain_append.mpr ⟨some t, (frontChain.insert notLast _).erase notFront.1, ?_⟩
      refine ⟨rfl, next, ?_, (backChain.insert after _).erase notBack⟩
      rw [AList.lookup_erase_ne other]
      exact AList.lookup_insert _

/-- Only an empty list is freed without a look at a node that is no longer in use. -/
theorem freeLinkedList_iff (rep : Represents m nodes) :
    (freeLinkedList m).isSome ↔ nodes = [] := by
  unfold freeLinkedList
  cases nodes with
  | nil =>
      rw [show m.list.head = none from rep.chain]
      simp [freeLoop]
  | cons node nodes =>
      obtain ⟨head, next, here, -⟩ := rep.chain
      rw [head]
      refine iff_of_false ?_ (List.cons_ne_nil _ _)
      cases m.heap.keys.length with
      | zero => simp [freeLoop]
      | succ turns =>
          rw [freeLoop, freeNode]
          split <;> simp

end Calls

/-! ## Sequences of calls -/

inductive ListCall (α : Type) where
  | addHead (node : Nat) (data : α)
  | addTail (node : Nat) (data : α)
  | deleteNode (node : Nat)

namespace ListCall

def apply (m : ListMem α) : ListCall α → Option (ListMem α)
  | addHead node data => some (Ximg.addHead m node data)
  | addTail node data => Ximg.addTail m node data
  | deleteNode node => Ximg.deleteNode m node

def meaning (nodes : List (Nat × α)) : ListCall α → List (Nat × α)
  | addHead node data => (node, data) :: nodes
  | addTail node data => nodes ++ [(node, data)]
  | deleteNode node => nodes.filter fun n => n.1 ≠ node

/-- A new node was not in use, and a deleted one is in the list. -/
def Legal (m : ListMem α) (nodes : List (Nat × α)) : ListCall α → Prop
  | addHead node _ | addTail node _ => node ∉ m.heap
  | deleteNode node => node ∈ nodes.map Prod.fst

instance (m : ListMem α) (nodes : List (Nat × α)) : (call : ListCall α) →
    Decidable (call.Legal m nodes)
  | addHead node _ => inferInstanceAs (Decidable (node ∉ m.heap))
  | addTail node _ => inferInstanceAs (Decidable (node ∉ m.heap))
  | deleteNode node => inferInstanceAs (Decidable (node ∈ nodes.map Prod.fst))

def SparesLast (nodes : List (Nat × α)) : ListCall α → Prop
  | addHead _ _ | addTail _ _ => True
  | deleteNode node => ¬(2 ≤ nodes.length ∧ nodes.getLast?.map Prod.fst = some node)

end ListCall

def LegalCalls (m : ListMem α) (nodes : List (Nat × α)) : List (ListCall α) → Prop
  | [] => True
  | call :: calls => call.Legal m nodes ∧
      ∀ m', call.apply m = some m' → LegalCalls m' (call.meaning nodes) calls

def SpareLast (nodes : List (Nat × α)) : List (ListCall α) → Prop
  | [] => True
  | call :: calls => call.SparesLast nodes ∧ SpareLast (call.meaning nodes) calls

def Faithfully (m : ListMem α) (nodes : List (Nat × α)) : Prop :=
  Represents m nodes ∧ operatorLinkedList m = some (nodes.map Prod.snd) ∧
    ∀ compare data, getNode m compare data =
      some ((nodes.find? fun node => compare node.2 data = 0).map Prod.fst,
        upTo (fun x => compare x data = 0) (nodes.map Prod.snd))

/-- Every call of a sequence returns, and the list is faithful before and after each. -/
def HoldsThroughout (m : ListMem α) (nodes : List (Nat × α)) : List (ListCall α) → Prop
  | [] => Faithfully m nodes
  | call :: calls => Faithfully m nodes ∧
      ∃ m', call.apply m = some m' ∧ HoldsThroughout m' (call.meaning nodes) calls

section Sequences
variable {m m' : ListMem α} {nodes front back : List (Nat × α)} {node : Nat} {x : α}

theorem Represents.faithfully (rep : Represents m nodes) : Faithfully m nodes :=
  ⟨rep, operatorLoop_chain rep.chain rep.enough,
    fun compare data => getNodeLoop_chain compare data rep.chain rep.enough⟩

theorem apart_middle (distinct : ((front ++ (node, x) :: back).map Prod.fst).Nodup) :
    ∀ n ∈ front ++ back, n.1 ≠ node := by
  rw [List.map_append, List.map_cons, List.nodup_middle, List.nodup_cons] at distinct
  intro n member same
  apply distinct.1
  rw [← List.map_append]
  exact List.mem_map.mpr ⟨n, member, same⟩

theorem filter_middle (distinct : ((front ++ (node, x) :: back).map Prod.fst).Nodup) :
    (front ++ (node, x) :: back).filter (fun n => n.1 ≠ node) = front ++ back := by
  have apart := apart_middle distinct
  have kept : (front ++ back).filter (fun n => n.1 ≠ node) = front ++ back :=
    List.filter_eq_self.mpr fun n member => decide_eq_true (apart n member)
  rw [List.filter_append] at kept
  rw [List.filter_append, List.filter_cons_of_neg (by simp), kept]

theorem deleteNode_represents_iff (rep : Represents m nodes) (member : node ∈ nodes.map Prod.fst) :
    ∃ m', deleteNode m node = some m' ∧
      (Represents m' (nodes.filter fun n => n.1 ≠ node) ↔
        ¬(2 ≤ nodes.length ∧ nodes.getLast?.map Prod.fst = some node)) := by
  obtain ⟨⟨node, x⟩, listed, rfl⟩ := List.mem_map.mp member
  obtain ⟨front, back, rfl⟩ := List.append_of_mem listed
  obtain ⟨m', same, chain, tail⟩ := deleteNode_chain rep
  have apart := apart_middle rep.distinct
  have distinct : ((front ++ back).map Prod.fst).Nodup :=
    rep.distinct.sublist (((List.sublist_cons_self _ _).append_left front).map _)
  rw [filter_middle rep.distinct]
  refine ⟨m', same, ?_⟩
  have represents : Represents m' (front ++ back) ↔
      m'.list.tail = (front ++ back).getLast?.map Prod.fst :=
    ⟨fun rep' => rep'.tail, fun tail => ⟨chain, tail, distinct⟩⟩
  rw [represents, tail, rep.tail]
  cases back.eq_nil_or_concat' with
  | inl none =>
      subst none
      cases front.eq_nil_or_concat' with
      | inl none =>
          subst none
          simp
      | inr last =>
          -- The node was the last of several, and `tail` still leads to it.
          obtain ⟨front, t, rfl⟩ := last
          have other : node ≠ t.1 := (apart t (by simp)).symm
          simp [other]
  | inr last =>
      obtain ⟨back, t, rfl⟩ := last
      have other : t.1 ≠ node := apart t (by simp)
      have some_ : front ++ (back ++ [t]) ≠ [] := by simp
      have last : (front ++ (node, x) :: (back ++ [t])).getLast? = some t := by
        rw [← List.cons_append, ← List.append_assoc, List.getLast?_concat]
      rw [if_neg some_, last, ← List.append_assoc, List.getLast?_concat]
      simp [other]

theorem call_represents_iff (rep : Represents m nodes) {call : ListCall α}
    (legal : call.Legal m nodes) :
    ∃ m', call.apply m = some m' ∧
      (Represents m' (call.meaning nodes) ↔ call.SparesLast nodes) := by
  cases call with
  | addHead node data => exact ⟨_, rfl, iff_of_true (addHead_represents rep legal) trivial⟩
  | addTail node data =>
      obtain ⟨m', same, rep'⟩ := addTail_represents (x := data) rep legal
      exact ⟨m', same, iff_of_true rep' trivial⟩
  | deleteNode node => exact deleteNode_represents_iff rep legal

theorem holdsThroughout_iff (rep : Represents m nodes) (calls : List (ListCall α))
    (legal : LegalCalls m nodes calls) :
    HoldsThroughout m nodes calls ↔ SpareLast nodes calls := by
  induction calls generalizing m nodes with
  | nil => exact iff_of_true rep.faithfully trivial
  | cons call calls ih =>
      obtain ⟨m', same, kept⟩ := call_represents_iff rep legal.1
      have later := legal.2 m' same
      constructor
      · rintro ⟨-, m'', same', holds⟩
        cases same.symm.trans same'
        have rep' : Represents m' (call.meaning nodes) := by
          cases calls with
          | nil => exact holds.1
          | cons _ _ => exact holds.1.1
        exact ⟨kept.mp rep', (ih rep' later).mp holds⟩
      · rintro ⟨spares, rest⟩
        have rep' := kept.mpr spares
        exact ⟨rep.faithfully, m', same, (ih rep' later).mpr rest⟩

end Sequences

/-- From an empty list on, the list represents its elements throughout unless a call deletes the last
of several nodes: that leaves `tail` at the node that was freed. -/
theorem list_represented (heap : Heap (ListNode α)) (calls : List (ListCall α))
    (legal : LegalCalls (initializeList heap) [] calls) :
    HoldsThroughout (initializeList heap) [] calls ↔ SpareLast [] calls :=
  holdsThroughout_iff (initializeList_represents heap) calls legal

def queueCalls : List (ListCall Nat) := [.addTail 1 10, .addTail 2 20, .deleteNode 1, .addTail 1 30]

theorem queueCalls_legal : LegalCalls (initializeList ∅) [] queueCalls := by
  refine ⟨AList.notMem_empty 1, fun m first => ?_⟩
  cases first
  refine ⟨by decide, fun m second => ?_⟩
  cases second
  refine ⟨by decide, fun m third => ?_⟩
  cases third
  exact ⟨by decide, fun _ _ => trivial⟩

theorem list_represented_small :
    HoldsThroughout (initializeList ∅) [] queueCalls ↔ SpareLast [] queueCalls :=
  list_represented ∅ queueCalls queueCalls_legal

/-- After the deletion of the last element, `addTail` writes to the node that was freed. -/
theorem tail_stays : ¬HoldsThroughout (initializeList ∅) []
    ([.addTail 1 10, .addTail 2 20, .deleteNode 2, .addTail 3 30] : List (ListCall Nat)) := by
  rintro ⟨-, m, first, -, m', second, -, m'', third, ⟨rep, -⟩, -⟩
  cases first
  cases second
  cases third
  exact absurd rep.tail (by decide)

end Ximg
