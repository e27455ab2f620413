import Ximg.Library.Heap

/-!
# The linked list

A function has no result where it uses a cell that is not in use, or does not return. The address of
a new cell is an argument: `malloc` returns any that is not in use.
-/

namespace Ximg
open Memory

variable {α : Type}

abbrev ListNode := Cell

structure LinkedList where
  head : Option Nat
  tail : Option Nat
  current : Option Nat
  deriving DecidableEq

structure ListMem (α : Type) where
  heap : Heap (ListNode α)
  list : LinkedList

def initializeList (heap : Heap (ListNode α)) : ListMem α := ⟨heap, none, none, none⟩

def addHead (m : ListMem α) (node : Nat) (data : α) : ListMem α :=
  if m.list.head = none then
    ⟨m.heap.insert node ⟨data, none⟩, { m.list with tail := some node, head := some node }⟩
  else ⟨m.heap.insert node ⟨data, m.list.head⟩, { m.list with head := some node }⟩

def addTail (m : ListMem α) (node : Nat) (data : α) : Option (ListMem α) :=
  let heap := m.heap.insert node ⟨data, none⟩
  if m.list.head = none then
    some ⟨heap, { m.list with head := some node, tail := some node }⟩
  else do
    let tail ← m.list.tail
    let last ← heap.lookup tail
    return ⟨heap.insert tail { last with next := some node }, { m.list with tail := some node }⟩

/-- The loop of `getNode` from a node on: its result, and the data compared. More turns than there
are nodes in use are never taken by a loop that ends. -/
def getNodeLoop (heap : Heap (ListNode α)) (compare : α → α → Int32) (data : α) :
    Nat → Option Nat → Option (Option Nat × List α)
  | _, none => some (none, [])
  | 0, some _ => none
  | turns + 1, some node => do
      let cell ← heap.lookup node
      if compare cell.data data = 0 then return (some node, [cell.data])
      else
        let (result, compared) ← getNodeLoop heap compare data turns cell.next
        return (result, cell.data :: compared)

def getNode (m : ListMem α) (compare : α → α → Int32) (data : α) : Option (Option Nat × List α) :=
  getNodeLoop m.heap compare data m.heap.keys.length m.list.head

/-- The loop of `deleteNode`: the node before the given one, or `NULL`. -/
def beforeLoop (heap : Heap (ListNode α)) (node : Nat) : Nat → Option Nat → Option (Option Nat)
  | _, none => some none
  | 0, some _ => none
  | turns + 1, some tmp => do
      let cell ← heap.lookup tmp
      if cell.next ≠ some node then beforeLoop heap node turns cell.next else return some tmp

def freeNode (heap : Heap (ListNode α)) (node : Nat) : Option (Heap (ListNode α)) :=
  if node ∈ heap then some (heap.erase node) else none

def deleteNode (m : ListMem α) (node : Nat) : Option (ListMem α) :=
  if m.list.head = some node then do
    let head ← m.heap.lookup node
    let heap ← freeNode m.heap node
    if head.next = none then return ⟨heap, { m.list with head := none, tail := none }⟩
    else return ⟨heap, { m.list with head := head.next }⟩
  else do
    match ← beforeLoop m.heap node m.heap.keys.length m.list.head with
    | none => return ⟨← freeNode m.heap node, m.list⟩
    | some tmp =>
        let before ← m.heap.lookup tmp
        let cell ← m.heap.lookup node
        return ⟨← freeNode (m.heap.insert tmp { before with next := cell.next }) node, m.list⟩

/-- The loop of `operatorLinkedList`: the data that the operator is called for. -/
def operatorLoop (heap : Heap (ListNode α)) : Nat → Option Nat → Option (List α)
  | _, none => some []
  | 0, some _ => none
  | turns + 1, some current => do
      let cell ← heap.lookup current
      return cell.data :: (← operatorLoop heap turns cell.next)

def operatorLinkedList (m : ListMem α) : Option (List α) :=
  operatorLoop m.heap m.heap.keys.length m.list.head

/-- The loop of `freeLinkedList`. It reads the link of a node that it has just freed. -/
def freeLoop : Heap (ListNode α) → Nat → Option Nat → Option (Heap (ListNode α))
  | heap, _, none => some heap
  | _, 0, some _ => none
  | heap, turns + 1, some current => do
      let heap ← freeNode heap current
      let cell ← heap.lookup current
      freeLoop heap turns cell.next

def freeLinkedList (m : ListMem α) : Option (Heap (ListNode α)) :=
  freeLoop m.heap m.heap.keys.length m.list.head

end Ximg
