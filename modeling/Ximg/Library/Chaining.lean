import Mathlib.Data.List.TakeDrop
import Mathlib.Tactic.Linarith
import Mathlib.Tactic.Ring

/-!
# Hashing block by block

A state is pushed through a compression function by the successive blocks of a text. A text that
arrives in pieces is kept as the state after its full blocks, with what follows them.
-/

namespace Chaining

variable {S A : Type} (n : Nat) (compress : S → List A → S)

def blocks : Nat → S → List A → S
  | 0, s, _ => s
  | k + 1, s, m => blocks k (compress s (m.take n)) (m.drop n)

def absorb (s : S) (m : List A) : S := blocks n compress (m.length / n) s m

def pending (m : List A) : List A := m.drop (m.length / n * n)

variable {n compress}

theorem blocks_add (j k : Nat) (s : S) (m : List A) :
    blocks n compress (j + k) s m =
      blocks n compress k (blocks n compress j s m) (m.drop (j * n)) := by
  induction j generalizing s m with
  | zero => simp [blocks]
  | succ j ih =>
      have count : j + 1 + k = (j + k) + 1 := by omega
      rw [count, blocks, ih, blocks, List.drop_drop]
      congr 2
      ring

theorem blocks_append {k : Nat} (s : S) {m : List A} (rest : List A) (long : k * n ≤ m.length) :
    blocks n compress k s (m ++ rest) = blocks n compress k s m := by
  induction k generalizing s m with
  | zero => rfl
  | succ k ih =>
      rw [Nat.add_mul, Nat.one_mul] at long
      have first : n ≤ m.length := by omega
      rw [blocks, blocks, List.take_append_of_le_length first, List.drop_append_of_le_length first]
      apply ih
      rw [List.length_drop]
      omega

theorem length_pending (m : List A) : (pending n m).length = m.length % n := by
  have whole := Nat.div_add_mod m.length n
  rw [pending, List.length_drop, Nat.mul_comm]
  omega

theorem blockCount_append (positive : 0 < n) (m c : List A) :
    (m ++ c).length / n = m.length / n + (pending n m ++ c).length / n := by
  have split := Nat.mod_add_div m.length n
  calc (m ++ c).length / n
      = (m.length % n + c.length + n * (m.length / n)) / n := by
        rw [List.length_append]
        congr 1
        omega
    _ = m.length / n + (m.length % n + c.length) / n := by
        rw [Nat.add_mul_div_left _ _ positive, Nat.add_comm]
    _ = m.length / n + (pending n m ++ c).length / n := by rw [List.length_append, length_pending]

theorem blockCount_block (positive : 0 < n) {m : List A} (long : n ≤ m.length) :
    m.length / n = (m.drop n).length / n + 1 := by
  rw [List.length_drop, Nat.div_eq_sub_div positive long]

theorem absorb_append (positive : 0 < n) (s : S) (m c : List A) :
    absorb n compress s (m ++ c) =
      absorb n compress (absorb n compress s m) (pending n m ++ c) := by
  have count := blockCount_append positive m c
  have whole : m.length / n * n ≤ m.length := Nat.div_mul_le_self _ _
  rw [absorb, count, blocks_add, blocks_append s c whole, List.drop_append_of_le_length whole]
  rfl

theorem pending_append (positive : 0 < n) (m c : List A) :
    pending n (m ++ c) = pending n (pending n m ++ c) := by
  have count := blockCount_append positive m c
  have whole : m.length / n * n ≤ m.length := Nat.div_mul_le_self _ _
  rw [pending, count, Nat.add_mul, ← List.drop_drop, List.drop_append_of_le_length whole]
  rfl

theorem absorb_short (s : S) {m : List A} (short : m.length < n) : absorb n compress s m = s := by
  rw [absorb, Nat.div_eq_of_lt short]
  rfl

theorem pending_short {m : List A} (short : m.length < n) : pending n m = m := by
  rw [pending, Nat.div_eq_of_lt short, Nat.zero_mul, List.drop_zero]

theorem absorb_block (positive : 0 < n) (s : S) {m : List A} (long : n ≤ m.length) :
    absorb n compress s m = absorb n compress (compress s (m.take n)) (m.drop n) := by
  have count := blockCount_block positive long
  rw [absorb, count]
  rfl

theorem pending_block (positive : 0 < n) {m : List A} (long : n ≤ m.length) :
    pending n m = pending n (m.drop n) := by
  have count := blockCount_block positive long
  rw [pending, count, pending, List.drop_drop]
  congr 1
  ring

end Chaining
