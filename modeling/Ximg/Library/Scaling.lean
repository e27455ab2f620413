import Mathlib.Algebra.Order.Field.Basic
import Mathlib.Tactic.FieldSimp

/-!
# Scaling a rectangle

A rectangle of sides `a` and `b` is scaled by one rate, either to fit into a box of sides `c` and
`r` or to cover it.
-/

namespace Scaling

variable {K : Type*} [Field K] [LinearOrder K] {a b c r : K}

theorem scaled_exact (pos : 0 < a) : a * (c / a) = c := mul_div_cancel₀ c pos.ne'

def fitRate (a b c r : K) : K := min (c / a) (r / b)

def coverRate (a b c r : K) : K := max (c / a) (r / b)

theorem fit_tight (pos : 0 < a) (pos' : 0 < b) :
    a * fitRate a b c r = c ∨ b * fitRate a b c r = r := by
  cases min_choice (c / a) (r / b) with
  | inl here =>
      left
      rw [fitRate, here, scaled_exact pos]
  | inr here =>
      right
      rw [fitRate, here, scaled_exact pos']

variable [IsStrictOrderedRing K]

theorem scaled_le (pos : 0 < a) {rate : K} (le : rate ≤ c / a) : a * rate ≤ c := by
  calc a * rate ≤ a * (c / a) := mul_le_mul_of_nonneg_left le pos.le
    _ = c := scaled_exact pos

theorem le_scaled (pos : 0 < a) {rate : K} (le : c / a ≤ rate) : c ≤ a * rate := by
  calc c = a * (c / a) := (scaled_exact pos).symm
    _ ≤ a * rate := mul_le_mul_of_nonneg_left le pos.le

theorem fit_le (pos : 0 < a) (pos' : 0 < b) :
    a * fitRate a b c r ≤ c ∧ b * fitRate a b c r ≤ r :=
  ⟨scaled_le pos (min_le_left _ _), scaled_le pos' (min_le_right _ _)⟩

theorem le_cover (pos : 0 < a) (pos' : 0 < b) :
    c ≤ a * coverRate a b c r ∧ r ≤ b * coverRate a b c r :=
  ⟨le_scaled pos (le_max_left _ _), le_scaled pos' (le_max_right _ _)⟩

end Scaling
