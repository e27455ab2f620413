import Mathlib.Analysis.Complex.Basic
import Mathlib.Analysis.Complex.Exponential
import Mathlib.Analysis.Complex.Trigonometric
import Mathlib.Tactic.FieldSimp
import Mathlib.Tactic.Linarith
import Mathlib.Tactic.NormNum
import Mathlib.Tactic.Positivity
import Mathlib.Tactic.Ring

/-!
# A table of sines

The first 32 binary digits of `|sin k|` for `k` from 1 to 64. The point `exp i` is approximated by
a fraction inside the unit disk, and its powers by the powers of that fraction.
-/

namespace SineTable
open Complex

/-- `⌊2 ^ 32 |sin k|⌋` for `k` from 1 on. -/
def table : List Nat :=
  [0xd76aa478, 0xe8c7b756, 0x242070db, 0xc1bdceee, 0xf57c0faf, 0x4787c62a, 0xa8304613,
   0xfd469501, 0x698098d8, 0x8b44f7af, 0xffff5bb1, 0x895cd7be, 0x6b901122, 0xfd987193,
   0xa679438e, 0x49b40821, 0xf61e2562, 0xc040b340, 0x265e5a51, 0xe9b6c7aa, 0xd62f105d,
   0x02441453, 0xd8a1e681, 0xe7d3fbc8, 0x21e1cde6, 0xc33707d6, 0xf4d50d87, 0x455a14ed,
   0xa9e3e905, 0xfcefa3f8, 0x676f02d9, 0x8d2a4c8a, 0xfffa3942, 0x8771f681, 0x6d9d6122,
   0xfde5380c, 0xa4beea44, 0x4bdecfa9, 0xf6bb4b60, 0xbebfbc70, 0x289b7ec6, 0xeaa127fa,
   0xd4ef3085, 0x04881d05, 0xd9d4d039, 0xe6db99e5, 0x1fa27cf8, 0xc4ac5665, 0xf4292244,
   0x432aff97, 0xab9423a7, 0xfc93a039, 0x655b59c3, 0x8f0ccc92, 0xffeff47d, 0x85845dd1,
   0x6fa87e4f, 0xfe2ce6e0, 0xa3014314, 0x4e0811a1, 0xf7537e82, 0xbd3af235, 0x2ad7d2bb,
   0xeb86d391]

/-! ## An approximation of `exp i` -/

def denominator : Nat := 2 ^ 64
def cosine : Int := 9966818358784711825
def sine : Int := 15522399902203605024

noncomputable def near : ℂ := ⟨cosine / denominator, sine / denominator⟩

theorem norm_near : ‖near‖ ≤ 1 := by
  rw [← abs_norm, ← sq_le_one_iff_abs_le_one, ← normSq_eq_norm_sq, normSq_apply]
  norm_num [near, cosine, sine, denominator]

theorem taylor : ∑ m ∈ Finset.range 20, I ^ m / (m.factorial : ℂ) =
    ⟨691843455246877 / 1280474741145600, 102360822438075317 / 121645100408832000⟩ := by
  apply Complex.ext <;> simp [Finset.sum_range_succ, pow_succ, Nat.factorial] <;> norm_num

theorem exp_near : ‖exp I - near‖ ≤ 1 / 10 ^ 17 := by
  have series := exp_bound (x := I) (by simp) (n := 20) (by norm_num)
  rw [taylor] at series
  have rest : ‖(⟨691843455246877 / 1280474741145600,
      102360822438075317 / 121645100408832000⟩ : ℂ) - near‖ ≤ 1 / 10 ^ 18 := by
    apply (norm_le_abs_re_add_abs_im _).trans
    norm_num [near, cosine, sine, denominator, abs_le]
  calc ‖exp I - near‖ ≤ _ := norm_sub_le_norm_sub_add_norm_sub _ _ _
    _ ≤ _ := add_le_add series rest
    _ ≤ 1 / 10 ^ 17 := by norm_num [Nat.factorial]

/-! ## Its powers -/

theorem norm_pow_sub {a b : ℂ} (ha : ‖a‖ ≤ 1) (hb : ‖b‖ ≤ 1) (k : Nat) :
    ‖a ^ k - b ^ k‖ ≤ k * ‖a - b‖ := by
  induction k with
  | zero => simp
  | succ k ih =>
      have split : a ^ (k + 1) - b ^ (k + 1) = a ^ k * (a - b) + (a ^ k - b ^ k) * b := by ring
      have first : ‖a ^ k * (a - b)‖ ≤ ‖a - b‖ := by
        rw [norm_mul, norm_pow]
        exact mul_le_of_le_one_left (norm_nonneg _) (pow_le_one₀ (norm_nonneg _) ha)
      have rest : ‖(a ^ k - b ^ k) * b‖ ≤ k * ‖a - b‖ := by
        rw [norm_mul]
        exact (mul_le_of_le_one_right (norm_nonneg _) hb).trans ih
      calc ‖a ^ (k + 1) - b ^ (k + 1)‖ ≤ ‖a - b‖ + k * ‖a - b‖ := by
            rw [split]
            exact (norm_add_le _ _).trans (add_le_add first rest)
        _ = (k + 1 : Nat) * ‖a - b‖ := by
            push_cast
            ring

def turn : Nat → Int × Int
  | 0 => (1, 0)
  | k + 1 =>
      let (a, b) := turn k
      (a * cosine - b * sine, a * sine + b * cosine)

theorem near_pow (k : Nat) :
    near ^ k = ⟨(turn k).1 / denominator ^ k, (turn k).2 / denominator ^ k⟩ := by
  have positive : (denominator : ℝ) ≠ 0 := by norm_num [denominator]
  induction k with
  | zero => apply Complex.ext <;> simp [turn]
  | succ k ih =>
      rw [pow_succ, ih]
      apply Complex.ext
      · simp only [near, mul_re, turn, Int.cast_sub, Int.cast_mul]
        field_simp
        ring
      · simp only [near, mul_im, turn, Int.cast_add, Int.cast_mul]
        field_simp
        ring

theorem sin_near (k : Nat) :
    |Real.sin k - (turn k).2 / denominator ^ k| ≤ k / 10 ^ 17 := by
  have circle : (exp I ^ k - near ^ k).im = Real.sin k - (turn k).2 / denominator ^ k := by
    rw [sub_im, near_pow, ← exp_nat_mul, ← ofReal_natCast, exp_ofReal_mul_I_im]
  have unit : ‖exp I‖ ≤ 1 := by simp [norm_exp]
  calc |Real.sin k - (turn k).2 / denominator ^ k|
      ≤ ‖exp I ^ k - near ^ k‖ := by
        rw [← circle]
        exact abs_im_le_norm _
    _ ≤ k * ‖exp I - near‖ := norm_pow_sub unit norm_near k
    _ ≤ k / 10 ^ 17 := by
        rw [div_eq_mul_one_div]
        exact mul_le_mul_of_nonneg_left exp_near (Nat.cast_nonneg k)

/-! ## The table -/

def Pinned (k t : Nat) : Prop :=
  let b := (turn k).2.natAbs * 10 ^ 17
  let d := denominator ^ k
  t * d * 10 ^ 17 + 2 ^ 32 * (k * d) ≤ 2 ^ 32 * b ∧
    2 ^ 32 * (b + k * d) < (t + 1) * d * 10 ^ 17

instance (k t : Nat) : Decidable (Pinned k t) := inferInstanceAs (Decidable (_ ∧ _))

theorem floor_sin {k t : Nat} (pinned : Pinned k t) : ⌊2 ^ 32 * |Real.sin k|⌋₊ = t := by
  have positive : (0 : ℝ) < denominator ^ k := by
    apply pow_pos
    norm_num [denominator]
  obtain ⟨below, above⟩ := pinned
  have belowReal : (t : ℝ) * denominator ^ k * 10 ^ 17 + 2 ^ 32 * (k * denominator ^ k) ≤
      2 ^ 32 * (|((turn k).2 : ℝ)| * 10 ^ 17) := by
    rw [← Int.cast_abs, Int.abs_eq_natAbs, Int.cast_natCast]
    exact_mod_cast below
  have aboveReal : 2 ^ 32 * (|((turn k).2 : ℝ)| * 10 ^ 17 + k * denominator ^ k) <
      ((t : ℝ) + 1) * denominator ^ k * 10 ^ 17 := by
    rw [← Int.cast_abs, Int.abs_eq_natAbs, Int.cast_natCast]
    exact_mod_cast above
  have close : |(|Real.sin k| - |((turn k).2 : ℝ)| / denominator ^ k)| ≤ k / 10 ^ 17 := by
    have size : |((turn k).2 : ℝ)| / denominator ^ k = |((turn k).2 : ℝ) / denominator ^ k| := by
      rw [abs_div, abs_of_pos positive]
    rw [size]
    exact (abs_abs_sub_abs_le_abs_sub _ _).trans (sin_near k)
  obtain ⟨lower, upper⟩ := abs_le.mp close
  rw [Nat.floor_eq_iff (by positivity)]
  constructor
  · have : (t : ℝ) / 2 ^ 32 + k / 10 ^ 17 ≤ |((turn k).2 : ℝ)| / denominator ^ k := by
      rw [le_div_iff₀ positive]
      linarith
    linarith
  · have : |((turn k).2 : ℝ)| / denominator ^ k + k / 10 ^ 17 < ((t : ℝ) + 1) / 2 ^ 32 := by
      rw [← lt_sub_iff_add_lt, div_lt_iff₀ positive]
      linarith
    linarith

theorem table_pinned : ∀ k ∈ List.range 64, Pinned (k + 1) (table.getD k 0) := by decide +kernel

theorem table_eq {k : Nat} (small : k < 64) :
    table.getD k 0 = ⌊2 ^ 32 * |Real.sin (k + 1 : Nat)|⌋₊ :=
  (floor_sin (table_pinned k (List.mem_range.mpr small))).symm

end SineTable
