import Ximg.Geometry
import Ximg.Library.Scaling

/-!
# The size policies

What `proportion` makes of an image: a scaled image whose middle is cut out, an image that fits a
box, or percentages of the sides.
-/

namespace Ximg
open Calls Scaling

variable {Im : Type}

/-! ## Rounding -/

theorem le_roundQ {q : ℚ} {n : Int} (nonneg : 0 ≤ q) (le : n ≤ q) : n ≤ roundQ q := by
  rw [roundQ, if_pos nonneg, Int.le_floor]
  linarith

theorem roundQ_le {q : ℚ} {n : Int} (nonneg : 0 ≤ q) (le : q ≤ n) : roundQ q ≤ n := by
  rw [roundQ, if_pos nonneg, ← Int.lt_add_one_iff, Int.floor_lt]
  push_cast
  linarith

theorem roundQ_natCast (n : Nat) : roundQ n = n := by
  have nonneg : (0 : ℚ) ≤ n := Nat.cast_nonneg n
  apply le_antisymm
  · exact roundQ_le nonneg (by push_cast; rfl)
  · exact le_roundQ nonneg (by push_cast; rfl)

theorem roundQ_error {q : ℚ} (nonneg : 0 ≤ q) : |(roundQ q : ℚ) - q| ≤ 1 / 2 := by
  rw [roundQ, if_pos nonneg, ← round_eq, abs_sub_comm]
  exact abs_sub_round q

/-! ## Scaling and cutting -/

def scaledSide (im : UInt64) (rate : ℚ) : UInt32 := uint32 (roundQ (rate * doubleU im))

def middle (scaled : UInt32) (size : Int32) : UInt32 :=
  uint32 ⌊((scaled - size.toUInt32).toNat : ℚ) / 2⌋

theorem proportion_one_both {settings : Settings} (off : settings.disableZoomUp ≠ 1) (im : Im)
    (imCols imRows : UInt64) {cols rows : Int32} (given : cols ≠ 0) (given' : rows ≠ 0)
    (Q : List Cut → Prop) :
    (double cols / doubleU imCols > double rows / doubleU imRows →
      ((sized imCols imRows).wp (proportion settings im 1 cols rows) (fun _ cuts => Q cuts) [] ↔
        Q [.resize cols.toUInt32.toNat (scaledSide imRows (double cols / doubleU imCols)).toNat,
          .crop (ulong cols).toNat (ulong rows).toNat 0
            (middle (scaledSide imRows (double cols / doubleU imCols)) rows).toNat])) ∧
    (¬double cols / doubleU imCols > double rows / doubleU imRows →
      ((sized imCols imRows).wp (proportion settings im 1 cols rows) (fun _ cuts => Q cuts) [] ↔
        Q [.resize (scaledSide imCols (double rows / doubleU imRows)).toNat rows.toUInt32.toNat,
          .crop (ulong cols).toNat (ulong rows).toNat
            (middle (scaledSide imCols (double rows / doubleU imRows)) cols).toNat 0])) := by
  have both : ¬(cols = 0 ∨ rows = 0) := not_or.mpr ⟨given, given'⟩
  constructor
  · intro wider
    simp only [proportion, magick_bind, sized_width, sized_height, if_neg off, if_true, if_neg both,
      if_pos wider, sized_resize, sized_crop, long_toInt]
    exact ⟨fun h => h (true, im) (true, im), fun h _ _ => h⟩
  · intro narrower
    simp only [proportion, magick_bind, sized_width, sized_height, if_neg off, if_true, if_neg both,
      if_neg narrower, sized_resize, sized_crop, long_toInt]
    exact ⟨fun h => h (true, im) (true, im), fun h _ _ => h⟩

theorem double_given {size : Int32} (given : 0 ≤ size.toInt) :
    double size = (size.toInt.toNat : ℚ) := by
  have : (size.toInt.toNat : Int) = size.toInt := Int.toNat_of_nonneg given
  rw [double, ← this]
  rfl

theorem toUInt32_given {size : Int32} (given : 0 ≤ size.toInt) :
    size.toUInt32.toNat = size.toInt.toNat := by
  have word := toUInt32_toNat size
  have bound := size.toInt_lt
  omega

theorem ulong_given {size : Int32} (given : 0 ≤ size.toInt) :
    (ulong size).toNat = size.toInt.toNat := by
  have word := ulong_toNat size
  have bound := size.toInt_lt
  omega

theorem middle_toNat (scaled : UInt32) {size : Int32} (given : 0 ≤ size.toInt)
    (covers : size.toInt.toNat ≤ scaled.toNat) :
    (middle scaled size).toNat = (scaled.toNat - size.toInt.toNat) / 2 := by
  have bound := scaled.toNat_lt
  have word := toUInt32_given given
  have offset := uint32_toNat ((scaled - size.toUInt32).toNat / 2 : Nat)
  rw [middle, half_floor]
  rw [UInt32.toNat_sub] at offset ⊢
  omega

/-- A side that is scaled to cover the box, and the offset at which the box is cut out of it: the
side is rounded to the nearest, and the cut is centred. -/
structure CoversSide (exact : ℚ) (scaled size : Nat) (start : Int) : Prop where
  rounded : |(scaled : ℚ) - exact| ≤ 1 / 2
  covers : size ≤ scaled
  inside : 0 ≤ start ∧ start + size ≤ scaled
  centred : |start - (scaled - (start + size))| ≤ 1

/-- An image of the sides `a` and `b` is scaled by one rate until it covers the box on one side
exactly, and the box is cut out of its middle. -/
structure Covers (a b c r : Nat) (sCols sRows : Nat) (x y : Int) : Prop where
  cols : CoversSide (a * coverRate (a : ℚ) b c r) sCols c x
  rows : CoversSide (b * coverRate (a : ℚ) b c r) sRows r y
  tight : sCols = c ∨ sRows = r

theorem coversSide_exact {exact : ℚ} {size : Nat} (same : exact = size) :
    CoversSide exact size size 0 := by
  refine ⟨?_, le_rfl, ⟨le_rfl, by omega⟩, ?_⟩
  · rw [same, sub_self, abs_zero]
    norm_num
  · rw [abs_le]
    omega

theorem coversSide_rounded {im : UInt64} {rate : ℚ} {size : Int32} (given : 0 ≤ size.toInt)
    (covers : (size.toInt.toNat : ℚ) ≤ doubleU im * rate)
    (small : roundQ (doubleU im * rate) < 2 ^ 31) :
    CoversSide (doubleU im * rate) (scaledSide im rate).toNat size.toInt.toNat
      (middle (scaledSide im rate) size).toNat := by
  have nonneg : 0 ≤ doubleU im * rate := le_trans (Nat.cast_nonneg _) covers
  have rounded : (size.toInt.toNat : Int) ≤ roundQ (doubleU im * rate) := le_roundQ nonneg covers
  have word := uint32_toNat (roundQ (doubleU im * rate))
  have value : ((scaledSide im rate).toNat : Int) = roundQ (doubleU im * rate) := by
    rw [scaledSide, mul_comm rate, word]
    omega
  have start := middle_toNat (scaledSide im rate) given (by omega)
  refine ⟨?_, by omega, by omega, ?_⟩
  · have cast : ((scaledSide im rate).toNat : ℚ) = (roundQ (doubleU im * rate) : Int) := by
      rw [← value]
      rfl
    rw [cast]
    exact roundQ_error nonneg
  · rw [abs_le]
    omega

theorem proportion_covers {settings : Settings} (off : settings.disableZoomUp ≠ 1) (im : Im)
    {imCols imRows : UInt64} {cols rows : Int32} {c r : Nat} (pos : 1 ≤ imCols.toNat)
    (pos' : 1 ≤ imRows.toNat) (size : cols.toInt = c) (size' : rows.toInt = r) (given : 1 ≤ c)
    (given' : 1 ≤ r)
    (small : roundQ (imCols.toNat * coverRate (imCols.toNat : ℚ) imRows.toNat c r) < 2 ^ 31)
    (small' : roundQ (imRows.toNat * coverRate (imCols.toNat : ℚ) imRows.toNat c r) < 2 ^ 31) :
    (sized imCols imRows).wp (proportion settings im 1 cols rows)
      (fun _ cuts => ∃ sCols sRows x y, cuts = [.resize sCols sRows, .crop c r x y] ∧
        Covers imCols.toNat imRows.toNat c r sCols sRows x y) [] := by
  have atLeast : 0 ≤ cols.toInt := by omega
  have atLeast' : 0 ≤ rows.toInt := by omega
  have nonzero (size : Int32) (given : 1 ≤ size.toInt) : size ≠ 0 := by
    rintro rfl
    exact absurd given (by decide)
  obtain ⟨wider, narrower⟩ := proportion_one_both off im imCols imRows
    (nonzero cols (by omega)) (nonzero rows (by omega))
    fun cuts => ∃ sCols sRows x y, cuts = [.resize sCols sRows, .crop c r x y] ∧
      Covers imCols.toNat imRows.toNat c r sCols sRows x y
  have nat : cols.toInt.toNat = c := by omega
  have nat' : rows.toInt.toNat = r := by omega
  have rate : double cols / doubleU imCols = c / imCols.toNat := by
    rw [double_given atLeast, nat, doubleU]
  have rate' : double rows / doubleU imRows = r / imRows.toNat := by
    rw [double_given atLeast', nat', doubleU]
  simp only [rate, rate', ulong_given atLeast, ulong_given atLeast', toUInt32_given atLeast,
    toUInt32_given atLeast', nat, nat'] at wider narrower
  have posQ : (0 : ℚ) < imCols.toNat := by exact_mod_cast pos
  have posQ' : (0 : ℚ) < imRows.toNat := by exact_mod_cast pos'
  obtain ⟨covers, covers'⟩ := le_cover (c := (c : ℚ)) (r := (r : ℚ)) posQ posQ'
  by_cases wide : (c / imCols.toNat : ℚ) > r / imRows.toNat
  · have cover : coverRate (imCols.toNat : ℚ) imRows.toNat c r = c / imCols.toNat :=
      max_eq_left wide.le
    apply (wider wide).mpr
    refine ⟨_, _, _, _, rfl, ?_, ?_, .inl rfl⟩
    · apply coversSide_exact
      rw [cover, scaled_exact posQ]
    · rw [cover] at covers' small' ⊢
      rw [← nat'] at covers' ⊢
      exact coversSide_rounded atLeast' covers' small'
  · have cover : coverRate (imCols.toNat : ℚ) imRows.toNat c r = r / imRows.toNat :=
      max_eq_right (not_lt.mp wide)
    apply (narrower wide).mpr
    refine ⟨_, _, _, _, rfl, ?_, ?_, .inr rfl⟩
    · rw [cover] at covers small ⊢
      rw [← nat] at covers ⊢
      exact coversSide_rounded atLeast covers small
    · apply coversSide_exact
      rw [cover, scaled_exact posQ']

/-- An image is scaled to cover the box it is clamped to, and the box is cut out of its middle. -/
theorem scale_and_crop (settings : Settings) (im : Im) {imCols imRows : UInt64} {cols rows : Int32}
    {c r : Nat} (pos : 1 ≤ imCols.toNat) (pos' : 1 ≤ imRows.toNat) (given : 1 ≤ cols.toInt)
    (given' : 1 ≤ rows.toInt) (sizes : box settings imCols imRows 1 cols rows = (c, r))
    (small : roundQ (imCols.toNat * coverRate (imCols.toNat : ℚ) imRows.toNat c r) < 2 ^ 31)
    (small' : roundQ (imRows.toNat * coverRate (imCols.toNat : ℚ) imRows.toNat c r) < 2 ^ 31) :
    (sized imCols imRows).Returns (proportion settings im 1 cols rows)
      (fun _ cuts => ∃ sCols sRows x y, cuts = [.resize sCols sRows, .crop c r x y] ∧
        Covers imCols.toNat imRows.toNat c r sCols sRows x y) [] := by
  refine ⟨sized_runs _ _ (proportion_scales settings im 1 cols rows) im [], ?_⟩
  obtain ⟨side, side'⟩ := clamped_box settings imCols imRows 1 (by omega : 0 ≤ cols.toInt)
    (by omega : 0 ≤ rows.toInt)
  have positive := box_pos settings 1 pos pos' given given'
  rw [sizes] at side side' positive
  rw [proportion_clamped]
  exact proportion_covers (zoom_allowed settings) im pos pos' side side' positive.1 positive.2 small small'

theorem scale_and_crop_small :
    (sized 40 30).Returns (proportion (smallSettings 1 0) () 1 10 10)
      (fun _ cuts => ∃ sCols sRows x y, cuts = [.resize sCols sRows, .crop 10 10 x y] ∧
        Covers (40 : UInt64).toNat (30 : UInt64).toNat 10 10 sCols sRows x y) [] :=
  scale_and_crop (smallSettings 1 0) () (by decide) (by decide) (by decide) (by decide) rfl
    (by decide +kernel) (by decide +kernel)

theorem zoom_disabled :
    ¬(sized 10 10).wp (proportion { smallSettings 1 0 with disableZoomUp := 1 } () 1 20 20)
      (fun _ cuts => ∃ sCols sRows more, cuts = .resize sCols sRows :: more ∧ 20 ≤ sCols ∧
        20 ≤ sRows) [] := by
  have sizes : clamped { smallSettings 1 0 with disableZoomUp := 1 } 10 10 1 20 20 = (10, 10) := by
    decide
  have equal : ¬double 10 / doubleU 10 > double 10 / doubleU 10 := lt_irrefl _
  rw [proportion_clamped, sizes,
    (proportion_one_both (zoom_allowed _) () 10 10 (by decide) (by decide) _).2 equal]
  rintro ⟨sCols, sRows, more, same, -, large⟩
  cases same
  exact absurd large (by decide)

/-! ## One rate, or percentages -/

/-- What a rounded side is passed as, after it was stored in an `int`. -/
def stored (q : ℚ) : Nat := (ulong (uint32 (roundQ q)).toInt32).toNat

/-- The rates of the two sides: percentages, or one rate at which a given side becomes exact and the
image fits the box. -/
def rates (imCols imRows : ℚ) (pType : Int32) (c r : Nat) : ℚ × ℚ :=
  if pType = 3 then (((if c = 0 then r else c : Nat) : ℚ) / 100, ((if r = 0 then c else r : Nat) : ℚ) / 100)
  else
    let rate : ℚ := if r = 0 then c / imCols else if c = 0 then r / imRows
      else fitRate imCols imRows c r
    (rate, rate)

def Rounds (pType : Int32) (c r : Nat) : Prop :=
  (pType = 3 ∨ pType = 4 ∨ pType = 1 ∧ (c = 0 ∨ r = 0)) ∧ 0 < c + r

theorem stored_toNat (q : ℚ) :
    ((roundQ q % 2 ^ 32 < 2 ^ 31 → (stored q : Int) = roundQ q % 2 ^ 32) ∧
      (2 ^ 31 ≤ roundQ q % 2 ^ 32 → (stored q : Int) = roundQ q % 2 ^ 32 + 2 ^ 64 - 2 ^ 32)) := by
  have word := uint32_toNat (roundQ q)
  have signed := toInt32_toInt (uint32 (roundQ q))
  have wide := ulong_toNat (uint32 (roundQ q)).toInt32
  have bound := (uint32 (roundQ q)).toNat_lt
  rw [stored]
  split_ifs at signed
  · constructor <;> omega
  · constructor <;> omega

theorem stored_given (size : Int32) (given : 0 ≤ size.toInt) :
    stored (size.toInt.toNat : ℚ) = (ulong size).toNat := by
  have value := (stored_toNat (size.toInt.toNat : ℚ)).1
  have bound := size.toInt_lt
  rw [roundQ_natCast] at value
  rw [ulong_given given]
  omega

theorem proportion_one_free {settings : Settings} (off : settings.disableZoomUp ≠ 1) (im : Im)
    (imCols imRows : UInt64) {cols rows : Int32} (free : cols = 0 ∨ rows = 0) (Q : List Cut → Prop) :
    (cols > 0 →
      ((sized imCols imRows).wp (proportion settings im 1 cols rows) (fun _ cuts => Q cuts) [] ↔
        Q [.resize (ulong cols).toNat
          (stored (double cols / doubleU imCols * doubleU imRows))])) ∧
    (¬cols > 0 →
      ((sized imCols imRows).wp (proportion settings im 1 cols rows) (fun _ cuts => Q cuts) [] ↔
        Q [.resize (stored (double rows / doubleU imRows * doubleU imCols)) (ulong rows).toNat])) := by
  constructor
  · intro given
    simp only [proportion, magick_bind, sized_width, sized_height, if_neg off, if_true, if_pos free,
      if_pos given, sized_resize]
    exact ⟨fun h => h (true, im), fun h _ => h⟩
  · intro absent
    simp only [proportion, magick_bind, sized_width, sized_height, if_neg off, if_true, if_pos free,
      if_neg absent, sized_resize]
    exact ⟨fun h => h (true, im), fun h _ => h⟩

theorem proportion_percent {settings : Settings} (off : settings.disableZoomUp ≠ 1) (im : Im)
    (imCols imRows : UInt64) (cols rows : Int32) (Q : List Cut → Prop) :
    (sized imCols imRows).wp (proportion settings im 3 cols rows) (fun _ cuts => Q cuts) [] ↔
      if cols = 0 ∨ rows = 0 then
        Q [.resize (stored (doubleU imCols * double (if cols > 0 then cols else rows) / 100))
          (stored (doubleU imRows * double (if cols > 0 then cols else rows) / 100))]
      else Q [.resize (stored (doubleU imCols * double cols / 100))
        (stored (doubleU imRows * double rows / 100))] := by
  have one : ¬(3 : Int32) = 1 := by decide
  have two : ¬(3 : Int32) = 2 := by decide
  split
  · rename_i free
    simp only [proportion, magick_bind, sized_width, sized_height, if_neg off, if_neg one, if_neg two,
      if_true, if_pos free, sized_resize]
    exact ⟨fun h => h (true, im), fun h _ => h⟩
  · rename_i both
    simp only [proportion, magick_bind, sized_width, sized_height, if_neg off, if_neg one, if_neg two,
      if_true, if_neg both, sized_resize]
    exact ⟨fun h => h (true, im), fun h _ => h⟩

theorem proportion_fit {settings : Settings} (off : settings.disableZoomUp ≠ 1) (im : Im)
    (imCols imRows : UInt64) (cols rows : Int32) (Q : List Cut → Prop) {rate : ℚ}
    (fit : rate = if cols = 0 ∨ rows = 0 then
        if cols > 0 then double cols / doubleU imCols else double rows / doubleU imRows
      else min (double cols / doubleU imCols) (double rows / doubleU imRows)) :
    (sized imCols imRows).wp (proportion settings im 4 cols rows) (fun _ cuts => Q cuts) [] ↔
      Q [.resize (stored (doubleU imCols * rate)) (stored (doubleU imRows * rate))] := by
  have one : ¬(4 : Int32) = 1 := by decide
  have two : ¬(4 : Int32) = 2 := by decide
  have three : ¬(4 : Int32) = 3 := by decide
  have zero : ¬(4 : Int32) = 0 := by decide
  have least (p q : ℚ) : (if p < q then p else q) = min p q := by
    split
    · rename_i less
      exact (min_eq_left less.le).symm
    · rename_i more
      exact (min_eq_right (not_lt.mp more)).symm
  simp only [proportion, magick_bind, sized_width, sized_height, if_neg off, if_neg one, if_neg two,
    if_neg three, if_neg zero, if_true, sized_resize, least, ← fit]
  exact ⟨fun h => h (true, im), fun h _ => h⟩

theorem size_zero {size : Int32} {n : Nat} (same : size.toInt = n) : size = 0 ↔ n = 0 := by
  have none : (0 : Int32).toInt = 0 := rfl
  rw [← Int32.toInt_inj, same, none]
  omega

theorem size_pos {size : Int32} {n : Nat} (same : size.toInt = n) : size > 0 ↔ 0 < n := by
  have none : (0 : Int32).toInt = 0 := rfl
  rw [gt_iff_lt, Int32.lt_iff_toInt_lt, same, none]
  omega

theorem double_nat {size : Int32} {n : Nat} (same : size.toInt = n) : double size = n := by
  rw [double_given (by omega)]
  congr 1
  omega

section Given
variable {settings : Settings} {imCols imRows : UInt64} {cols rows : Int32} {c r : Nat}
  (size : cols.toInt = c) (size' : rows.toInt = r)
include size size'

theorem proportion_three (off : settings.disableZoomUp ≠ 1) (im : Im) (some : 0 < c + r)
    (Q : List Cut → Prop) :
    (sized imCols imRows).wp (proportion settings im 3 cols rows) (fun _ cuts => Q cuts) [] ↔
      Q [.resize (stored (imCols.toNat * (rates imCols.toNat imRows.toNat 3 c r).1))
        (stored (imRows.toNat * (rates imCols.toNat imRows.toNat 3 c r).2))] := by
  rw [proportion_percent off, rates, if_pos rfl]
  dsimp only
  rw [← mul_div_assoc, ← mul_div_assoc]
  simp only [size_zero size, size_zero size', size_pos size]
  split
  · rename_i free
    by_cases none : c = 0
    · have other : ¬r = 0 := by omega
      have absent : ¬0 < c := by omega
      rw [if_neg absent, if_pos none, if_neg other, double_nat size', doubleU, doubleU]
    · have other : r = 0 := free.resolve_left none
      rw [if_pos (Nat.pos_of_ne_zero none), if_neg none, if_pos other, double_nat size, doubleU,
        doubleU]
  · rename_i both
    rw [not_or] at both
    rw [if_neg both.1, if_neg both.2, double_nat size, double_nat size', doubleU, doubleU]

theorem rates_four (imCols imRows : UInt64) (some : 0 < c + r) :
    (rates imCols.toNat imRows.toNat 4 c r).1 = if cols = 0 ∨ rows = 0 then
      if cols > 0 then double cols / doubleU imCols else double rows / doubleU imRows
      else min (double cols / doubleU imCols) (double rows / doubleU imRows) := by
  rw [rates, if_neg (by decide), double_nat size, double_nat size', doubleU, doubleU]
  simp only [size_zero size, size_zero size', size_pos size]
  split
  · rename_i none
    rw [if_pos (.inr none), if_pos (by omega)]
  · rename_i other
    split
    · rename_i none
      rw [if_pos (.inl none), if_neg (by omega)]
    · rename_i other'
      rw [if_neg (not_or.mpr ⟨other', other⟩)]
      rfl

theorem proportion_one (off : settings.disableZoomUp ≠ 1) (im : Im) (pos : 1 ≤ imCols.toNat)
    (pos' : 1 ≤ imRows.toNat) (free : c = 0 ∨ r = 0) (some : 0 < c + r) (Q : List Cut → Prop) :
    (sized imCols imRows).wp (proportion settings im 1 cols rows) (fun _ cuts => Q cuts) [] ↔
      Q [.resize (stored (imCols.toNat * (rates imCols.toNat imRows.toNat 1 c r).1))
        (stored (imRows.toNat * (rates imCols.toNat imRows.toNat 1 c r).2))] := by
  have posQ : (0 : ℚ) < imCols.toNat := by exact_mod_cast pos
  have posQ' : (0 : ℚ) < imRows.toNat := by exact_mod_cast pos'
  have exact' : (imCols.toNat : ℚ) * (c / imCols.toNat) = c := scaled_exact posQ
  have exact'' : (imRows.toNat : ℚ) * (r / imRows.toNat) = r := scaled_exact posQ'
  obtain ⟨wide, tall⟩ := proportion_one_free off im imCols imRows
    (by rwa [size_zero size, size_zero size'] : cols = 0 ∨ rows = 0) Q
  rw [size_pos size, double_nat size, doubleU, doubleU] at wide
  rw [size_pos size, double_nat size', doubleU, doubleU] at tall
  rw [rates, if_neg (by decide)]
  dsimp only
  split
  · rename_i none
    have side := stored_given cols (by omega)
    have nat : cols.toInt.toNat = c := by omega
    rw [nat] at side
    rw [wide (by omega), exact', side, mul_comm (imRows.toNat : ℚ)]
  · rename_i other
    have side := stored_given rows (by omega)
    have nat : rows.toInt.toNat = r := by omega
    rw [nat] at side
    rw [if_pos (free.resolve_right other), tall (by omega), exact'', side,
      mul_comm (imCols.toNat : ℚ)]

end Given

theorem proportion_rounds {settings : Settings} (off : settings.disableZoomUp ≠ 1) (im : Im)
    {imCols imRows : UInt64} {pType cols rows : Int32} {c r : Nat} (pos : 1 ≤ imCols.toNat)
    (pos' : 1 ≤ imRows.toNat) (size : cols.toInt = c) (size' : rows.toInt = r)
    (rounds : Rounds pType c r) (Q : List Cut → Prop) :
    (sized imCols imRows).wp (proportion settings im pType cols rows) (fun _ cuts => Q cuts) [] ↔
      Q [.resize (stored (imCols.toNat * (rates imCols.toNat imRows.toNat pType c r).1))
        (stored (imRows.toNat * (rates imCols.toNat imRows.toNat pType c r).2))] := by
  obtain ⟨rfl | rfl | ⟨rfl, free⟩, some⟩ := rounds
  · exact proportion_three size size' off im some Q
  · exact proportion_fit off im imCols imRows cols rows Q
      (rates_four size size' imCols imRows some)
  · exact proportion_one size size' off im pos pos' free some Q

theorem proportion_zero {settings : Settings} (off : settings.disableZoomUp ≠ 1) (im : Im)
    (imCols imRows : UInt64) (cols rows : Int32) (Q : List Cut → Prop) :
    (sized imCols imRows).wp (proportion settings im 0 cols rows) (fun _ cuts => Q cuts) [] ↔
      Q [.resize (ulong cols).toNat (ulong rows).toNat] := by
  have one : ¬(0 : Int32) = 1 := by decide
  have two : ¬(0 : Int32) = 2 := by decide
  have three : ¬(0 : Int32) = 3 := by decide
  simp only [proportion, magick_bind, sized_width, sized_height, if_neg off, if_neg one, if_neg two,
    if_neg three, if_true, sized_resize]
  exact ⟨fun h => h (true, im), fun h _ => h⟩

/-! ## Bounds -/

theorem stored_le {q : ℚ} {n : Nat} (nonneg : 0 ≤ q) (le : q ≤ n) (small : roundQ q < 2 ^ 31) :
    stored q ≤ n := by
  have rounded : roundQ q ≤ n := roundQ_le nonneg (by exact_mod_cast le)
  have positive : 0 ≤ roundQ q := le_roundQ nonneg (by exact_mod_cast nonneg)
  have value := (stored_toNat q).1
  omega

theorem stored_natCast {n : Nat} (small : n < 2 ^ 31) : stored n = n := by
  have value := (stored_toNat n).1
  rw [roundQ_natCast] at value
  omega

theorem box_some (settings : Settings) {imCols imRows : UInt64} (pType : Int32) {cols rows : Int32}
    (pos : 1 ≤ imCols.toNat) (pos' : 1 ≤ imRows.toNat) (given : 0 ≤ cols.toInt)
    (given' : 0 ≤ rows.toInt) (some : 0 < cols.toInt + rows.toInt) :
    0 < (box settings imCols imRows pType cols rows).1 +
      (box settings imCols imRows pType cols rows).2 := by
  rw [box]
  split_ifs <;> dsimp only <;> omega

theorem box_bounds {settings : Settings} (on : settings.disableZoomUp = 1)
    (imCols imRows : UInt64) (pType cols rows : Int32) :
    (pType = 3 → (box settings imCols imRows pType cols rows).1 ≤ 100 ∧
      (box settings imCols imRows pType cols rows).2 ≤ 100) ∧
    (pType ≠ 3 → (box settings imCols imRows pType cols rows).1 ≤ imCols.toNat ∧
      (box settings imCols imRows pType cols rows).2 ≤ imRows.toNat) := by
  rw [box, if_pos on]
  constructor
  · intro three
    rw [if_pos three]
    exact ⟨min_le_right _ _, min_le_right _ _⟩
  · intro other
    rw [if_neg other]
    exact ⟨min_le_right _ _, min_le_right _ _⟩

theorem rates_nonneg (imCols imRows : Nat) (pType : Int32) (c r : Nat) :
    0 ≤ (rates imCols imRows pType c r).1 ∧ 0 ≤ (rates imCols imRows pType c r).2 := by
  have rate : 0 ≤ (if r = 0 then (c / imCols : ℚ) else if c = 0 then (r / imRows : ℚ)
      else fitRate (imCols : ℚ) imRows c r) := by
    split_ifs
    · positivity
    · positivity
    · exact le_min (by positivity) (by positivity)
  rw [rates]
  split
  · exact ⟨by positivity, by positivity⟩
  · exact ⟨rate, rate⟩

theorem quotient_le_one {n d : Nat} (le : n ≤ d) : (n / d : ℚ) ≤ 1 :=
  div_le_one_of_le₀ (by exact_mod_cast le) (Nat.cast_nonneg d)

theorem rates_le_one {imCols imRows : Nat} {pType : Int32} {c r : Nat}
    (percent : pType = 3 → c ≤ 100 ∧ r ≤ 100) (sides : pType ≠ 3 → c ≤ imCols ∧ r ≤ imRows) :
    (rates imCols imRows pType c r).1 ≤ 1 ∧ (rates imCols imRows pType c r).2 ≤ 1 := by
  rw [rates]
  split
  · rename_i three
    obtain ⟨first, second⟩ := percent three
    constructor
    · apply quotient_le_one (d := 100)
      split <;> assumption
    · apply quotient_le_one (d := 100)
      split <;> assumption
  · rename_i other
    obtain ⟨first, second⟩ := sides other
    have rate : (if r = 0 then (c / imCols : ℚ) else if c = 0 then (r / imRows : ℚ)
        else fitRate (imCols : ℚ) imRows c r) ≤ 1 := by
      split_ifs
      · exact quotient_le_one first
      · exact quotient_le_one second
      · exact (min_le_left _ _).trans (quotient_le_one first)
    exact ⟨rate, rate⟩

/-- The sides that are rounded and stored in an `int` are below `2 ^ 31`. -/
def FitsInt (imCols imRows : UInt64) (pType : Int32) (c r : Nat) : Prop :=
  Rounds pType c r →
    roundQ (imCols.toNat * (rates imCols.toNat imRows.toNat pType c r).1) < 2 ^ 31 ∧
      roundQ (imRows.toNat * (rates imCols.toNat imRows.toNat pType c r).2) < 2 ^ 31

def Cut.Within (imCols imRows : Nat) : Cut → Prop
  | .resize cols rows | .crop cols rows _ _ => cols ≤ imCols ∧ rows ≤ imRows

def FitsBox (c r w h : Nat) : Prop :=
  (0 < c → w ≤ c) ∧ (0 < r → h ≤ r) ∧ (0 < c ∧ w = c ∨ 0 < r ∧ h = r)

theorem fit_box {imCols imRows : UInt64} {c r : Nat} (pos : 1 ≤ imCols.toNat)
    (pos' : 1 ≤ imRows.toNat) (small : c < 2 ^ 31) (small' : r < 2 ^ 31) (some : 0 < c + r) :
    FitsBox c r (stored (imCols.toNat * (rates imCols.toNat imRows.toNat 4 c r).1))
      (stored (imRows.toNat * (rates imCols.toNat imRows.toNat 4 c r).2)) := by
  have posQ : (0 : ℚ) < imCols.toNat := by exact_mod_cast pos
  have posQ' : (0 : ℚ) < imRows.toNat := by exact_mod_cast pos'
  obtain ⟨nonneg, -⟩ := rates_nonneg imCols.toNat imRows.toNat 4 c r
  have bounded {im n : Nat} {rate : ℚ} (nonneg : 0 ≤ rate) (le : im * rate ≤ n)
      (small : n < 2 ^ 31) : stored (im * rate) ≤ n := by
    have product : 0 ≤ (im : ℚ) * rate := mul_nonneg (Nat.cast_nonneg _) nonneg
    apply stored_le product le
    have := roundQ_le product (n := n) (by exact_mod_cast le)
    omega
  rw [rates, if_neg (by decide)] at nonneg ⊢
  dsimp only at nonneg ⊢
  split at nonneg
  · rename_i none
    have given : 0 < c := by omega
    rw [if_pos none, scaled_exact posQ, stored_natCast small]
    refine ⟨fun _ => le_rfl, fun other => ?_, .inl ⟨given, rfl⟩⟩
    omega
  · rename_i other
    rw [if_neg other]
    split at nonneg
    · rename_i none
      rw [if_pos none, scaled_exact posQ', stored_natCast small']
      refine ⟨fun other => ?_, fun _ => le_rfl, .inr ⟨Nat.pos_of_ne_zero other, rfl⟩⟩
      omega
    · rename_i other'
      rw [if_neg other']
      obtain ⟨fit, fit'⟩ := fit_le (c := (c : ℚ)) (r := (r : ℚ)) posQ posQ'
      refine ⟨fun _ => bounded nonneg fit small, fun _ => bounded nonneg fit' small', ?_⟩
      cases fit_tight (c := (c : ℚ)) (r := (r : ℚ)) posQ posQ' with
      | inl tight =>
          left
          rw [tight, stored_natCast small]
          exact ⟨Nat.pos_of_ne_zero other', rfl⟩
      | inr tight =>
          right
          rw [tight, stored_natCast small']
          exact ⟨Nat.pos_of_ne_zero other, rfl⟩

theorem scaledSide_le {im : UInt64} {rate : ℚ} (nonneg : 0 ≤ rate) (le : rate ≤ 1) :
    (scaledSide im rate).toNat ≤ im.toNat := by
  have whole : 0 ≤ rate * doubleU im := mul_nonneg nonneg (Nat.cast_nonneg _)
  have fits : rate * doubleU im ≤ im.toNat := mul_le_of_le_one_left (Nat.cast_nonneg _) le
  have rounded : roundQ (rate * doubleU im) ≤ im.toNat := roundQ_le whole (by exact_mod_cast fits)
  have positive : 0 ≤ roundQ (rate * doubleU im) := le_roundQ whole (by exact_mod_cast whole)
  have word := uint32_toNat (roundQ (rate * doubleU im))
  rw [scaledSide]
  omega

theorem proportion_within {settings : Settings} (off : settings.disableZoomUp ≠ 1) (im : Im)
    {imCols imRows : UInt64} {pType cols rows : Int32} {c r : Nat} (pos : 1 ≤ imCols.toNat)
    (pos' : 1 ≤ imRows.toNat) (size : cols.toInt = c) (size' : rows.toInt = r) (some : 0 < c + r)
    (policy : pType ∈ [0, 1, 2, 3, 4]) (percent : pType = 3 → c ≤ 100 ∧ r ≤ 100)
    (sides : pType ≠ 3 → c ≤ imCols.toNat ∧ r ≤ imRows.toNat)
    (small : FitsInt imCols imRows pType c r) :
    (sized imCols imRows).wp (proportion settings im pType cols rows)
      (fun _ cuts => ∀ cut ∈ cuts, cut.Within imCols.toNat imRows.toNat) [] := by
  have atLeast : 0 ≤ cols.toInt := by omega
  have atLeast' : 0 ≤ rows.toInt := by omega
  have nat : cols.toInt.toNat = c := by omega
  have nat' : rows.toInt.toNat = r := by omega
  by_cases rounds : Rounds pType c r
  · rw [proportion_rounds off im pos pos' size size' rounds, List.forall_mem_singleton]
    obtain ⟨nonneg, nonneg'⟩ := rates_nonneg imCols.toNat imRows.toNat pType c r
    obtain ⟨le, le'⟩ := rates_le_one percent sides
    obtain ⟨bound, bound'⟩ := small rounds
    have whole (im : Nat) : (0 : ℚ) ≤ im := Nat.cast_nonneg im
    constructor
    · exact stored_le (mul_nonneg (whole _) nonneg) (mul_le_of_le_one_right (whole _) le) bound
    · exact stored_le (mul_nonneg (whole _) nonneg') (mul_le_of_le_one_right (whole _) le') bound'
  · simp only [List.mem_cons, List.not_mem_nil, or_false] at policy
    have apart : pType ≠ 3 := by
      rintro rfl
      exact rounds ⟨.inl rfl, some⟩
    obtain ⟨le, le'⟩ := sides apart
    have cut : (ulong cols).toNat ≤ imCols.toNat ∧ (ulong rows).toNat ≤ imRows.toNat := by
      rw [ulong_given atLeast, ulong_given atLeast']
      omega
    obtain rfl | rfl | rfl | rfl | rfl := policy
    · rw [proportion_zero off, List.forall_mem_singleton]
      exact cut
    · have both : c ≠ 0 ∧ r ≠ 0 := by
        rw [← not_or]
        exact fun free => rounds ⟨.inr (.inr ⟨rfl, free⟩), some⟩
      obtain ⟨wider, narrower⟩ := proportion_one_both off im imCols imRows
        (mt (size_zero size).mp both.1) (mt (size_zero size').mp both.2) fun cuts => ∀ cut ∈ cuts, cut.Within imCols.toNat imRows.toNat
      rw [double_nat size, double_nat size', doubleU, doubleU, toUInt32_given atLeast, nat] at wider
      rw [double_nat size, double_nat size', doubleU, doubleU, toUInt32_given atLeast', nat']
        at narrower
      by_cases wide : (c / imCols.toNat : ℚ) > r / imRows.toNat
      · apply (wider wide).mpr
        rw [List.forall_mem_cons, List.forall_mem_singleton]
        exact ⟨⟨le, scaledSide_le (by positivity) (quotient_le_one le)⟩, cut⟩
      · apply (narrower wide).mpr
        rw [List.forall_mem_cons, List.forall_mem_singleton]
        exact ⟨⟨scaledSide_le (by positivity) (quotient_le_one le'), le'⟩, cut⟩
    · rw [proportion_two off, List.forall_mem_singleton]
      exact cut
    · exact absurd rfl apart
    · exact absurd ⟨.inr (.inl rfl), some⟩ rounds

/-- The box of `p = 4` is filled on one side, and with zooming up disabled nothing that is passed is
larger than the image. -/
theorem fit_and_bounds (settings : Settings) (im : Im) {imCols imRows : UInt64} {cols rows : Int32}
    (pos : 1 ≤ imCols.toNat) (pos' : 1 ≤ imRows.toNat) (given : 0 ≤ cols.toInt)
    (given' : 0 ≤ rows.toInt) (some : 0 < cols.toInt + rows.toInt) :
    (sized imCols imRows).Returns (proportion settings im 4 cols rows)
      (fun _ cuts => ∃ w h, cuts = [.resize w h] ∧
        FitsBox (box settings imCols imRows 4 cols rows).1
          (box settings imCols imRows 4 cols rows).2 w h) [] ∧
    (settings.disableZoomUp = 1 → ∀ pType ∈ [0, 1, 2, 3, 4],
      FitsInt imCols imRows pType (box settings imCols imRows pType cols rows).1
        (box settings imCols imRows pType cols rows).2 →
      (sized imCols imRows).Returns (proportion settings im pType cols rows)
        (fun _ cuts => ∀ cut ∈ cuts, cut.Within imCols.toNat imRows.toNat) []) := by
  constructor
  · refine ⟨sized_runs _ _ (proportion_scales settings im 4 cols rows) im [], ?_⟩
    obtain ⟨side, side'⟩ := clamped_box settings imCols imRows 4 given given'
    have more := box_some settings 4 pos pos' given given' some
    have bound := (clamped settings imCols imRows 4 cols rows).1.toInt_lt
    have bound' := (clamped settings imCols imRows 4 cols rows).2.toInt_lt
    rw [proportion_clamped, proportion_rounds (zoom_allowed settings) im pos pos' side side'
      ⟨.inr (.inl rfl), more⟩]
    exact ⟨_, _, rfl, fit_box pos pos' (by omega) (by omega) more⟩
  · intro on pType policy small
    refine ⟨sized_runs _ _ (proportion_scales settings im pType cols rows) im [], ?_⟩
    obtain ⟨side, side'⟩ := clamped_box settings imCols imRows pType given given'
    obtain ⟨percent, sides⟩ := box_bounds on imCols imRows pType cols rows
    have more := box_some settings pType pos pos' given given' some
    rw [proportion_clamped]
    exact proportion_within (zoom_allowed settings) im pos pos' side side' more policy percent sides
      small

theorem fit_and_bounds_small :
    (sized 40 30).Returns (proportion { smallSettings 1 0 with disableZoomUp := 1 } () 4 20 50)
      (fun _ cuts => ∃ w h, cuts = [.resize w h] ∧
        FitsBox (box { smallSettings 1 0 with disableZoomUp := 1 } 40 30 4 20 50).1
          (box { smallSettings 1 0 with disableZoomUp := 1 } 40 30 4 20 50).2 w h) [] ∧
    (sized 40 30).Returns (proportion { smallSettings 1 0 with disableZoomUp := 1 } () 3 20 50)
      (fun _ cuts => ∀ cut ∈ cuts, cut.Within (40 : UInt64).toNat (30 : UInt64).toNat) [] := by
  have bounds := fit_and_bounds { smallSettings 1 0 with disableZoomUp := 1 } ()
    (by decide : 1 ≤ (40 : UInt64).toNat) (by decide : 1 ≤ (30 : UInt64).toNat)
    (by decide : 0 ≤ (20 : Int32).toInt) (by decide : 0 ≤ (50 : Int32).toInt) (by decide)
  exact ⟨bounds.1, bounds.2 rfl 3 (by decide) fun _ => ⟨by decide +kernel, by decide +kernel⟩⟩

/-- A box of twenty around ten is filled on no side with zooming up disabled, and a side of 2^31
makes a negative number of rows. -/
theorem fit_clamped :
    ¬(sized 10 10).wp (proportion { smallSettings 1 0 with disableZoomUp := 1 } () 4 20 20)
      (fun _ cuts => ∃ w h, cuts = [.resize w h] ∧ FitsBox 20 20 w h) [] ∧
    ¬(sized 1 0x80000000).wp (proportion { smallSettings 1 0 with disableZoomUp := 1 } () 1 1 0)
      (fun _ cuts => ∀ cut ∈ cuts, cut.Within 1 0x80000000) [] := by
  have sizes : clamped { smallSettings 1 0 with disableZoomUp := 1 } 10 10 4 20 20 = (10, 10) := by
    decide
  have sizes' : clamped { smallSettings 1 0 with disableZoomUp := 1 } 1 0x80000000 1 1 0 = (1, 0) := by
    decide
  constructor
  · rw [proportion_clamped, sizes, proportion_fit (zoom_allowed _) () 10 10 10 10 _ rfl]
    rintro ⟨w, h, same, -, -, filled⟩
    cases same
    exact absurd filled (by decide +kernel)
  · rw [proportion_clamped, sizes',
      (proportion_one_free (zoom_allowed _) () 1 0x80000000 (.inr rfl) _).1 (by decide),
      List.forall_mem_singleton]
    rintro ⟨-, rows⟩
    exact absurd rows (by decide +kernel)

/-! ## Sides that vanish -/

/-- A side that rounds to a multiple of `2 ^ 32`, as every one below a half does. -/
def Vanishes (q : ℚ) : Prop := ∃ m : Int, m * 2 ^ 32 - 1 / 2 ≤ q ∧ q < m * 2 ^ 32 + 1 / 2

theorem stored_pos {q : ℚ} (nonneg : 0 ≤ q) : 1 ≤ stored q ↔ ¬Vanishes q := by
  have multiple : (2 ^ 32 : Int) ∣ roundQ q ↔ Vanishes q := by
    rw [roundQ, if_pos nonneg]
    constructor
    · rintro ⟨m, here⟩
      rw [Int.floor_eq_iff] at here
      push_cast at here
      exact ⟨m, by linarith, by linarith⟩
    · rintro ⟨m, low, high⟩
      refine ⟨m, Int.floor_eq_iff.mpr ?_⟩
      push_cast
      constructor <;> linarith
  have value := stored_toNat q
  rw [← multiple]
  omega

theorem box_free (settings : Settings) (imCols imRows : UInt64) {pType cols rows : Int32}
    (other : pType ≠ 3) (free : cols = 0 ∨ rows = 0) :
    (box settings imCols imRows pType cols rows).1 = 0 ∨
      (box settings imCols imRows pType cols rows).2 = 0 := by
  have zero : (0 : Int32).toInt.toNat = 0 := rfl
  rw [box, if_neg other]
  split_ifs
  · refine free.imp (fun none => ?_) fun none => ?_
    · rw [none, zero, Nat.zero_min]
    · rw [none, zero, Nat.zero_min]
  · refine free.imp (fun none => ?_) fun none => ?_
    · rw [none, zero]
    · rw [none, zero]

/-- Neither side that is passed is zero, exactly when no exact side rounds to a multiple of
`2 ^ 32`. -/
theorem sides_remain (settings : Settings) (im : Im) {imCols imRows : UInt64}
    {pType cols rows : Int32} {c r : Nat} (pos : 1 ≤ imCols.toNat) (pos' : 1 ≤ imRows.toNat)
    (given : 0 ≤ cols.toInt) (given' : 0 ≤ rows.toInt) (some : 0 < cols.toInt + rows.toInt)
    (policy : pType = 1 ∧ (cols = 0 ∨ rows = 0) ∨ pType = 4 ∨ pType = 3)
    (sizes : box settings imCols imRows pType cols rows = (c, r)) :
    (sized imCols imRows).Returns (proportion settings im pType cols rows)
        (fun _ cuts => ∃ w h, cuts = [.resize w h] ∧ 1 ≤ w ∧ 1 ≤ h) [] ↔
      ¬Vanishes (imCols.toNat * (rates imCols.toNat imRows.toNat pType c r).1) ∧
        ¬Vanishes (imRows.toNat * (rates imCols.toNat imRows.toNat pType c r).2) := by
  have runs := sized_runs imCols imRows (proportion_scales settings im pType cols rows) im []
  obtain ⟨side, side'⟩ := clamped_box settings imCols imRows pType given given'
  have more := box_some settings pType pos pos' given given' some
  have rounds : Rounds pType c r := by
    rw [sizes] at more
    refine ⟨?_, more⟩
    obtain ⟨rfl, free⟩ | rfl | rfl := policy
    · have none := box_free settings imCols imRows
        (by decide : (1 : Int32) ≠ 3) free
      rw [sizes] at none
      exact .inr (.inr ⟨rfl, none⟩)
    · exact .inr (.inl rfl)
    · exact .inl rfl
  rw [sizes] at side side'
  obtain ⟨nonneg, nonneg'⟩ := rates_nonneg imCols.toNat imRows.toNat pType c r
  have whole (im : Nat) : (0 : ℚ) ≤ im := Nat.cast_nonneg im
  rw [Machine.Returns, and_iff_right runs, proportion_clamped,
    proportion_rounds (zoom_allowed settings) im pos pos' side side' rounds,
    ← stored_pos (mul_nonneg (whole _) nonneg), ← stored_pos (mul_nonneg (whole _) nonneg')]
  constructor
  · rintro ⟨w, h, same, wide, high⟩
    cases same
    exact ⟨wide, high⟩
  · exact fun both => ⟨_, _, rfl, both⟩

theorem sides_remain_small :
    (sized 1000 10).Returns (proportion (smallSettings 1 0) () 1 100 0)
        (fun _ cuts => ∃ w h, cuts = [.resize w h] ∧ 1 ≤ w ∧ 1 ≤ h) [] ↔
      ¬Vanishes ((1000 : UInt64).toNat *
          (rates (1000 : UInt64).toNat (10 : UInt64).toNat 1 100 0).1) ∧
        ¬Vanishes ((10 : UInt64).toNat *
          (rates (1000 : UInt64).toNat (10 : UInt64).toNat 1 100 0).2) :=
  sides_remain (smallSettings 1 0) () (by decide) (by decide) (by decide) (by decide) (by decide)
    (.inl ⟨rfl, .inr rfl⟩) rfl

theorem row_vanishes :
    ¬(sized 1000 1).wp (proportion (smallSettings 1 0) () 1 100 0)
      (fun _ cuts => ∃ w h, cuts = [.resize w h] ∧ 1 ≤ w ∧ 1 ≤ h) [] := by
  rw [(proportion_one_free (by decide) () 1000 1 (.inr rfl) _).1 (by decide)]
  rintro ⟨w, h, same, -, row⟩
  cases same
  exact absurd row (by decide +kernel)

end Ximg
