import Ximg.Zscale
import Mathlib.Tactic.Linarith

/-!
# Sizes and rectangles

What an image of a given size is resized and cropped to: the conversions between the integers of
the source, and the rectangles of `crop` and of the centred cut.
-/

namespace Ximg
open Calls

/-! ## Conversions -/

theorem ulong_toNat (i : Int32) : ((ulong i).toNat : Int) = i.toInt % 2 ^ 64 := by
  have wide : i.toInt64.toInt = i.toInt := Int32.toInt_toInt64 i
  have word : ((ulong i).toNat : Int) = i.toInt64.toInt % 2 ^ 64 := by
    show (i.toInt64.toBitVec.toNat : Int) = i.toInt64.toBitVec.toInt % 2 ^ 64
    have := i.toInt64.toBitVec.isLt
    have := BitVec.toInt_eq_toNat_cond i.toInt64.toBitVec
    omega
  rw [word, wide]

theorem int_toInt {u : UInt64} (small : u.toNat < 2 ^ 31) : (int u).toInt = u.toNat := by
  show u.toUInt32.toBitVec.toInt = u.toNat
  have word : u.toUInt32.toBitVec.toNat = u.toNat % 2 ^ 32 := rfl
  rw [BitVec.toInt_eq_toNat_cond, word]
  omega

theorem uint32_toNat (i : Int) : ((uint32 i).toNat : Int) = i % 2 ^ 32 := by
  rw [uint32, UInt32.toNat_ofNat']
  omega

theorem toUInt32_toNat (i : Int32) : (i.toUInt32.toNat : Int) = i.toInt % 2 ^ 32 := by
  show (i.toBitVec.toNat : Int) = i.toBitVec.toInt % 2 ^ 32
  have := BitVec.toInt_eq_toNat_cond i.toBitVec
  have := i.toBitVec.isLt
  omega

theorem toInt32_toInt (u : UInt32) :
    u.toInt32.toInt = if u.toNat < 2 ^ 31 then (u.toNat : Int) else u.toNat - 2 ^ 32 := by
  show u.toBitVec.toInt = _
  have := BitVec.toInt_eq_toNat_cond u.toBitVec
  have word : u.toBitVec.toNat = u.toNat := rfl
  rw [this, word]
  split_ifs <;> omega

theorem long_toInt (u : UInt32) : u.toUInt64.toInt64.toInt = u.toNat := by
  have := u.toNat_lt
  show u.toUInt64.toBitVec.toInt = u.toNat
  have word : u.toUInt64.toBitVec.toNat = u.toNat := rfl
  rw [BitVec.toInt_eq_toNat_cond, word]
  omega

theorem half_floor (n : Nat) : ⌊(n : ℚ) / 2⌋ = (n / 2 : Nat) := by
  have := Rat.floor_natCast_div_natCast n 2
  push_cast at this ⊢
  exact this

/-! ## The image under conversion -/

variable {Im : Type}

inductive Cut where
  | resize (cols rows : Nat)
  | crop (cols rows : Nat) (x y : Int)
  deriving DecidableEq

def SysOp.cut : SysOp Im → Option Cut
  | .magick (.resizeImage _ cols rows) => some (.resize cols.toNat rows.toNat)
  | .magick (.cropImage _ cols rows x y) => some (.crop cols.toNat rows.toNat x.toInt y.toInt)
  | _ => none

def ReportsSize (imCols imRows : UInt64) : (op : SysOp Im) → op.Res → Prop
  | .magick (.getImageWidth _), r => r = imCols
  | .magick (.getImageHeight _), r => r = imRows
  | _, _ => True

def sized (imCols imRows : UInt64) : Machine (Sys Im) (List Cut) where
  Legal _ op r := ReportsSize imCols imRows op r
  effect cuts op _ := cuts ++ (SysOp.cut op).toList

def Scales : SysOp Im → Prop
  | .magick (.getImageWidth _) | .magick (.getImageHeight _) | .magick (.resizeImage _ _ _) |
    .magick (.cropImage _ _ _ _ _) => True
  | _ => False

section Rules
variable (imCols imRows : UInt64) {α : Type}

theorem sized_runs {p : Prog (Sys Im) α} (uses : p.Uses Scales) (im : Im) (cuts : List Cut) :
    ∃ a cuts', (sized imCols imRows).Runs p cuts a cuts' := by
  refine Machine.runs_exists_of_uses uses ?_ cuts
  intro _ op scales
  unfold Scales at scales
  split at scales
  · exact ⟨imCols, rfl⟩
  · exact ⟨imRows, rfl⟩
  · exact ⟨(true, im), trivial⟩
  · exact ⟨(true, im), trivial⟩
  · cases scales

theorem sized_width (im : Im) (k : UInt64 → Prog (Sys Im) α) (Q : α → List Cut → Prop)
    (cuts : List Cut) :
    (sized imCols imRows).wp (.call (.magick (.getImageWidth im)) k) Q cuts ↔
      (sized imCols imRows).wp (k imCols) Q cuts := by
  show (∀ r, r = imCols → (sized imCols imRows).wp (k r) Q (cuts ++ [])) ↔ _
  rw [List.append_nil]
  exact forall_eq

theorem sized_height (im : Im) (k : UInt64 → Prog (Sys Im) α) (Q : α → List Cut → Prop)
    (cuts : List Cut) :
    (sized imCols imRows).wp (.call (.magick (.getImageHeight im)) k) Q cuts ↔
      (sized imCols imRows).wp (k imRows) Q cuts := by
  show (∀ r, r = imRows → (sized imCols imRows).wp (k r) Q (cuts ++ [])) ↔ _
  rw [List.append_nil]
  exact forall_eq

theorem sized_resize (im : Im) (cols rows : UInt64) (k : Bool × Im → Prog (Sys Im) α)
    (Q : α → List Cut → Prop) (cuts : List Cut) :
    (sized imCols imRows).wp (.call (.magick (.resizeImage im cols rows)) k) Q cuts ↔
      ∀ r, (sized imCols imRows).wp (k r) Q (cuts ++ [.resize cols.toNat rows.toNat]) :=
  forall_congr' fun _ => ⟨fun h => h trivial, fun h _ => h⟩

theorem sized_crop (im : Im) (cols rows : UInt64) (x y : Int64) (k : Bool × Im → Prog (Sys Im) α)
    (Q : α → List Cut → Prop) (cuts : List Cut) :
    (sized imCols imRows).wp (.call (.magick (.cropImage im cols rows x y)) k) Q cuts ↔
      ∀ r, (sized imCols imRows).wp (k r) Q
        (cuts ++ [.crop cols.toNat rows.toNat x.toInt y.toInt]) :=
  forall_congr' fun _ => ⟨fun h => h trivial, fun h _ => h⟩

theorem crop_scales (im : Im) (x y cols rows : Int32) : (crop im x y cols rows).Uses Scales := by
  simp only [crop, magick_bind, Prog.pure_eq, Prog.Uses]
  refine ⟨trivial, fun imCols => ⟨trivial, fun imRows => ?_⟩⟩
  split_ifs <;> simp [Prog.Uses, Scales]

theorem proportion_scales (settings : Settings) (im : Im) (pType cols rows : Int32) :
    (proportion settings im pType cols rows).Uses Scales := by
  simp only [proportion, magick_bind, Prog.pure_eq, Prog.Uses]
  refine ⟨trivial, fun imCols => ⟨trivial, fun imRows => ?_⟩⟩
  split_ifs <;> simp [Prog.Uses, Scales]

end Rules

def Cut.Inside (imCols imRows : Nat) : Cut → Prop
  | .resize _ _ => True
  | .crop cols rows x y =>
      0 ≤ x ∧ 0 ≤ y ∧ 1 ≤ cols ∧ 1 ≤ rows ∧ x + cols ≤ imCols ∧ y + rows ≤ imRows

instance (imCols imRows : Nat) : (cut : Cut) → Decidable (cut.Inside imCols imRows)
  | .resize _ _ => inferInstanceAs (Decidable True)
  | .crop _ _ _ _ => inferInstanceAs (Decidable (_ ∧ _))

/-! ## The rectangle of a crop -/

def offset (i : Int32) : Int32 := if i < 0 then 0 else i

def cutSide (im : UInt64) (start size : Int32) : Int32 :=
  if size = 0 ∨ im < ulong (start + size) then int (im - ulong start) else size

theorem crop_cuts (im : Im) (imCols imRows : UInt64) (x y cols rows : Int32)
    (Q : List Cut → Prop) :
    (sized imCols imRows).wp (crop im x y cols rows) (fun _ cuts => Q cuts) [] ↔
      if ulong (offset x) ≥ imCols ∨ ulong (offset y) ≥ imRows then Q []
      else Q [.crop (ulong (cutSide imCols (offset x) cols)).toNat
        (ulong (cutSide imRows (offset y) rows)).toNat (offset x).toInt (offset y).toInt] := by
  have clamp (i : Int32) : (if i < 0 then 0 else i) = offset i := rfl
  simp only [crop, magick_bind, sized_width, sized_height, clamp]
  split
  · rfl
  · simp only [sized_crop, Int32.toInt_toInt64]
    exact ⟨fun h => h (true, im), fun h _ => h⟩

theorem offset_toInt_eq (i : Int32) : (offset i).toInt = max i.toInt 0 := by
  have zero : (0 : Int32).toInt = 0 := rfl
  rw [offset]
  split
  · rename_i h
    rw [Int32.lt_iff_toInt_lt, zero] at h
    omega
  · rename_i h
    rw [Int32.lt_iff_toInt_lt, zero] at h
    omega

theorem cutSide_inside {im : UInt64} (start size : Int32) (small : im.toNat < 2 ^ 31)
    (at' : 0 ≤ start.toInt) (inside : start.toInt < im.toNat) :
    (1 ≤ (ulong (cutSide im start size)).toNat ∧
      start.toInt + (ulong (cutSide im start size)).toNat ≤ im.toNat) ↔
      ¬(size.toInt < 0 ∧ 0 ≤ start.toInt + size.toInt) := by
  have zero : size = 0 ↔ size.toInt = 0 := by
    rw [← Int32.toInt_inj]
    rfl
  have bounds := size.toInt_lt
  have bounds' := size.le_toInt
  -- a sum that wraps is negative
  have sum : (start + size).toInt = if start.toInt + size.toInt < 2 ^ 31 then
      start.toInt + size.toInt else start.toInt + size.toInt - 2 ^ 32 := by
    rw [Int32.toInt_add, Int.bmod_def]
    split_ifs <;> omega
  have word := ulong_toNat (start + size)
  have startWord := ulong_toNat start
  have sub : (im - ulong start).toNat = im.toNat - start.toInt.toNat := by
    rw [UInt64.toNat_sub]
    omega
  have rest := int_toInt (u := im - ulong start) (by omega)
  have restWord := ulong_toNat (int (im - ulong start))
  have sizeWord := ulong_toNat size
  rw [cutSide]
  split
  · rename_i all
    rw [zero, UInt64.lt_iff_toNat_lt] at all
    omega
  · rename_i part
    rw [zero, UInt64.lt_iff_toNat_lt] at part
    omega

/-- A negative size that ends inside the image. -/
def Backwards (start size : Int32) : Prop :=
  size.toInt < 0 ∧ 0 ≤ max start.toInt 0 + size.toInt

instance (start size : Int32) : Decidable (Backwards start size) :=
  inferInstanceAs (Decidable (_ ∧ _))

/-- The rectangle of a crop lies inside the image, exactly when no negative size ends inside it. -/
theorem crop_confined (im : Im) {imCols imRows : UInt64} (small : imCols.toNat < 2 ^ 31)
    (small' : imRows.toNat < 2 ^ 31) (x y cols rows : Int32) :
    (sized imCols imRows).Returns (crop im x y cols rows)
        (fun _ cuts => ∀ cut ∈ cuts, cut.Inside imCols.toNat imRows.toNat) [] ↔
      (max x.toInt 0 < imCols.toNat → max y.toInt 0 < imRows.toNat →
        ¬Backwards x cols ∧ ¬Backwards y rows) := by
  have runs := sized_runs imCols imRows (crop_scales im x y cols rows) im []
  rw [Machine.Returns, and_iff_right runs, crop_cuts]
  have outside {side : UInt64} (small : side.toNat < 2 ^ 31) (i : Int32) :
      ulong (offset i) ≥ side ↔ ¬max i.toInt 0 < side.toNat := by
    have word := ulong_toNat (offset i)
    have bound := i.toInt_lt
    rw [offset_toInt_eq] at word
    rw [ge_iff_le, UInt64.le_iff_toNat_le]
    omega
  split
  · rename_i away
    rw [outside small, outside small'] at away
    refine iff_of_true (by simp) fun inside inside' => ?_
    cases away with
    | inl away => exact absurd inside away
    | inr away => exact absurd inside' away
  · rename_i reached
    rw [outside small, outside small', not_or, not_not, not_not] at reached
    obtain ⟨inside, inside'⟩ := reached
    have side := cutSide_inside (offset x) cols small
    have side' := cutSide_inside (offset y) rows small'
    rw [offset_toInt_eq] at side side'
    have side := side (le_max_right _ _) inside
    have side' := side' (le_max_right _ _) inside'
    rw [List.forall_mem_singleton, Cut.Inside, offset_toInt_eq, offset_toInt_eq, Backwards,
      Backwards, ← side, ← side']
    constructor
    · rintro ⟨-, -, cols, rows, right, bottom⟩ - -
      exact ⟨⟨cols, right⟩, rows, bottom⟩
    · intro both
      obtain ⟨⟨cols, right⟩, rows, bottom⟩ := both inside inside'
      exact ⟨le_max_right _ _, le_max_right _ _, cols, rows, right, bottom⟩

theorem crop_confined_small :
    (sized 100 80).Returns (crop () 10 0 (-20) 30)
        (fun _ cuts => ∀ cut ∈ cuts, cut.Inside (100 : UInt64).toNat (80 : UInt64).toNat) [] ↔
      (max (10 : Int32).toInt 0 < (100 : UInt64).toNat → max (0 : Int32).toInt 0 < (80 : UInt64).toNat →
        ¬Backwards 10 (-20) ∧ ¬Backwards 0 30) :=
  crop_confined () (by decide) (by decide) 10 0 (-20) 30

/-- Five columns to the left of the tenth: a width of 2^64 - 5 is asked for. -/
theorem negative_width :
    ¬(sized 100 80).wp (crop () 10 0 (-5) 30)
      (fun _ cuts => ∀ cut ∈ cuts, cut.Inside 100 80) [] := by
  rw [crop_cuts]
  decide +kernel

/-! ## With zooming up disabled -/

/-- The sizes that are worked with: with zooming up disabled, at most those of the image, or 100 per
cent. -/
def clamped (settings : Settings) (imCols imRows : UInt64) (pType cols rows : Int32) :
    Int32 × Int32 :=
  if settings.disableZoomUp = 1 then
    if pType = 3 then (if cols > 100 then 100 else cols, if rows > 100 then 100 else rows)
    else (if ulong cols > imCols then int imCols else cols,
      if ulong rows > imRows then int imRows else rows)
  else (cols, rows)

theorem proportion_clamped (settings : Settings) (im : Im) (imCols imRows : UInt64)
    (pType cols rows : Int32) (Q : Int × Im → List Cut → Prop) :
    (sized imCols imRows).wp (proportion settings im pType cols rows) Q [] ↔
      (sized imCols imRows).wp (proportion { settings with disableZoomUp := 0 } im pType
        (clamped settings imCols imRows pType cols rows).1
        (clamped settings imCols imRows pType cols rows).2) Q [] := by
  have off : ¬({ settings with disableZoomUp := 0 } : Settings).disableZoomUp = 1 := by
    show ¬(0 : Int32) = 1
    decide
  refine (sized_width _ _ im _ Q []).trans (Iff.trans ?_ (sized_width _ _ im _ Q []).symm)
  refine (sized_height _ _ im _ Q []).trans (Iff.trans ?_ (sized_height _ _ im _ Q []).symm)
  dsimp -zeta -zetaHave only [Prog.bind]
  rw [if_neg off]
  generalize sizes : clamped settings imCols imRows pType cols rows = size
  unfold clamped at sizes
  rw [sizes]

theorem zoom_allowed (settings : Settings) :
    ({ settings with disableZoomUp := 0 } : Settings).disableZoomUp ≠ 1 := by
  show (0 : Int32) ≠ 1
  decide

def box (settings : Settings) (imCols imRows : UInt64) (pType cols rows : Int32) : Nat × Nat :=
  if settings.disableZoomUp = 1 then
    if pType = 3 then (min cols.toInt.toNat 100, min rows.toInt.toNat 100)
    else (min cols.toInt.toNat imCols.toNat, min rows.toInt.toNat imRows.toNat)
  else (cols.toInt.toNat, rows.toInt.toNat)

theorem clamped_box (settings : Settings) (imCols imRows : UInt64) (pType : Int32)
    {cols rows : Int32} (given : 0 ≤ cols.toInt) (given' : 0 ≤ rows.toInt) :
    (clamped settings imCols imRows pType cols rows).1.toInt =
        (box settings imCols imRows pType cols rows).1 ∧
      (clamped settings imCols imRows pType cols rows).2.toInt =
        (box settings imCols imRows pType cols rows).2 := by
  have percent {size : Int32} (given : 0 ≤ size.toInt) :
      (if size > 100 then 100 else size).toInt = min size.toInt.toNat 100 := by
    have hundred : (100 : Int32).toInt = 100 := rfl
    split
    · rename_i more
      rw [gt_iff_lt, Int32.lt_iff_toInt_lt, hundred] at more
      omega
    · rename_i less
      rw [gt_iff_lt, Int32.lt_iff_toInt_lt, hundred] at less
      omega
  have side {im : UInt64} {size : Int32} (given : 0 ≤ size.toInt) :
      (if ulong size > im then int im else size).toInt = min size.toInt.toNat im.toNat := by
    have word := ulong_toNat size
    have bound := size.toInt_lt
    split
    · rename_i more
      rw [gt_iff_lt, UInt64.lt_iff_toNat_lt] at more
      rw [int_toInt (by omega)]
      omega
    · rename_i less
      rw [gt_iff_lt, UInt64.lt_iff_toNat_lt] at less
      omega
  rw [clamped, box]
  split
  · split
    · exact ⟨percent given, percent given'⟩
    · exact ⟨side given, side given'⟩
  · exact ⟨(Int.toNat_of_nonneg given).symm, (Int.toNat_of_nonneg given').symm⟩

theorem box_pos (settings : Settings) {imCols imRows : UInt64} (pType : Int32) {cols rows : Int32}
    (pos : 1 ≤ imCols.toNat) (pos' : 1 ≤ imRows.toNat) (given : 1 ≤ cols.toInt)
    (given' : 1 ≤ rows.toInt) :
    1 ≤ (box settings imCols imRows pType cols rows).1 ∧
      1 ≤ (box settings imCols imRows pType cols rows).2 := by
  rw [box]
  split_ifs <;> dsimp only <;> omega

/-! ## The centred rectangle -/

def centre (im : UInt64) (size : Int32) : UInt32 := uint32 ⌊((im - ulong size).toNat : ℚ) / 2⌋

theorem proportion_two {settings : Settings} (off : settings.disableZoomUp ≠ 1) (im : Im)
    (imCols imRows : UInt64) (cols rows : Int32) (Q : List Cut → Prop) :
    (sized imCols imRows).wp (proportion settings im 2 cols rows) (fun _ cuts => Q cuts) [] ↔
      Q [.crop (ulong cols).toNat (ulong rows).toNat (centre imCols cols).toNat
        (centre imRows rows).toNat] := by
  have one : ¬(2 : Int32) = 1 := by decide
  simp only [proportion, magick_bind, sized_width, sized_height, if_neg off, if_neg one, if_true,
    sized_crop, long_toInt]
  exact ⟨fun h => h (true, im), fun h _ => h⟩

theorem centre_toNat (im : UInt64) (size : Int32) :
    ((centre im size).toNat : Int) = (im.toNat - size.toInt) % 2 ^ 64 / 2 % 2 ^ 32 := by
  have word := ulong_toNat size
  rw [centre, uint32_toNat, half_floor, UInt64.toNat_sub]
  omega

/-- The part inside the image of what begins at an offset is not empty, and there is as much on its
left as on its right. -/
def Centred (im size : Nat) (start : Int) : Prop :=
  0 ≤ start ∧ start < im ∧ |start - (im - min (start + size) im)| ≤ 1

theorem centre_centred {im : UInt64} {size : Int32} (pos : 1 ≤ im.toNat) (small : im.toNat < 2 ^ 31)
    (given : 1 ≤ size.toInt) :
    Centred im.toNat (ulong size).toNat (centre im size).toNat ↔ size.toInt ≤ im.toNat := by
  have word := ulong_toNat size
  have bound := size.toInt_lt
  have start := centre_toNat im size
  unfold Centred
  rw [abs_le]
  constructor
  · rintro ⟨-, inside, -⟩
    by_contra larger
    omega
  · intro fits
    omega
/-- A centred cut is centred in the image, exactly when the request is clamped or fits the image. -/
theorem centre_crop (settings : Settings) (im : Im) {imCols imRows : UInt64} {cols rows : Int32}
    (pos : 1 ≤ imCols.toNat) (small : imCols.toNat < 2 ^ 31) (pos' : 1 ≤ imRows.toNat)
    (small' : imRows.toNat < 2 ^ 31) (given : 1 ≤ cols.toInt) (given' : 1 ≤ rows.toInt) :
    (sized imCols imRows).Returns (proportion settings im 2 cols rows)
        (fun _ cuts => ∃ c r x y, cuts = [.crop c r x y] ∧ Centred imCols.toNat c x ∧
          Centred imRows.toNat r y) [] ↔
      settings.disableZoomUp = 1 ∨
        cols.toInt ≤ imCols.toNat ∧ rows.toInt ≤ imRows.toNat := by
  have runs := sized_runs imCols imRows (proportion_scales settings im 2 cols rows) im []
  have cut (c r : Nat) (x y : Int) : (∃ c' r' x' y', [Cut.crop c r x y] = [.crop c' r' x' y'] ∧
      Centred imCols.toNat c' x' ∧ Centred imRows.toNat r' y') ↔
        Centred imCols.toNat c x ∧ Centred imRows.toNat r y := by
    constructor
    · rintro ⟨_, _, _, _, same, both⟩
      cases same
      exact both
    · exact fun both => ⟨c, r, x, y, rfl, both⟩
  rw [Machine.Returns, and_iff_right runs, proportion_clamped, proportion_two (zoom_allowed settings), cut]
  have atLeast : 0 ≤ cols.toInt := by omega
  have atLeast' : 0 ≤ rows.toInt := by omega
  obtain ⟨side, side'⟩ := clamped_box settings imCols imRows 2 atLeast atLeast'
  have three : ¬(2 : Int32) = 3 := by decide
  rw [box, if_neg three] at side side'
  by_cases on : settings.disableZoomUp = 1
  · rw [if_pos on] at side side'
    rw [centre_centred pos small (by omega), centre_centred pos' small' (by omega), side, side']
    refine iff_of_true ⟨?_, ?_⟩ (.inl on)
    · exact Int.ofNat_le.mpr (min_le_right _ _)
    · exact Int.ofNat_le.mpr (min_le_right _ _)
  · rw [if_neg on] at side side'
    rw [centre_centred pos small (by omega), centre_centred pos' small' (by omega), side, side',
      Int.toNat_of_nonneg atLeast, Int.toNat_of_nonneg atLeast', or_iff_right on]

theorem centre_crop_small :
    (sized 100 80).Returns (proportion (smallSettings 1 0) () 2 30 81)
        (fun _ cuts => ∃ c r x y, cuts = [.crop c r x y] ∧ Centred (100 : UInt64).toNat c x ∧
          Centred (80 : UInt64).toNat r y) [] ↔
      (smallSettings 1 0).disableZoomUp = 1 ∨
        (30 : Int32).toInt ≤ (100 : UInt64).toNat ∧ (81 : Int32).toInt ≤ (80 : UInt64).toNat :=
  centre_crop (smallSettings 1 0) () (by decide) (by decide) (by decide) (by decide) (by decide)
    (by decide)

/-- 4106 columns of ten: the cut begins at -2048, which is read as 2^32 - 2048. The difference is a
multiple of 4096, so that it is the same as a double. -/
theorem wide_request :
    ¬(sized 10 10).wp (proportion (smallSettings 1 0) () 2 4106 10)
      (fun _ cuts => ∃ c r x y, cuts = [.crop c r x y] ∧ Centred 10 c x ∧ Centred 10 r y) [] := by
  rw [proportion_two (by decide)]
  rintro ⟨c, r, x, y, same, centred, -⟩
  cases same
  exact absurd centred.2.1 (by decide +kernel)

end Ximg
