import Ximg.Zcommon
import Mathlib.Data.Rat.Floor

/-!
# Scaling and cropping

The conversion of an image by request arguments. The `double` computations are read as exact
rationals; integers keep the widths and the conversions of the source.
-/

namespace Ximg
open Text Calls

variable {Im : Type} (settings : Settings)

/-- An `int` where an `unsigned long` is expected. -/
def ulong (i : Int32) : UInt64 := i.toInt64.toUInt64

/-- An `unsigned long` stored in an `int`. -/
def int (u : UInt64) : Int32 := u.toUInt32.toInt32

def roundQ (q : ℚ) : Int := if 0 ≤ q then ⌊q + 1 / 2⌋ else -⌊-q + 1 / 2⌋

def uint32 (i : Int) : UInt32 := UInt32.ofNat (i % 2 ^ 32).toNat

def double (i : Int32) : ℚ := i.toInt

def doubleU (u : UInt64) : ℚ := u.toNat

/-- What an operation of the library returns as an `int`. -/
def passFail (pass : Bool) : Int := if pass then 1 else 0

def proportion (im : Im) (pType cols rows : Int32) : Prog (Sys Im) (Int × Im) := do
  let imCols ← magick (.getImageWidth im)
  let imRows ← magick (.getImageHeight im)
  let (cols, rows) :=
    if settings.disableZoomUp = 1 then
      if pType = 3 then (if cols > 100 then 100 else cols, if rows > 100 then 100 else rows)
      else (if ulong cols > imCols then int imCols else cols,
        if ulong rows > imRows then int imRows else rows)
    else (cols, rows)
  if pType = 1 then
    if cols = 0 ∨ rows = 0 then
      let (cols, rows) :=
        if cols > 0 then
          (cols, (uint32 (roundQ (double cols / doubleU imCols * doubleU imRows))).toInt32)
        else ((uint32 (roundQ (double rows / doubleU imRows * doubleU imCols))).toInt32, rows)
      let (ret, im) ← magick (.resizeImage im (ulong cols) (ulong rows))
      return (passFail ret, im)
    else
      let colsRate := double cols / doubleU imCols
      let rowsRate := double rows / doubleU imRows
      let (x, y, sCols, sRows) :=
        if colsRate > rowsRate then
          let sRows := uint32 (roundQ (colsRate * doubleU imRows))
          ((0 : UInt32), uint32 ⌊((sRows - rows.toUInt32).toNat : ℚ) / 2⌋, cols.toUInt32, sRows)
        else
          let sCols := uint32 (roundQ (rowsRate * doubleU imCols))
          (uint32 ⌊((sCols - cols.toUInt32).toNat : ℚ) / 2⌋, (0 : UInt32), sCols, rows.toUInt32)
      let (_, im) ← magick (.resizeImage im sCols.toUInt64 sRows.toUInt64)
      let (ret, im) ← magick (.cropImage im (ulong cols) (ulong rows) x.toUInt64.toInt64
        y.toUInt64.toInt64)
      return (passFail ret, im)
  else if pType = 2 then
    let x := uint32 ⌊((imCols - ulong cols).toNat : ℚ) / 2⌋
    let y := uint32 ⌊((imRows - ulong rows).toNat : ℚ) / 2⌋
    let (ret, im) ← magick (.cropImage im (ulong cols) (ulong rows) x.toUInt64.toInt64
      y.toUInt64.toInt64)
    return (passFail ret, im)
  else if pType = 3 then
    let percent (side : UInt64) (rate : Int32) : Int32 :=
      (uint32 (roundQ (doubleU side * double rate / 100))).toInt32
    let (cols, rows) :=
      if cols = 0 ∨ rows = 0 then
        let rate := if cols > 0 then cols else rows
        (percent imCols rate, percent imRows rate)
      else (percent imCols cols, percent imRows rows)
    let (ret, im) ← magick (.resizeImage im (ulong cols) (ulong rows))
    return (passFail ret, im)
  else if pType = 0 then
    let (ret, im) ← magick (.resizeImage im (ulong cols) (ulong rows))
    return (passFail ret, im)
  else if pType = 4 then
    let rate :=
      if cols = 0 ∨ rows = 0 then
        if cols > 0 then double cols / doubleU imCols else double rows / doubleU imRows
      else
        let rateCol := double cols / doubleU imCols
        let rateRow := double rows / doubleU imRows
        if rateCol < rateRow then rateCol else rateRow
    let cols := (uint32 (roundQ (doubleU imCols * rate))).toInt32
    let rows := (uint32 (roundQ (doubleU imRows * rate))).toInt32
    let (ret, im) ← magick (.resizeImage im (ulong cols) (ulong rows))
    return (passFail ret, im)
  else return (-1, im)

def crop (im : Im) (x y cols rows : Int32) : Prog (Sys Im) (Int × Im) := do
  let imCols ← magick (.getImageWidth im)
  let imRows ← magick (.getImageHeight im)
  let x := if x < 0 then 0 else x
  let y := if y < 0 then 0 else y
  if ulong x ≥ imCols ∨ ulong y ≥ imRows then return (-1, im)
  else
    let cols := if cols = 0 ∨ imCols < ulong (x + cols) then int (imCols - ulong x) else cols
    let rows := if rows = 0 ∨ imRows < ulong (y + rows) then int (imRows - ulong y) else rows
    let (ret, im) ← magick (.cropImage im (ulong cols) (ulong rows) x.toInt64 y.toInt64)
    return (passFail ret, im)

/-! ## The steps of a conversion

Each step says whether it passed, with the wand after it. -/

def orientStep (im : Im) : Prog (Sys Im) (Bool × Im) := do
  let orientation ← magick (.getImageOrientation im)
  if orientation > 1 then magick (.autoOrientImage im) else return (true, im)

def scaleStep (im : Im) (req : ZimgReq) : Prog (Sys Im) (Bool × Im) :=
  if ¬(req.width = 0 ∧ req.height = 0) then
    if req.x = -1 ∧ req.y = -1 then do
      let (ret, im) ← proportion settings im req.proportion req.width req.height
      return (ret = 1, im)
    else do
      let (ret, im) ← crop im req.x req.y req.width req.height
      return (ret = 1, im)
  else return (true, im)

def rotateStep (im : Im) (req : ZimgReq) : Prog (Sys Im) (Bool × Im) :=
  if req.rotate ≠ 0 then do
    if (← magick .newPixelWand) = false then return (false, im)
    else if (← magick (.pixelSetColor (ascii "white"))) = false then return (false, im)
    else magick (.rotateImage im (ascii "white") req.rotate)
  else return (true, im)

def grayStep (im : Im) (req : ZimgReq) : Prog (Sys Im) (Bool × Im) :=
  if req.gray = 1 then magick (.setImageTypeGrayscale im) else return (true, im)

def qualityStep (im : Im) (req : ZimgReq) : Prog (Sys Im) (Bool × Im) := do
  let quality ← magick (.getImageCompressionQuality im)
  if quality = 0 ∨ quality > req.quality then
    magick (.setImageCompressionQuality im (ulong req.quality))
  else return (true, im)

def formatStep (im : Im) (req : ZimgReq) : Prog (Sys Im) (Bool × Im) :=
  if req.fmt.bytes.take 4 ≠ ascii "none" then magick (.setImageFormat im req.fmt.bytes)
  else return (true, im)

def onPass (step : Prog (Sys Im) (Bool × Im)) (next : Im → Prog (Sys Im) (Int × Im)) :
    Prog (Sys Im) (Int × Im) := do
  let (pass, im) ← step
  if pass then next im else return (-1, im)

/-- The return code, with the wand after the conversion. -/
def convert (im : Im) (req : ZimgReq) : Prog (Sys Im) (Int × Im) := do
  let im ← magick (.resetIterator im)
  onPass (orientStep im) fun im =>
    onPass (scaleStep settings im req) fun im =>
      onPass (rotateStep im req) fun im =>
        onPass (grayStep im req) fun im =>
          onPass (qualityStep im req) fun im =>
            onPass (formatStep im req) fun im =>
              onPass (magick (.stripImage im)) fun im => return (1, im)

end Ximg
