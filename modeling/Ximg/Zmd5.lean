import Ximg.Library.Text
import Mathlib.Tactic.IntervalCases

/-!
# Message digests

The digest that names images and ETags, as the bundled implementation computes it on a machine
whose `int` has 32 bits.
-/

namespace Ximg
open Text

structure Md5State where
  /-- Message length in bits, least significant word first. -/
  count0 : UInt32
  count1 : UInt32
  a : UInt32
  b : UInt32
  c : UInt32
  d : UInt32
  buf : Bytes

def rotateLeft (x n : UInt32) : UInt32 := (x <<< n) ||| (x >>> (32 - n))

def md5F (x y z : UInt32) : UInt32 := (x &&& y) ||| (~~~x &&& z)
def md5G (x y z : UInt32) : UInt32 := (x &&& z) ||| (y &&& ~~~z)
def md5H (x y z : UInt32) : UInt32 := x ^^^ y ^^^ z
def md5I (x y z : UInt32) : UInt32 := y ^^^ (x ||| ~~~z)

def T_MASK : UInt32 := ~~~0

/-- The word index, the shift and the constant of each operation of a round. -/
abbrev Md5Round := List (Nat × UInt32 × UInt32)

def round1 : Md5Round :=
  [(0, 7, T_MASK ^^^ 0x28955b87), (1, 12, T_MASK ^^^ 0x173848a9), (2, 17, 0x242070db),
   (3, 22, T_MASK ^^^ 0x3e423111), (4, 7, T_MASK ^^^ 0x0a83f050), (5, 12, 0x4787c62a),
   (6, 17, T_MASK ^^^ 0x57cfb9ec), (7, 22, T_MASK ^^^ 0x02b96afe), (8, 7, 0x698098d8),
   (9, 12, T_MASK ^^^ 0x74bb0850), (10, 17, T_MASK ^^^ 0x0000a44e),
   (11, 22, T_MASK ^^^ 0x76a32841), (12, 7, 0x6b901122), (13, 12, T_MASK ^^^ 0x02678e6c),
   (14, 17, T_MASK ^^^ 0x5986bc71), (15, 22, 0x49b40821)]

def round2 : Md5Round :=
  [(1, 5, T_MASK ^^^ 0x09e1da9d), (6, 9, T_MASK ^^^ 0x3fbf4cbf), (11, 14, 0x265e5a51),
   (0, 20, T_MASK ^^^ 0x16493855), (5, 5, T_MASK ^^^ 0x29d0efa2), (10, 9, 0x02441453),
   (15, 14, T_MASK ^^^ 0x275e197e), (4, 20, T_MASK ^^^ 0x182c0437), (9, 5, 0x21e1cde6),
   (14, 9, T_MASK ^^^ 0x3cc8f829), (3, 14, T_MASK ^^^ 0x0b2af278), (8, 20, 0x455a14ed),
   (13, 5, T_MASK ^^^ 0x561c16fa), (2, 9, T_MASK ^^^ 0x03105c07), (7, 14, 0x676f02d9),
   (12, 20, T_MASK ^^^ 0x72d5b375)]

def round3 : Md5Round :=
  [(5, 4, T_MASK ^^^ 0x0005c6bd), (8, 11, T_MASK ^^^ 0x788e097e), (11, 16, 0x6d9d6122),
   (14, 23, T_MASK ^^^ 0x021ac7f3), (1, 4, T_MASK ^^^ 0x5b4115bb), (4, 11, 0x4bdecfa9),
   (7, 16, T_MASK ^^^ 0x0944b49f), (10, 23, T_MASK ^^^ 0x4140438f), (13, 4, 0x289b7ec6),
   (0, 11, T_MASK ^^^ 0x155ed805), (3, 16, T_MASK ^^^ 0x2b10cf7a), (6, 23, 0x04881d05),
   (9, 4, T_MASK ^^^ 0x262b2fc6), (12, 11, T_MASK ^^^ 0x1924661a), (15, 16, 0x1fa27cf8),
   (2, 23, T_MASK ^^^ 0x3b53a99a)]

def round4 : Md5Round :=
  [(0, 6, T_MASK ^^^ 0x0bd6ddbb), (7, 10, 0x432aff97), (14, 15, T_MASK ^^^ 0x546bdc58),
   (5, 21, T_MASK ^^^ 0x036c5fc6), (12, 6, 0x655b59c3), (3, 10, T_MASK ^^^ 0x70f3336d),
   (10, 15, T_MASK ^^^ 0x00100b82), (1, 21, T_MASK ^^^ 0x7a7ba22e), (8, 6, 0x6fa87e4f),
   (15, 10, T_MASK ^^^ 0x01d3191f), (6, 15, T_MASK ^^^ 0x5cfebceb), (13, 21, 0x4e0811a1),
   (4, 6, T_MASK ^^^ 0x08ac817d), (11, 10, T_MASK ^^^ 0x42c50dca), (2, 15, 0x2ad7d2bb),
   (9, 21, T_MASK ^^^ 0x14792c6e)]

/-- One `SET`; the registers change places so that the next one is written the same way. -/
def md5Set (f : UInt32 → UInt32 → UInt32 → UInt32) (x : List UInt32)
    (r : UInt32 × UInt32 × UInt32 × UInt32) (op : Nat × UInt32 × UInt32) :
    UInt32 × UInt32 × UInt32 × UInt32 :=
  let (a, b, c, d) := r
  let (k, s, ti) := op
  (d, rotateLeft (a + f b c d + x.getD k 0 + ti) s + b, b, c)

def words : Bytes → List UInt32
  | b0 :: b1 :: b2 :: b3 :: rest =>
      (b0.toUInt32 + (b1.toUInt32 <<< 8) + (b2.toUInt32 <<< 16) + (b3.toUInt32 <<< 24)) ::
        words rest
  | _ => []

def md5Process (pms : Md5State) (data : Bytes) : Md5State :=
  let x := words (data.take 64)
  let r := round1.foldl (md5Set md5F x) (pms.a, pms.b, pms.c, pms.d)
  let r := round2.foldl (md5Set md5G x) r
  let r := round3.foldl (md5Set md5H x) r
  let (a, b, c, d) := round4.foldl (md5Set md5I x) r
  { pms with a := pms.a + a, b := pms.b + b, c := pms.c + c, d := pms.d + d }

def md5Init : Md5State :=
  { count0 := 0, count1 := 0, a := 0x67452301, b := T_MASK ^^^ 0x10325476,
    c := T_MASK ^^^ 0x67452301, d := 0x10325476, buf := List.replicate 64 0 }

def md5Blocks (pms : Md5State) (p : Bytes) : Nat → Md5State × Bytes
  | 0 => (pms, p)
  | fuel + 1 =>
      if 64 ≤ p.length then md5Blocks (md5Process pms p) (p.drop 64) fuel else (pms, p)

def storeAt (buf : Bytes) (offset : Nat) (p : Bytes) : Bytes :=
  buf.take offset ++ p ++ buf.drop (offset + p.length)

def md5Append (pms : Md5State) (data : Bytes) (nbytes : Int32) : Md5State :=
  if nbytes ≤ 0 then pms
  else
    let n := nbytes.toInt.toNat
    let p := data.take n
    let offset := ((pms.count0 >>> 3) &&& 63).toNat
    let nbits := nbytes.toUInt32 <<< 3
    let count1 := pms.count1 + (nbytes.toUInt32 >>> 29)
    let count0 := pms.count0 + nbits
    let count1 := if count0 < nbits then count1 + 1 else count1
    let pms := { pms with count0 := count0, count1 := count1 }
    -- an initial partial block
    if offset ≠ 0 ∧ offset + n < 64 then { pms with buf := storeAt pms.buf offset p }
    else
      let copy := if offset ≠ 0 then 64 - offset else 0
      let pms :=
        if offset ≠ 0 then
          let pms := { pms with buf := storeAt pms.buf offset (p.take copy) }
          md5Process pms pms.buf
        else pms
      let (pms, rest) := md5Blocks pms (p.drop copy) n
      { pms with buf := storeAt pms.buf 0 rest }

def md5Pad : Bytes := 0x80 :: List.replicate 63 0

def wordBytes (w : UInt32) : Bytes :=
  [w.toUInt8, (w >>> 8).toUInt8, (w >>> 16).toUInt8, (w >>> 24).toUInt8]

def md5Finish (pms : Md5State) : Bytes :=
  let data := wordBytes pms.count0 ++ wordBytes pms.count1
  let sent : UInt32 := pms.count0 >>> 3
  let pms := md5Append pms md5Pad (((55 - sent) &&& 63) + 1).toInt32
  let pms := md5Append pms data 8
  wordBytes pms.a ++ wordBytes pms.b ++ wordBytes pms.c ++ wordBytes pms.d

def hexDigit (h : UInt8) : UInt8 := if h ≤ 9 then h + 0x30 else h + 0x57

def hexText (value : Bytes) : Bytes :=
  value.flatMap fun v : UInt8 => [hexDigit (v >>> 4), hexDigit (v &&& 0x0f)]

def md5sum (buff : Bytes) (len : Int32) : Bytes :=
  hexText (md5Finish (md5Append md5Init buff len))

theorem hexText_length (value : Bytes) : (hexText value).length = 2 * value.length := by
  induction value with
  | nil => rfl
  | cons v value ih =>
      rw [hexText, List.flatMap_cons, List.length_append, ← hexText, ih, List.length_cons]
      simp only [List.length_cons, List.length_nil]
      omega

theorem md5sum_length (buff : Bytes) (len : Int32) : (md5sum buff len).length = 32 := by
  rw [md5sum, hexText_length]
  rfl

def IsLowerHex (c : UInt8) : Prop := (48 ≤ c ∧ c ≤ 57) ∨ (97 ≤ c ∧ c ≤ 102)

theorem hexDigit_lowerHex {h : UInt8} (small : h < 16) : IsLowerHex (hexDigit h) := by
  unfold IsLowerHex hexDigit
  have bound : h.toNat < 16 := small
  rw [← UInt8.ofNat_toNat (x := h)]
  interval_cases h.toNat <;> decide

theorem hexText_lowerHex (value : Bytes) : ∀ c ∈ hexText value, IsLowerHex c := by
  intro c member
  obtain ⟨v, -, member⟩ := List.mem_flatMap.mp member
  rcases List.mem_cons.mp member with rfl | member
  · refine hexDigit_lowerHex ?_
    have : v.toNat < 256 := v.toNat_lt
    simp only [UInt8.lt_iff_toNat_lt, UInt8.toNat_shiftRight, UInt8.reduceToNat,
      Nat.shiftRight_eq_div_pow, Nat.reduceMod, Nat.reducePow]
    omega
  · rw [List.mem_singleton.mp member]
    refine hexDigit_lowerHex ?_
    simp only [UInt8.lt_iff_toNat_lt, UInt8.toNat_and, UInt8.reduceToNat]
    exact lt_of_le_of_lt Nat.and_le_right (by decide)

theorem md5sum_lowerHex (buff : Bytes) (len : Int32) : ∀ c ∈ md5sum buff len, IsLowerHex c :=
  hexText_lowerHex _

example : md5sum (ascii "abc") 3 = ascii "900150983cd24fb0d6963f7d28e17f72" := by decide +kernel

end Ximg
