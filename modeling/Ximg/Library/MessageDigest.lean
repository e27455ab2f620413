import Ximg.Library.Chaining
import Ximg.Library.SineTable
import Ximg.Library.Text

/-!
# The MD5 message digest

The digest of a byte string as its standard describes it: the message is padded to full blocks,
and 64 operations for each block mix its words into four registers.
-/

namespace MessageDigest
open Text Chaining

abbrev Registers := UInt32 × UInt32 × UInt32 × UInt32

noncomputable def constant (i : Nat) : UInt32 := UInt32.ofNat ⌊2 ^ 32 * |Real.sin i|⌋₊

def auxiliary (i : Nat) (x y z : UInt32) : UInt32 :=
  match i / 16 with
  | 0 => (x &&& y) ||| (~~~x &&& z)
  | 1 => (x &&& z) ||| (y &&& ~~~z)
  | 2 => x ^^^ y ^^^ z
  | _ => y ^^^ (x ||| ~~~z)

def wordIndex (i : Nat) : Nat :=
  match i / 16 with
  | 0 => i % 16
  | 1 => (5 * i + 1) % 16
  | 2 => (3 * i + 5) % 16
  | _ => 7 * i % 16

def shift (i : Nat) : UInt32 :=
  match i / 16 with
  | 0 => [7, 12, 17, 22].getD (i % 4) 0
  | 1 => [5, 9, 14, 20].getD (i % 4) 0
  | 2 => [4, 11, 16, 23].getD (i % 4) 0
  | _ => [6, 10, 15, 21].getD (i % 4) 0

def rotate (x n : UInt32) : UInt32 := (x <<< n) ||| (x >>> (32 - n))

def word (block : Bytes) (k : Nat) : UInt32 :=
  UInt32.ofNat (Nat.ofDigits 256 (((block.drop (4 * k)).take 4).map UInt8.toNat))

/-- The registers are renamed after each operation, as the standard's schedule does. -/
noncomputable def operation (block : Bytes) (r : Registers) (i : Nat) : Registers :=
  let (a, b, c, d) := r
  let sum := a + auxiliary i b c d + word block (wordIndex i) + constant (i + 1)
  (d, b + rotate sum (shift i), b, c)

noncomputable def compress (r : Registers) (block : Bytes) : Registers :=
  let (a, b, c, d) := (List.range 64).foldl (operation block) r
  (r.1 + a, r.2.1 + b, r.2.2.1 + c, r.2.2.2 + d)

def initial : Registers := (0x67452301, 0xefcdab89, 0x98badcfe, 0x10325476)

def littleEndian (k n : Nat) : Bytes := (List.range k).map fun p => UInt8.ofNat (n / 256 ^ p)

/-- A one bit, zeros up to 56 modulo 64, and the length in bits modulo `2 ^ 64`. -/
def padding (length : Nat) : Bytes :=
  0x80 :: List.replicate ((119 - length % 64) % 64) 0 ++ littleEndian 8 (8 * length)

noncomputable def digest (m : Bytes) : Bytes :=
  let (a, b, c, d) := absorb 64 compress initial (m ++ padding m.length)
  [a, b, c, d].flatMap fun w => littleEndian 4 w.toNat

theorem constant_eq {i : Nat} (small : i < 64) :
    constant (i + 1) = UInt32.ofNat (SineTable.table.getD i 0) := by
  rw [SineTable.table_eq small]
  rfl

@[simp] theorem length_littleEndian (k n : Nat) : (littleEndian k n).length = k := by
  rw [littleEndian, List.length_map, List.length_range]

end MessageDigest
