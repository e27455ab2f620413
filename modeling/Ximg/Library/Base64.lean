import Ximg.Library.Text

/-!
# Base64 and percent escapes

The standard padded encoding of a byte string, and the texts that escape some of its characters.
-/

namespace Base64
open Text

def alphabet : Bytes := ascii "ABCDEFGHIJKLMNOPQRSTUVWXYZabcdefghijklmnopqrstuvwxyz0123456789+/"

def pad : UInt8 := 61

def symbol (n : Nat) : UInt8 := alphabet.getD n pad

def encode : Bytes → Bytes
  | [] => []
  | [a] => [symbol (a.toNat / 4), symbol (a.toNat % 4 * 16), pad, pad]
  | [a, b] =>
      [symbol (a.toNat / 4), symbol (a.toNat % 4 * 16 + b.toNat / 16),
        symbol (b.toNat % 16 * 4), pad]
  | a :: b :: c :: rest =>
      symbol (a.toNat / 4) :: symbol (a.toNat % 4 * 16 + b.toNat / 16) ::
        symbol (b.toNat % 16 * 4 + c.toNat / 64) :: symbol (c.toNat % 64) :: encode rest

def percent : UInt8 := 37

def IsHexDigit (n : Nat) (h : UInt8) : Prop :=
  (ascii "0123456789abcdef")[n]? = some h ∨ (ascii "0123456789ABCDEF")[n]? = some h

/-- The second text is the first with some of its characters escaped. -/
inductive Escaped : Bytes → Bytes → Prop
  | nil : Escaped [] []
  | plain {s e : Bytes} (c : UInt8) (rest : Escaped s e) : Escaped (c :: s) (c :: e)
  | escape {s e : Bytes} {c h l : UInt8} {high low : Nat} (first : IsHexDigit high h)
      (second : IsHexDigit low l) (value : c.toNat = high * 16 + low) (rest : Escaped s e) :
      Escaped (c :: s) (percent :: h :: l :: e)

theorem symbol_ne_percent (n : Nat) : symbol n ≠ percent := by
  by_cases h : n < 64
  · have all : ∀ n < 64, symbol n ≠ percent := by decide +kernel
    exact all n h
  · have long : alphabet.length ≤ n := by
      have size : alphabet.length = 64 := by decide
      omega
    rw [symbol, List.getD_eq_getElem?_getD, List.getElem?_eq_none long]
    decide

theorem encode_ne_percent (s : Bytes) : ∀ c ∈ encode s, c ≠ percent := by
  have padded : pad ≠ percent := by decide
  fun_induction encode s with
  | case1 => simp
  | case2 a => simp [symbol_ne_percent, padded]
  | case3 a b => simp [symbol_ne_percent, padded]
  | case4 a b c rest ih => simpa [symbol_ne_percent] using ih

theorem length_encode (s : Bytes) : (encode s).length = (s.length + 2) / 3 * 4 := by
  fun_induction encode s with
  | case1 => rfl
  | case2 a => simp
  | case3 a b => simp
  | case4 a b c rest ih =>
      simp only [List.length_cons, ih]
      omega

end Base64
