import Ximg.Library.Base64
import Ximg.Xhttpd

/-!
# Decoding what was encoded
-/

namespace Ximg
open Text Base64

/-! ## Groups of four -/

theorem b64Int_symbol (n : Nat) (small : n < 64) : b64Int (symbol n) = n := by
  have all : ∀ n < 64, b64Int (symbol n) = n := by decide +kernel
  exact all n small

theorem b64Int_pad : b64Int pad = 64 := rfl

theorem sextet_bits (n : Nat) (small : n < 64) :
    (n &&& 255) <<< 2 = n * 4 ∧ (n &&& 0x30) >>> 4 = n / 16 ∧ (n &&& 0x0F) <<< 4 = n % 16 * 16 ∧
      (n &&& 0x3C) >>> 2 = n / 4 ∧ (n &&& 0x03) <<< 6 = n % 4 * 64 := by
  have all : ∀ n < 64, (n &&& 255) <<< 2 = n * 4 ∧ (n &&& 0x30) >>> 4 = n / 16 ∧
      (n &&& 0x0F) <<< 4 = n % 16 * 16 ∧ (n &&& 0x3C) >>> 2 = n / 4 ∧
      (n &&& 0x03) <<< 6 = n % 4 * 64 := by decide
  exact all n small

theorem byte_of_bits {high low : Nat} {a : UInt8} (value : high + low = a.toNat) :
    UInt8.ofNat (high + low) = a := by
  rw [value, UInt8.ofNat_toNat]

theorem decodeGroup_three (a b c : UInt8) :
    b64DecodeGroup (a.toNat / 4) (a.toNat % 4 * 16 + b.toNat / 16)
      (b.toNat % 16 * 4 + c.toNat / 64) (c.toNat % 64) = [a, b, c] := by
  have ha := a.toNat_lt
  have hb := b.toNat_lt
  have hc := c.toNat_lt
  obtain ⟨s0, -⟩ := sextet_bits (a.toNat / 4) (by omega)
  obtain ⟨-, s1, s1', -⟩ := sextet_bits (a.toNat % 4 * 16 + b.toNat / 16) (by omega)
  obtain ⟨-, -, -, s2, s2'⟩ := sextet_bits (b.toNat % 16 * 4 + c.toNat / 64) (by omega)
  rw [b64DecodeGroup, if_pos (by omega), if_pos (by omega), s0, s1, s1', s2, s2']
  rw [byte_of_bits (a := a) (by omega), byte_of_bits (a := b) (by omega),
    byte_of_bits (a := c) (by omega)]

theorem decodeGroup_two (a b : UInt8) :
    b64DecodeGroup (a.toNat / 4) (a.toNat % 4 * 16 + b.toNat / 16) (b.toNat % 16 * 4) 64 =
      [a, b] := by
  have ha := a.toNat_lt
  have hb := b.toNat_lt
  obtain ⟨s0, -⟩ := sextet_bits (a.toNat / 4) (by omega)
  obtain ⟨-, s1, s1', -⟩ := sextet_bits (a.toNat % 4 * 16 + b.toNat / 16) (by omega)
  obtain ⟨-, -, -, s2, -⟩ := sextet_bits (b.toNat % 16 * 4) (by omega)
  rw [b64DecodeGroup, if_pos (by omega), if_neg (by omega), s0, s1, s1', s2]
  rw [byte_of_bits (a := a) (by omega), byte_of_bits (a := b) (by omega)]

theorem decodeGroup_one (a : UInt8) :
    b64DecodeGroup (a.toNat / 4) (a.toNat % 4 * 16) 64 64 = [a] := by
  have ha := a.toNat_lt
  obtain ⟨s0, -⟩ := sextet_bits (a.toNat / 4) (by omega)
  obtain ⟨-, s1, -⟩ := sextet_bits (a.toNat % 4 * 16) (by omega)
  rw [b64DecodeGroup, if_neg (by omega), s0, s1, byte_of_bits (a := a) (by omega)]

theorem b64Decode_encode (bs : Bytes) : b64Decode (encode bs) = bs := by
  unfold b64Decode
  fun_induction encode bs with
  | case1 => rfl
  | case2 a =>
      have ha := a.toNat_lt
      simp only [b64DecodeLoop, List.nil_append, List.cons_append, b64Int_pad]
      rw [b64Int_symbol _ (by omega), b64Int_symbol _ (by omega), decodeGroup_one,
        List.append_nil]
  | case3 a b =>
      have ha := a.toNat_lt
      have hb := b.toNat_lt
      simp only [b64DecodeLoop, List.nil_append, List.cons_append, b64Int_pad]
      rw [b64Int_symbol _ (by omega), b64Int_symbol _ (by omega), b64Int_symbol _ (by omega),
        decodeGroup_two, List.append_nil]
  | case4 a b c rest ih =>
      have ha := a.toNat_lt
      have hb := b.toNat_lt
      have hc := c.toNat_lt
      simp only [b64DecodeLoop, List.nil_append, List.cons_append]
      rw [b64Int_symbol _ (by omega), b64Int_symbol _ (by omega), b64Int_symbol _ (by omega),
        b64Int_symbol _ (by omega), decodeGroup_three, ih]
      rfl

/-! ## Escapes -/

theorem hexValue_of_isHexDigit {n : Nat} {h : UInt8} (digit : IsHexDigit n h) :
    hexValue h = some n := by
  have bound : n < 16 := by
    rcases digit with digit | digit
    · exact (List.getElem?_eq_some_iff.mp digit).1
    · exact (List.getElem?_eq_some_iff.mp digit).1
  have lower : ∀ n < 16, ((ascii "0123456789abcdef")[n]?).bind hexValue = some n := by decide
  have upper : ∀ n < 16, ((ascii "0123456789ABCDEF")[n]?).bind hexValue = some n := by decide
  rcases digit with digit | digit
  · simpa [digit] using lower n bound
  · simpa [digit] using upper n bound

theorem urlDecodeLoop_escaped {s e : Bytes} (escaped : Escaped s e)
    (plain : ∀ c ∈ s, c ≠ percent) {turns : Nat} (enough : e.length ≤ turns) :
    urlDecodeLoop turns e = s := by
  induction escaped generalizing turns with
  | nil => cases turns <;> simp [urlDecodeLoop]
  | plain c rest ih =>
      obtain ⟨turns, rfl⟩ : ∃ k, turns = k + 1 := Nat.exists_eq_add_one.mpr (by simp at enough; omega)
      have other : c ≠ 37 := plain c List.mem_cons_self
      rw [urlDecodeLoop.eq_def]
      simp only [if_neg other]
      rw [ih (fun c member => plain c (List.mem_cons_of_mem _ member)) (by simpa using enough)]
  | @escape s e c h l high low first second value rest ih =>
      obtain ⟨turns, rfl⟩ : ∃ k, turns = k + 1 := Nat.exists_eq_add_one.mpr (by simp at enough; omega)
      have left : e.length ≤ turns - 2 := by
        simp only [List.length_cons] at enough
        omega
      have first := hexValue_of_isHexDigit first
      have second := hexValue_of_isHexDigit second
      have number : strtol16 0 [h, l] = c.toNat := by
        simp [strtol16, first, second, value]
      have digits : isxdigit h ∧ isxdigit l := by simp [isxdigit, first, second]
      rw [urlDecodeLoop.eq_def]
      simp only [percent, if_true, if_pos digits, number, UInt8.ofNat_toNat]
      rw [ih (fun c member => plain c (List.mem_cons_of_mem _ member)) left]

theorem urlDecode_escaped {s e : Bytes} (escaped : Escaped s e) (plain : ∀ c ∈ s, c ≠ percent)
    (small : e.length < 2 ^ 31) : urlDecode e = s := by
  have length : (Int32.ofNat e.length).toInt = e.length := by
    rw [Int32.toInt_ofNat_of_lt small]
  apply urlDecodeLoop_escaped escaped plain
  rw [length, Int.toNat_natCast]

/-- The image in a parameter is the one that was encoded, whichever characters were escaped, and
its buffer has room for it. -/
theorem base64_round_trip (bs e : Bytes) (escaped : Escaped (encode bs) e)
    (small : e.length < 2 ^ 31) :
    (base64Image e).1 = bs ∧ (base64Image e).1.length = bs.length ∧
      bs.length ≤ (base64Image e).2 := by
  have temp := urlDecode_escaped escaped (encode_ne_percent bs) small
  have image : (base64Image e).1 = bs := by
    rw [base64Image, temp]
    exact b64Decode_encode bs
  refine ⟨image, by rw [image], ?_⟩
  rw [base64Image, temp, length_encode]
  dsimp only
  omega

theorem base64_round_trip_small :
    (base64Image (ascii "%2B+8%3d")).1 = [251, 239] ∧
      (base64Image (ascii "%2B+8%3d")).1.length = [251, 239].length ∧
      [251, 239].length ≤ (base64Image (ascii "%2B+8%3d")).2 := by
  have encoded : encode [251, 239] = [43, 43, 56, 61] := by decide +kernel
  have plus : Escaped [43, 43, 56, 61] (ascii "%2B+8%3d") :=
    .escape (show IsHexDigit 2 50 from .inl rfl) (show IsHexDigit 11 66 from .inr rfl) rfl
      (.plain 43 (.plain 56 (.escape (show IsHexDigit 3 51 from .inl rfl)
        (show IsHexDigit 13 100 from .inl rfl) rfl .nil)))
  exact base64_round_trip [251, 239] (ascii "%2B+8%3d") (encoded ▸ plus) (by decide)

end Ximg
