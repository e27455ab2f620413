import Ximg.AccessRules

/-!
# Which ranges are stored

The grammar that the parser of a range takes, and the addresses that a stored range matches.
-/

namespace Ximg
open Text

/-! ## Numbers modulo the word -/

def wordValue (t : Bytes) : UInt32 := UInt32.ofNat (digitsValue t)

theorem digit_word {c : UInt8} (digit : IsDigit c) :
    c.toUInt32 - 48 = UInt32.ofNat (c.toNat - 48) := by
  obtain ⟨low, high⟩ := digit
  rw [UInt8.le_iff_toNat_le] at low high
  apply UInt32.toNat_inj.mp
  rw [UInt32.toNat_sub, UInt8.toNat_toUInt32, UInt32.toNat_ofNat']
  have : (48 : UInt32).toNat = 48 := rfl
  have : (48 : UInt8).toNat = 48 := rfl
  have : (57 : UInt8).toNat = 57 := rfl
  omega

theorem digit_step {c : UInt8} (digit : IsDigit c) (n : Nat) :
    UInt32.ofNat n * 10 + (c.toUInt32 - 48) = UInt32.ofNat (n * 10 + (c.toNat - 48)) := by
  rw [digit_word digit, UInt32.ofNat_add, UInt32.ofNat_mul]
  rfl

theorem inetAddrLoop_digit {c : UInt8} (digit : IsDigit c) (addr octet n : UInt32)
    (text : Bytes) : inetAddrLoop addr octet n (c :: text) =
      inetAddrLoop addr (octet * 10 + (c.toUInt32 - 48)) n text :=
  if_pos digit

theorem inetAddrLoop_dot (addr octet n : UInt32) (text : Bytes) :
    inetAddrLoop addr octet n (dot :: text) =
      if octet < 256 then inetAddrLoop ((addr <<< 8) + octet) 0 (n + 1) text else INADDR_NONE := by
  rw [inetAddrLoop, if_neg (by decide)]
  simp only [true_and]

theorem inetAddrLoop_bad {c : UInt8} (digit : ¬IsDigit c) (noDot : c ≠ dot)
    (addr octet n : UInt32) (text : Bytes) :
    inetAddrLoop addr octet n (c :: text) = INADDR_NONE := by
  have other : ¬(c ≥ 48 ∧ c ≤ 57) := digit
  rw [inetAddrLoop, if_neg other, if_neg fun both => noDot both.1]

theorem inetAddrLoop_digits {w : Bytes} (digits : ∀ c ∈ w, IsDigit c) (addr n : UInt32)
    (value : Nat) (rest : Bytes) :
    inetAddrLoop addr (UInt32.ofNat value) n (w ++ rest) =
      inetAddrLoop addr (UInt32.ofNat (w.foldl (fun n c => n * 10 + (c.toNat - 48)) value)) n
        rest := by
  induction w generalizing value with
  | nil => rfl
  | cons c w ih =>
      have digit := digits c List.mem_cons_self
      rw [List.cons_append, inetAddrLoop_digit digit, digit_step digit,
        ih fun c member => digits c (List.mem_cons_of_mem _ member)]
      rfl

theorem inetAddrLoop_other {w : Bytes} (dotless : dot ∉ w) (other : ¬∀ c ∈ w, IsDigit c)
    (addr octet n : UInt32) (rest : Bytes) :
    inetAddrLoop addr octet n (w ++ rest) = INADDR_NONE := by
  induction w generalizing octet with
  | nil => exact absurd (fun c member => absurd member List.not_mem_nil) other
  | cons c w ih =>
      rw [List.cons_append]
      by_cases digit : IsDigit c
      · rw [inetAddrLoop_digit digit]
        refine ih (fun member => dotless (List.mem_cons_of_mem _ member)) ?_ _
        intro all
        exact other (List.forall_mem_cons.mpr ⟨digit, all⟩)
      · exact inetAddrLoop_bad digit (fun same => dotless (same ▸ List.mem_cons_self)) _ _ _ _

def Octet (w : Bytes) : Prop := (∀ c ∈ w, IsDigit c) ∧ wordValue w < 256

def packed (addr : UInt32) (ws : List Bytes) : UInt32 :=
  ws.foldl (fun addr w => (addr <<< 8) + wordValue w) addr

theorem inetAddrLoop_word {w : Bytes} (digits : ∀ c ∈ w, IsDigit c) (addr n : UInt32)
    (rest : Bytes) :
    inetAddrLoop addr 0 n (w ++ rest) = inetAddrLoop addr (wordValue w) n rest :=
  inetAddrLoop_digits digits addr n 0 rest

/-- The words are octets, and with those before them they are four, modulo the word. -/
def Words (n : UInt32) (ws : List Bytes) : Prop :=
  (∀ w ∈ ws, Octet w) ∧ n + UInt32.ofNat ws.length = 4

theorem words_last {n : UInt32} {w : Bytes} : Words n [w] ↔ Octet w ∧ n = 3 := by
  have count : n + UInt32.ofNat [w].length = 4 ↔ n = 3 := by
    constructor
    · intro four
      have back := congrArg (· - 1) four
      simpa using back
    · rintro rfl
      rfl
  rw [Words, count, List.forall_mem_singleton]

theorem words_cons {n : UInt32} {w : Bytes} {ws : List Bytes} :
    Words n (w :: ws) ↔ Octet w ∧ Words (n + 1) ws := by
  have count : n + UInt32.ofNat (w :: ws).length = n + 1 + UInt32.ofNat ws.length := by
    rw [List.length_cons, UInt32.ofNat_add, UInt32.add_assoc, UInt32.add_comm (UInt32.ofNat _)]
    rfl
  rw [Words, Words, count, List.forall_mem_cons, and_assoc]

theorem inetAddrLoop_words (text : Bytes) (addr n : UInt32) :
    (Words n (text.splitOn dot) →
      inetAddrLoop addr 0 n text = htonl (packed addr (text.splitOn dot))) ∧
    (¬Words n (text.splitOn dot) → inetAddrLoop addr 0 n text = INADDR_NONE) := by
  induction text using segments_induction dot generalizing addr n with
  | last text dotless split =>
      rw [split, words_last]
      by_cases digits : ∀ c ∈ text, IsDigit c
      · have whole := inetAddrLoop_word digits addr n []
        rw [List.append_nil] at whole
        rw [whole, inetAddrLoop]
        constructor
        · rintro ⟨octet, three⟩
          exact if_pos ⟨three, octet.2⟩
        · exact fun other => if_neg fun both => other ⟨⟨digits, both.2⟩, both.1⟩
      · have refused := inetAddrLoop_other dotless digits addr 0 n []
        rw [List.append_nil] at refused
        exact ⟨fun words => absurd words.1.1 digits, fun _ => refused⟩
  | more w rest dotless split ih =>
      rw [split, words_cons]
      by_cases digits : ∀ c ∈ w, IsDigit c
      · rw [inetAddrLoop_word digits, inetAddrLoop_dot]
        by_cases small : wordValue w < 256
        · obtain ⟨taken, refused⟩ := ih ((addr <<< 8) + wordValue w) (n + 1)
          rw [if_pos small]
          exact ⟨fun words => taken words.2, fun other => refused fun words =>
            other ⟨⟨digits, small⟩, words⟩⟩
        · rw [if_neg small]
          exact ⟨fun words => absurd words.1.2 small, fun _ => rfl⟩
      · rw [inetAddrLoop_other dotless digits]
        exact ⟨fun words => absurd words.1.1 digits, fun _ => rfl⟩

/-! ## The address of four octets -/

theorem word_shift (a b : UInt32) : ((a <<< 8) + b).toNat = (a.toNat * 256 + b.toNat) % 2 ^ 32 := by
  have shift : (a <<< 8).toNat = a.toNat * 256 % 2 ^ 32 := by
    rw [UInt32.toNat_shiftLeft, Nat.shiftLeft_eq]
    rfl
  rw [UInt32.toNat_add, shift, Nat.mod_add_mod]

theorem packed_four (front : List Bytes) {o1 o2 o3 o4 : Bytes}
    (octets : ∀ w ∈ [o1, o2, o3, o4], wordValue w < 256) :
    (packed 0 (front ++ [o1, o2, o3, o4])).toNat =
      (((wordValue o1).toNat * 256 + (wordValue o2).toNat) * 256 + (wordValue o3).toNat) * 256 +
        (wordValue o4).toNat := by
  have small {w : Bytes} (member : w ∈ [o1, o2, o3, o4]) : (wordValue w).toNat < 256 :=
    UInt32.lt_iff_toNat_lt.mp (octets w member)
  have first := small (w := o1) (by simp)
  have second := small (w := o2) (by simp)
  have third := small (w := o3) (by simp)
  have fourth := small (w := o4) (by simp)
  rw [packed, List.foldl_append]
  simp only [List.foldl_cons, List.foldl_nil, word_shift]
  omega

theorem htonl_bit (a : UInt32) {i : Nat} (inside : i < 32) :
    (htonl a).toBitVec.getLsbD i = a.toBitVec.getLsbD (8 * (3 - i / 8) + i % 8) := by
  unfold htonl
  simp only [UInt32.toBitVec_or, UInt32.toBitVec_shiftLeft, UInt32.toBitVec_and,
    UInt32.toBitVec_shiftRight, BitVec.getLsbD_or]
  interval_cases i <;> simp

theorem bits_ext {a b : UInt32} (same : ∀ i < 32, a.toBitVec.getLsbD i = b.toBitVec.getLsbD i) :
    a = b :=
  UInt32.toBitVec_inj.mp (BitVec.eq_of_getLsbD_eq same)

theorem htonl_htonl (a : UInt32) : htonl (htonl a) = a := by
  apply bits_ext
  intro i inside
  have back : 8 * (3 - (8 * (3 - i / 8) + i % 8) / 8) + (8 * (3 - i / 8) + i % 8) % 8 = i := by
    omega
  rw [htonl_bit _ inside, htonl_bit _ (by omega), back]

theorem htonl_and (a b : UInt32) : htonl (a &&& b) = htonl a &&& htonl b := by
  apply bits_ext
  intro i inside
  rw [htonl_bit _ inside, UInt32.toBitVec_and, UInt32.toBitVec_and, BitVec.getLsbD_and,
    BitVec.getLsbD_and, htonl_bit _ inside, htonl_bit _ inside]

theorem htonl_none {a : UInt32} : htonl a = INADDR_NONE ↔ a = 0xffffffff := by
  constructor
  · intro none
    rw [← htonl_htonl a, none]
    rfl
  · rintro rfl
    rfl

/-! ## The length of a network -/

theorem atoiLoop_digits {line : Bytes} (digits : ∀ c ∈ line, IsDigit c) (value : Nat) :
    atoiLoop (Int32.ofNat value) line =
      if Int32.ofNat (line.foldl (fun n c => n * 10 + (c.toNat - 48)) value) < 0 then -1
      else Int32.ofNat (line.foldl (fun n c => n * 10 + (c.toNat - 48)) value) := by
  induction line generalizing value with
  | nil => rfl
  | cons c line ih =>
      have digit := digits c List.mem_cons_self
      have number : ¬(c < 48 ∨ c > 57) := by
        rw [not_or, UInt8.not_lt, UInt8.not_lt]
        exact digit
      have step : Int32.ofNat value * 10 + (c.toUInt32 - 48).toInt32 =
          Int32.ofNat (value * 10 + (c.toNat - 48)) := by
        rw [digit_word digit, Int32.ofNat_add, Int32.ofNat_mul]
        rfl
      rw [atoiLoop, if_neg number, step, ih fun c member => digits c (List.mem_cons_of_mem _ member)]
      rfl

theorem atoiLoop_other {line : Bytes} (other : ¬∀ c ∈ line, IsDigit c) (value : Int32) :
    atoiLoop value line = -1 := by
  induction line generalizing value with
  | nil => exact absurd (fun c member => absurd member List.not_mem_nil) other
  | cons c line ih =>
      rw [atoiLoop]
      split
      · rfl
      · rename_i number
        rw [not_or, UInt8.not_lt, UInt8.not_lt] at number
        exact ih (fun all => other (List.forall_mem_cons.mpr ⟨number, all⟩)) _

def Length (line : Bytes) : Prop :=
  line ≠ [] ∧ (∀ c ∈ line, IsDigit c) ∧ digitsValue line % 2 ^ 32 ≤ 32

theorem ofNat_cases (value : Nat) :
    (Int32.ofNat value < 0 ↔ 2 ^ 31 ≤ value % 2 ^ 32) ∧
      (Int32.ofNat value > 32 ↔ 32 < value % 2 ^ 32 ∧ value % 2 ^ 32 < 2 ^ 31) := by
  have zero : (0 : Int32).toInt = 0 := rfl
  have limit : (32 : Int32).toInt = 32 := rfl
  have size : Int32.size = 4294967296 := rfl
  rw [gt_iff_lt, Int32.lt_iff_toInt_lt, Int32.lt_iff_toInt_lt, Int32.toInt_ofNat', Int.bmod_def,
    zero, limit, size]
  split <;> omega

theorem zimgAtoi_cases (line : Bytes) :
    (Length line ∧ zimgAtoi line = Int32.ofNat (digitsValue line) ∧ zimgAtoi line ≠ -1 ∧
      ¬zimgAtoi line > 32) ∨
    (¬Length line ∧ (zimgAtoi line = -1 ∨ zimgAtoi line > 32)) := by
  by_cases empty : line = []
  · exact .inr ⟨fun length => length.1 empty, .inl (if_pos empty)⟩
  rw [zimgAtoi, if_neg empty]
  by_cases digits : ∀ c ∈ line, IsDigit c
  swap
  · exact .inr ⟨fun length => digits length.2.1, .inl (atoiLoop_other digits 0)⟩
  have loop := atoiLoop_digits digits 0
  have start : Int32.ofNat 0 = 0 := rfl
  obtain ⟨negative, large⟩ := ofNat_cases (digitsValue line)
  rw [start] at loop
  rw [loop]
  by_cases small : digitsValue line % 2 ^ 32 ≤ 32
  · have positive : ¬Int32.ofNat (digitsValue line) < 0 := by
      rw [negative]
      omega
    have within : ¬Int32.ofNat (digitsValue line) > 32 := by
      rw [large]
      omega
    refine .inl ⟨⟨empty, digits, small⟩, if_neg positive, ?_, ?_⟩
    · rw [← digitsValue, if_neg positive]
      intro same
      rw [same] at positive
      exact positive (by decide)
    · rw [← digitsValue, if_neg positive]
      exact within
  · refine .inr ⟨fun length => small length.2.2, ?_⟩
    rw [← digitsValue]
    split
    · exact .inl rfl
    · rename_i positive
      rw [negative] at positive
      refine .inr (large.mpr ?_)
      omega

/-! ## The range -/

def rangeOf (addr : Bytes) (len : Option Bytes) : Bytes :=
  addr ++ len.elim [] (slash :: ·)

def maskOf (len : Option Bytes) : UInt32 :=
  match len with
  | none => 0xffffffff
  | some line =>
      if zimgAtoi line ≠ 0 then htonl (0xffffffff <<< (32 - zimgAtoi line).toUInt32) else 0

theorem zimgInetAddr_front (addr rest : Bytes) (small : addr.length < 2 ^ 64) :
    zimgInetAddr (addr ++ rest) 0 addr.length = inetAddrLoop 0 0 0 addr := by
  have stop : wrap (((0 : Nat) : Int) + addr.length) = addr.length := by
    rw [Int.natCast_zero, zero_add]
    exact wrap_natCast small
  rw [zimgInetAddr, stop, span, List.drop_zero, Nat.sub_zero, List.take_left]

theorem stor_range {addr : Bytes} {len : Option Bytes} (slashless : slash ∉ addr)
    (small : (rangeOf addr len).length < 2 ^ 64) (rule : ZimgRule) :
    stor (rangeOf addr len) 0 (rangeOf addr len).length rule =
      if inetAddrLoop 0 0 0 addr = INADDR_NONE then none
      else match len with
        | none => some { rule with addr := inetAddrLoop 0 0 0 addr, mask := 0xffffffff }
        | some line =>
            if zimgAtoi line = -1 then none
            else if zimgAtoi line > 32 then none
            else some { rule with addr := inetAddrLoop 0 0 0 addr &&& maskOf len,
                                  mask := maskOf len } := by
  have last : wrap (((0 : Nat) : Int) + (rangeOf addr len).length) = (rangeOf addr len).length := by
    rw [Int.natCast_zero, zero_add]
    exact wrap_natCast small
  have front : addr.length < 2 ^ 64 := by
    rw [rangeOf, List.length_append] at small
    omega
  have whole : span (rangeOf addr len) 0 (rangeOf addr len).length = rangeOf addr len :=
    span_all _
  cases len with
  | none =>
      have text : rangeOf addr none = addr := List.append_nil addr
      have read := zimgInetAddr_front addr [] front
      rw [List.append_nil] at read
      rw [text] at last whole ⊢
      unfold stor
      simp only [last, zimgStrlchr, whole, findIdx_absent slashless, Option.map_none,
        Option.getD_none]
      rw [wrap_sub front (Nat.zero_le _), Nat.sub_zero, read]
  | some line =>
      have found : (rangeOf addr (some line)).findIdx? (· == slash) = some addr.length :=
        findIdx_split slashless line
      have after : span (rangeOf addr (some line)) (addr.length + 1)
          (rangeOf addr (some line)).length = line := by
        show ((addr ++ slash :: line).drop (addr.length + 1)).take
          ((addr ++ slash :: line).length - (addr.length + 1)) = line
        rw [← List.drop_drop, List.drop_left, List.length_append, List.length_cons,
          Nat.add_sub_add_left, Nat.add_sub_cancel]
        exact List.take_length
      unfold stor
      simp only [last, zimgStrlchr, whole, found, Option.map_some, Option.getD_some, Nat.zero_add]
      rw [wrap_sub front (Nat.zero_le _), Nat.sub_zero, after]
      simp only [rangeOf, Option.elim_some, zimgInetAddr_front addr _ front]
      rfl

theorem range_cases (text : Bytes) : ∃ addr len, text = rangeOf addr len ∧ slash ∉ addr := by
  by_cases member : slash ∈ text
  · obtain ⟨addr, line, rfl, slashless⟩ := List.eq_append_cons_of_mem member
    exact ⟨addr, some line, rfl, slashless⟩
  · exact ⟨text, none, (List.append_nil text).symm, member⟩

def Proper (ws : List Bytes) : Prop := ∃ w ∈ ws.drop (ws.length - 4), digitsValue w % 2 ^ 32 ≠ 255

/-- A text is read as words between dots and a length, where only the residues of the numbers, and
of the count of the words, are looked at. -/
structure ReadAs (text : Bytes) (words : List Bytes) (len : Option Bytes) : Prop where
  text_eq : text = rangeOf (List.intercalate [dot] words) len
  digits : ∀ w ∈ words, ∀ c ∈ w, IsDigit c
  octets : ∀ w ∈ words, digitsValue w % 2 ^ 32 ≤ 255
  count : words.length % 2 ^ 32 = 4
  proper : Proper words
  length : ∀ line ∈ len, Length line

theorem wordValue_toNat (w : Bytes) : (wordValue w).toNat = digitsValue w % 2 ^ 32 :=
  UInt32.toNat_ofNat'

theorem wordValue_octet (w : Bytes) : wordValue w < 256 ↔ digitsValue w % 2 ^ 32 ≤ 255 := by
  have limit : (256 : UInt32).toNat = 256 := rfl
  rw [UInt32.lt_iff_toNat_lt, wordValue_toNat, limit]
  omega

theorem words_four {ws : List Bytes} (count : ws.length % 2 ^ 32 = 4) :
    ∃ front o1 o2 o3 o4, ws = front ++ [o1, o2, o3, o4] := by
  have four : (ws.drop (ws.length - 4)).length = 4 := by
    rw [List.length_drop]
    omega
  obtain ⟨o1, o2, o3, o4, last⟩ := List.length_eq_four.mp four
  exact ⟨ws.take (ws.length - 4), o1, o2, o3, o4, by rw [← last, List.take_append_drop]⟩

theorem words_count {ws : List Bytes} :
    Words 0 ws ↔ (∀ w ∈ ws, Octet w) ∧ ws.length % 2 ^ 32 = 4 := by
  refine and_congr_right fun _ => ?_
  rw [UInt32.zero_add, ← UInt32.toNat_inj, UInt32.toNat_ofNat']
  rfl

theorem packed_proper {ws : List Bytes} (words : Words 0 ws) :
    packed 0 ws ≠ 0xffffffff ↔ Proper ws := by
  obtain ⟨octets, count⟩ := words_count.mp words
  obtain ⟨front, o1, o2, o3, o4, rfl⟩ := words_four count
  have last : (front ++ [o1, o2, o3, o4]).drop ((front ++ [o1, o2, o3, o4]).length - 4) =
      [o1, o2, o3, o4] := by simp
  have fits {w : Bytes} (member : w ∈ [o1, o2, o3, o4]) : wordValue w < 256 :=
    (octets w (List.mem_append_right _ member)).2
  have value := packed_four front fun w member => fits member
  have first := (wordValue_octet o1).mp (fits (by simp))
  have second := (wordValue_octet o2).mp (fits (by simp))
  have third := (wordValue_octet o3).mp (fits (by simp))
  have fourth := (wordValue_octet o4).mp (fits (by simp))
  have none : (0xffffffff : UInt32).toNat = 4294967295 := rfl
  rw [Proper, last, Ne, ← UInt32.toNat_inj, value, none]
  simp only [wordValue_toNat, List.mem_cons, List.not_mem_nil, or_false, exists_eq_or_imp,
    exists_eq_left]
  omega

theorem rangeOf_inj {addr addr' : Bytes} {len len' : Option Bytes} (slashless : slash ∉ addr)
    (slashless' : slash ∉ addr') (same : rangeOf addr len = rangeOf addr' len') :
    addr = addr' ∧ len = len' := by
  have inside {front rest : Bytes} : slash ∈ front ++ slash :: rest := by simp
  cases len with
  | none =>
      have text : rangeOf addr none = addr := List.append_nil addr
      cases len' with
      | none =>
          have text' : rangeOf addr' none = addr' := List.append_nil addr'
          exact ⟨text.symm.trans (same.trans text'), rfl⟩
      | some line' => exact absurd (text ▸ same ▸ inside) slashless
  | some line =>
      cases len' with
      | none =>
          have text' : rangeOf addr' none = addr' := List.append_nil addr'
          exact absurd (text' ▸ same.symm ▸ inside) slashless'
      | some line' =>
          obtain ⟨addrs, lines⟩ := split_unique same slashless slashless'
          exact ⟨addrs, congrArg some lines⟩

theorem join_words {ws : List Bytes} (digits : ∀ w ∈ ws, ∀ c ∈ w, IsDigit c) (some : ws ≠ []) :
    slash ∉ List.intercalate [dot] ws ∧ (List.intercalate [dot] ws).splitOn dot = ws := by
  have other {c : UInt8} (digit : ¬IsDigit c) : ∀ w ∈ ws, c ∉ w :=
    fun w member inside => digit (digits w member c inside)
  constructor
  · have all {ws : List Bytes} (plain : ∀ w ∈ ws, slash ∉ w) :
        slash ∉ List.intercalate [dot] ws := by
      induction ws with
      | nil => simp [List.intercalate]
      | cons w ws ih =>
          have rest := ih fun w member => plain w (List.mem_cons_of_mem _ member)
          cases ws with
          | nil => simpa [List.intercalate] using plain w List.mem_cons_self
          | cons w' ws =>
              rw [List.intercalate_cons_cons, List.mem_append, List.mem_append]
              rintro ((here | here) | here)
              · exact plain w List.mem_cons_self here
              · exact absurd here (by decide)
              · exact rest here
    exact all (other (by decide))
  · exact List.splitOn_intercalate dot (other (by decide)) some

theorem reads_words {text : Bytes} {words : List Bytes} {len : Option Bytes}
    (reads : ReadAs text words len) : Words 0 words :=
  words_count.mpr ⟨fun w member => ⟨reads.digits w member,
    (wordValue_octet w).mpr (reads.octets w member)⟩, reads.count⟩

theorem reads_join {text : Bytes} {words : List Bytes} {len : Option Bytes}
    (reads : ReadAs text words len) :
    slash ∉ List.intercalate [dot] words ∧ (List.intercalate [dot] words).splitOn dot = words := by
  apply join_words reads.digits
  rintro rfl
  exact absurd reads.count (by decide)

theorem stor_iff {text : Bytes} (small : text.length < 2 ^ 64) (rule : ZimgRule) :
    (stor text 0 text.length rule).isSome ↔ ∃ words len, ReadAs text words len := by
  constructor
  · intro stored
    obtain ⟨addr, len, rfl, slashless⟩ := range_cases text
    rw [stor_range slashless small] at stored
    have some : inetAddrLoop 0 0 0 addr ≠ INADDR_NONE := by
      intro none
      rw [if_pos none] at stored
      cases stored
    rw [if_neg some] at stored
    have words : Words 0 (addr.splitOn dot) := by
      by_contra other
      exact some ((inetAddrLoop_words addr 0 0).2 other)
    rw [(inetAddrLoop_words addr 0 0).1 words, Ne, htonl_none] at some
    obtain ⟨octets, count⟩ := words_count.mp words
    refine ⟨addr.splitOn dot, len, ?_, fun w member => (octets w member).1, fun w member =>
      (wordValue_octet w).mp (octets w member).2, count, (packed_proper words).mp some, ?_⟩
    · rw [List.intercalate_splitOn]
    · rintro line rfl
      dsimp only at stored
      obtain ⟨length, -⟩ | ⟨-, error | long⟩ := zimgAtoi_cases line
      · exact length
      · rw [if_pos error] at stored
        cases stored
      · rw [if_pos long] at stored
        split at stored <;> cases stored
  · rintro ⟨words, len, reads⟩
    obtain ⟨slashless, split⟩ := reads_join reads
    have taken := reads_words reads
    have some : inetAddrLoop 0 0 0 (List.intercalate [dot] words) ≠ INADDR_NONE := by
      rw [(inetAddrLoop_words _ 0 0).1 (split.symm ▸ taken), split, Ne, htonl_none]
      exact (packed_proper taken).mpr reads.proper
    rw [reads.text_eq] at small ⊢
    rw [stor_range slashless small, if_neg some]
    cases len with
    | none => rfl
    | some line =>
        obtain ⟨-, -, valid, within⟩ | ⟨other, -⟩ := zimgAtoi_cases line
        · dsimp only
          rw [if_neg valid, if_neg within]
          rfl
        · exact absurd (reads.length line rfl) other

def IsRange (text : Bytes) : Prop :=
  ∃ addr value len, Ipv4 addr value ∧ (∀ line ∈ len, IsNumber 32 line) ∧ text = rangeOf addr len

theorem join_four (o1 o2 o3 o4 : Bytes) :
    List.intercalate [dot] [o1, o2, o3, o4] =
      o1 ++ ascii "." ++ o2 ++ ascii "." ++ o3 ++ ascii "." ++ o4 := by
  have mark : ascii "." = [dot] := rfl
  simp [List.intercalate, mark]

theorem ipv4_join {addr : Bytes} {value : Nat} (ipv4 : Ipv4 addr value) :
    ∃ o1 o2 o3 o4, addr = List.intercalate [dot] [o1, o2, o3, o4] ∧
      (∀ w ∈ [o1, o2, o3, o4], IsNumber 255 w) ∧
      value = ((digitsValue o1 * 256 + digitsValue o2) * 256 + digitsValue o3) * 256 +
        digitsValue o4 := by
  obtain ⟨o1, o2, o3, o4, first, second, third, fourth, rfl, value⟩ := ipv4.octets
  exact ⟨o1, o2, o3, o4, (join_four o1 o2 o3 o4).symm, by simp [first, second, third, fourth],
    value⟩

/-- Only ranges in their standard notation are stored, unless a text can be read with a word that is
empty, with a number beyond the word, or with more than four words. -/
theorem ranges_wellformed (text : Bytes) (small : text.length < 2 ^ 64) (rule : ZimgRule) :
    ((stor text 0 text.length rule).isSome → IsRange text) ↔
      ∀ words len, ReadAs text words len →
        words.length = 4 ∧ (∀ w ∈ words, w ≠ [] ∧ digitsValue w < 2 ^ 32) ∧
          ∀ line ∈ len, digitsValue line < 2 ^ 32 := by
  rw [stor_iff small]
  constructor
  · intro wellformed words len reads
    obtain ⟨addr, value, len', ipv4, lengths, text'⟩ := wellformed ⟨words, len, reads⟩
    obtain ⟨o1, o2, o3, o4, rfl, octets, -⟩ := ipv4_join ipv4
    obtain ⟨slashless, split⟩ := reads_join reads
    obtain ⟨slashless', split'⟩ :=
      join_words (fun w member => (octets w member).2.1) (List.cons_ne_nil o1 [o2, o3, o4])
    obtain ⟨same, rfl⟩ := rangeOf_inj slashless slashless' (reads.text_eq.symm.trans text')
    rw [← same, split] at split'
    rw [split']
    refine ⟨rfl, fun w member => ?_, fun line member => ?_⟩
    · obtain ⟨nonempty, -, bound⟩ := octets w member
      exact ⟨nonempty, by omega⟩
    · have bound := (lengths line member).2.2
      omega
  · rintro condition ⟨words, len, reads⟩
    obtain ⟨four, plain, short⟩ := condition words len reads
    obtain ⟨o1, o2, o3, o4, rfl⟩ := List.length_eq_four.mp four
    have octet {w : Bytes} (member : w ∈ [o1, o2, o3, o4]) : IsNumber 255 w := by
      obtain ⟨nonempty, bound⟩ := plain w member
      have residue := reads.octets w member
      rw [Nat.mod_eq_of_lt bound] at residue
      exact ⟨nonempty, reads.digits w member, residue⟩
    refine ⟨List.intercalate [dot] [o1, o2, o3, o4], _, len, ⟨o1, o2, o3, o4, octet (by simp),
      octet (by simp), octet (by simp), octet (by simp), join_four o1 o2 o3 o4, rfl⟩, ?_,
      reads.text_eq⟩
    intro line member
    obtain ⟨nonempty, digits, residue⟩ := reads.length line member
    rw [Nat.mod_eq_of_lt (short line member)] at residue
    exact ⟨nonempty, digits, residue⟩

theorem ranges_wellformed_small :
    ((stor (ascii "10.0.0.0/8") 0 10 ⟨0, 0, 0⟩).isSome → IsRange (ascii "10.0.0.0/8")) ↔
      ∀ words len, ReadAs (ascii "10.0.0.0/8") words len →
        words.length = 4 ∧ (∀ w ∈ words, w ≠ [] ∧ digitsValue w < 2 ^ 32) ∧
          ∀ line ∈ len, digitsValue line < 2 ^ 32 :=
  ranges_wellformed (ascii "10.0.0.0/8") (by decide) ⟨0, 0, 0⟩

theorem empty_octets :
    (stor (ascii "...") 0 3 ⟨0, 0, 0⟩).isSome ∧ ¬IsRange (ascii "...") := by
  refine ⟨by decide +kernel, ?_⟩
  rintro ⟨addr, value, len, ipv4, -, text⟩
  obtain ⟨o1, o2, o3, o4, ⟨first, -⟩, -, -, -, rfl, -⟩ := ipv4.octets
  have size := congrArg List.length text
  have dots : (ascii "...").length = 3 ∧ (ascii ".").length = 1 := ⟨rfl, rfl⟩
  have some : 0 < o1.length := List.length_pos_of_ne_nil first
  simp only [rangeOf, List.length_append, dots] at size
  omega

/-! ## The addresses of a range -/

def AgreeFirst (n a b : Nat) : Prop := ∀ i < n, a.testBit (31 - i) = b.testBit (31 - i)

def networkBits (len : Option Bytes) : Nat := len.elim 32 digitsValue

theorem mask_bits : ∀ n : Fin 33, ∀ i : Fin 32,
    (htonl (if Int32.ofNat n ≠ 0 then htonl (0xffffffff <<< (32 - Int32.ofNat n).toUInt32)
      else 0)).toBitVec.getLsbD i = decide (32 - n.val ≤ i.val) := by
  decide +kernel

theorem maskOf_bits {len : Option Bytes} (lengths : ∀ line ∈ len, IsNumber 32 line) {i : Nat}
    (inside : i < 32) :
    (htonl (maskOf len)).toBitVec.getLsbD i = decide (32 - networkBits len ≤ i) := by
  cases len with
  | none => exact mask_bits 32 ⟨i, inside⟩
  | some line =>
      obtain ⟨nonempty, digits, bound⟩ := lengths line rfl
      have length : Length line := ⟨nonempty, digits, by omega⟩
      obtain ⟨-, value, -⟩ | ⟨other, -⟩ := zimgAtoi_cases line
      · rw [maskOf, value]
        exact mask_bits ⟨digitsValue line, by omega⟩ ⟨i, inside⟩
      · exact absurd length other

theorem masked_iff {len : Option Bytes} (lengths : ∀ line ∈ len, IsNumber 32 line) (x a : UInt32) :
    x &&& maskOf len = htonl a &&& maskOf len ↔
      AgreeFirst (networkBits len) (htonl x).toNat a.toNat := by
  have bits : networkBits len ≤ 32 := by
    cases len with
    | none => exact le_rfl
    | some line => exact (lengths line rfl).2.2
  have swapped : x &&& maskOf len = htonl a &&& maskOf len ↔
      htonl x &&& htonl (maskOf len) = a &&& htonl (maskOf len) := by
    rw [← htonl_and]
    constructor
    · intro same
      rw [same, htonl_and, htonl_htonl]
    · intro same
      have back := congrArg htonl same
      rwa [htonl_htonl, htonl_and, htonl_htonl] at back
  rw [swapped]
  constructor
  · intro same i inside
    have bit := congrArg (fun u : UInt32 => u.toBitVec.getLsbD (31 - i)) same
    have kept : 32 - networkBits len ≤ 31 - i := by omega
    simp only [UInt32.toBitVec_and, BitVec.getLsbD_and, maskOf_bits lengths (i := 31 - i) (by omega),
      kept, decide_true, Bool.and_true] at bit
    exact bit
  · intro agree
    apply bits_ext
    intro i inside
    rw [UInt32.toBitVec_and, UInt32.toBitVec_and, BitVec.getLsbD_and, BitVec.getLsbD_and,
      maskOf_bits lengths inside]
    by_cases kept : 32 - networkBits len ≤ i
    · have back : 31 - (31 - i) = i := by omega
      have bit := agree (31 - i) (by omega)
      rw [back] at bit
      have same : (htonl x).toBitVec.getLsbD i = a.toBitVec.getLsbD i := bit
      rw [same]
    · rw [decide_eq_false kept, Bool.and_false, Bool.and_false]

theorem ipv4_address {addr : Bytes} {value : Nat} (ipv4 : Ipv4 addr value)
    (other : value ≠ 2 ^ 32 - 1) :
    ∃ a : UInt32, a.toNat = value ∧ inetAddrLoop 0 0 0 addr = htonl a ∧ htonl a ≠ INADDR_NONE ∧
      slash ∉ addr := by
  obtain ⟨o1, o2, o3, o4, rfl, octets, rfl⟩ := ipv4_join ipv4
  obtain ⟨slashless, split⟩ :=
    join_words (fun w member => (octets w member).2.1) (List.cons_ne_nil o1 [o2, o3, o4])
  have residue {w : Bytes} (member : w ∈ [o1, o2, o3, o4]) :
      digitsValue w % 2 ^ 32 = digitsValue w := by
    have bound := (octets w member).2.2
    exact Nat.mod_eq_of_lt (by omega)
  have fits (w : Bytes) (member : w ∈ [o1, o2, o3, o4]) : wordValue w < 256 := by
    rw [wordValue_octet, residue member]
    exact (octets w member).2.2
  have words : Words 0 ((List.intercalate [dot] [o1, o2, o3, o4]).splitOn dot) := by
    rw [split]
    exact words_count.mpr ⟨fun w member => ⟨(octets w member).2.1, fits w member⟩, rfl⟩
  have value : (packed 0 [o1, o2, o3, o4]).toNat = _ := packed_four [] fits
  simp only [wordValue_toNat, residue (w := o1) (by simp), residue (w := o2) (by simp),
    residue (w := o3) (by simp), residue (w := o4) (by simp)] at value
  refine ⟨packed 0 [o1, o2, o3, o4], value, ?_, ?_, slashless⟩
  · rw [(inetAddrLoop_words _ 0 0).1 words, split]
  · rw [Ne, htonl_none]
    intro none
    rw [none] at value
    exact other value.symm

/-- An address, alone or with the length of its network, is stored, and the stored range matches
exactly the addresses that agree with it in the bits of the network. -/
theorem cidr_semantics {addr : Bytes} {value : Nat} (len : Option Bytes) (ipv4 : Ipv4 addr value)
    (other : value ≠ 2 ^ 32 - 1) (lengths : ∀ line ∈ len, IsNumber 32 line)
    (small : (rangeOf addr len).length < 2 ^ 64) (rule : ZimgRule) :
    ∃ range, stor (rangeOf addr len) 0 (rangeOf addr len).length rule = some range ∧
      range.addr &&& range.mask = range.addr ∧
      ∀ x, x &&& range.mask = range.addr ↔
        AgreeFirst (networkBits len) (htonl x).toNat value := by
  obtain ⟨a, rfl, loop, some, slashless⟩ := ipv4_address ipv4 other
  have twice (m : UInt32) : htonl a &&& m &&& m = htonl a &&& m := by
    rw [UInt32.and_assoc, UInt32.and_self]
  have stored : stor (rangeOf addr len) 0 (rangeOf addr len).length rule =
      Option.some { rule with addr := htonl a &&& maskOf len, mask := maskOf len } := by
    rw [stor_range slashless small, loop, if_neg some]
    cases len with
    | none =>
        have all : htonl a &&& maskOf none = htonl a := UInt32.and_neg_one
        rw [all]
        rfl
    | some line =>
        obtain ⟨nonempty, digits, bound⟩ := lengths line rfl
        have length : Length line := ⟨nonempty, digits, by omega⟩
        obtain ⟨-, -, valid, within⟩ | ⟨not, -⟩ := zimgAtoi_cases line
        · dsimp only
          rw [if_neg valid, if_neg within]
        · exact absurd length not
  exact ⟨_, stored, twice _, fun x => masked_iff lengths x a⟩

theorem cidr_semantics_small :
    ∃ range, stor (rangeOf (ascii "10.0.0.0") (some (ascii "8"))) 0
        (rangeOf (ascii "10.0.0.0") (some (ascii "8"))).length ⟨0, 0, 0⟩ = some range ∧
      range.addr &&& range.mask = range.addr ∧
      ∀ x, x &&& range.mask = range.addr ↔
        AgreeFirst (networkBits (some (ascii "8"))) (htonl x).toNat 0x0a000000 := by
  have number (bound : Nat) (t : Bytes) (nonempty : t ≠ []) (digits : ∀ c ∈ t, IsDigit c)
      (small : digitsValue t ≤ bound) : IsNumber bound t := ⟨nonempty, digits, small⟩
  have zero : IsNumber 255 (ascii "0") := number _ _ (by decide) (by decide +kernel) (by decide)
  refine cidr_semantics _ ⟨ascii "10", ascii "0", ascii "0", ascii "0",
    number _ _ (by decide) (by decide +kernel) (by decide), zero, zero, zero, by decide, by decide⟩
    (by decide) ?_ (by decide) _
  rintro _ ⟨⟩
  exact number _ _ (by decide) (by decide +kernel) (by decide)

end Ximg
