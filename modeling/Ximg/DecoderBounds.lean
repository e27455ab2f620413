import Ximg.Base64RoundTrip

/-!
# What the decoders read and write

Both decoders with the offsets they touch, and the bounds of these for every input.
-/

namespace Ximg
open Text

inductive Touch where
  | read (i : Nat)
  | write (i : Nat) (c : UInt8)
  deriving DecidableEq

def Touch.written : Touch → Option (UInt8 × Nat)
  | .read _ => none
  | .write i c => some (c, i)

def ReadsTo (bound : Nat) (touches : List Touch) : Prop := ∀ n, Touch.read n ∈ touches → n ≤ bound

def byteAt (mem : Bytes) (i : Nat) : UInt8 := mem.getD i 0

/-! ## URL decoding -/

def urlDecodeTouches (mem : Bytes) (len i j : Nat) : List Touch :=
  if i < len then
    .read i ::
      if byteAt mem i = 37 then
        .read (i + 1) ::
          if byteAt mem (i + 1) = 0 then
            .write j (byteAt mem i) :: urlDecodeTouches mem len (i + 1) (j + 1)
          else if isxdigit (byteAt mem (i + 1)) then
            .read (i + 2) ::
              if isxdigit (byteAt mem (i + 2)) then
                .write j (UInt8.ofNat (strtol16 0 [byteAt mem (i + 1), byteAt mem (i + 2)])) ::
                  urlDecodeTouches mem len (i + 3) (j + 1)
              else urlDecodeTouches mem len (i + 1) j
          else urlDecodeTouches mem len (i + 1) j
      else .write j (byteAt mem i) :: urlDecodeTouches mem len (i + 1) (j + 1)
  else []
termination_by len - i

def urlDecodeCall (str beyond : Bytes) : List Touch :=
  (List.range (str.length + 1)).map Touch.read ++
    urlDecodeTouches (str ++ 0 :: beyond) (Int32.ofNat str.length).toInt.toNat 0 0

theorem byteAt_drop {mem : Bytes} {i : Nat} {c : UInt8} {rest : Bytes}
    (drop : mem.drop i = c :: rest) : byteAt mem i = c := by
  have here : mem[i]? = (mem.drop i)[0]? := by rw [List.getElem?_drop, Nat.add_zero]
  rw [byteAt, List.getD_eq_getElem?_getD, here, drop]
  rfl

theorem drop_next {mem : Bytes} {i : Nat} {c : UInt8} {rest : Bytes}
    (drop : mem.drop i = c :: rest) : mem.drop (i + 1) = rest := by
  rw [← List.drop_drop, drop]
  rfl

theorem written_read (i : Nat) (rest : List Touch) :
    (Touch.read i :: rest).filterMap Touch.written = rest.filterMap Touch.written := rfl

theorem written_write (i : Nat) (c : UInt8) (rest : List Touch) :
    (Touch.write i c :: rest).filterMap Touch.written =
      (c, i) :: rest.filterMap Touch.written := rfl

theorem readsTo_nil (bound : Nat) : ReadsTo bound [] :=
  fun _ member => absurd member List.not_mem_nil

theorem readsTo_read {bound i : Nat} {rest : List Touch} (inside : i ≤ bound)
    (later : ReadsTo bound rest) : ReadsTo bound (.read i :: rest) := by
  intro _ member
  cases member with
  | head => exact inside
  | tail _ member => exact later _ member

theorem readsTo_write {bound i : Nat} {c : UInt8} {rest : List Touch}
    (later : ReadsTo bound rest) : ReadsTo bound (.write i c :: rest) := by
  intro _ member
  cases member with
  | tail _ member => exact later _ member

theorem isxdigit_zero : isxdigit 0 = false := rfl

theorem urlDecodeTouches_spec {mem rest beyond : Bytes} {len turns i bound : Nat}
    (noNul : 0 ∉ rest) (left : mem.drop i = rest ++ 0 :: beyond) (count : turns = len - i)
    (stop : i + rest.length = bound) (fits : len ≤ bound) (j : Nat) :
    (urlDecodeTouches mem len i j).filterMap Touch.written = (urlDecodeLoop turns rest).zipIdx j ∧
      ReadsTo bound (urlDecodeTouches mem len i j) := by
  fun_induction urlDecodeLoop turns rest generalizing i j with
  | case1 rest =>
      rw [urlDecodeTouches, if_neg (by omega)]
      exact ⟨rfl, readsTo_nil _⟩
  | case2 turns pos =>
      rw [List.length_nil] at stop
      rw [urlDecodeTouches, if_neg (by omega)]
      exact ⟨rfl, readsTo_nil _⟩
  | case3 turns ih =>
      -- A percent sign in front of the terminator stands for itself.
      have here := byteAt_drop left
      have next := drop_next left
      rw [List.length_singleton] at stop
      obtain ⟨written, reads⟩ := ih List.not_mem_nil next (by omega) stop (j + 1)
      rw [urlDecodeTouches, if_pos (by omega), if_pos here, if_pos (byteAt_drop next)]
      simp only [written_read, written_write, here, written, List.zipIdx_cons, true_and]
      exact readsTo_read (by omega) (readsTo_read stop.le (readsTo_write reads))
  | case4 turns h ih =>
      have here := byteAt_drop left
      have next := drop_next left
      have last := drop_next next
      have nonzero : h ≠ 0 := fun zero => noNul (by simp [zero])
      simp only [List.length_cons, List.length_nil] at stop ih
      obtain ⟨written, reads⟩ := ih (fun member => noNul (List.mem_cons_of_mem _ member)) next
        (by omega) (by omega) j
      rw [urlDecodeTouches, if_pos (by omega), if_pos here, byteAt_drop next, if_neg nonzero,
        byteAt_drop last, isxdigit_zero, if_neg Bool.false_ne_true]
      split <;> simp only [written_read, written, true_and]
      · exact readsTo_read (by omega) (readsTo_read (by omega) (readsTo_read (by omega) reads))
      · exact readsTo_read (by omega) (readsTo_read (by omega) reads)
  | case5 turns h l rest digits ih =>
      have here := byteAt_drop left
      have next := drop_next left
      have last := drop_next next
      have nonzero : h ≠ 0 := fun zero => noNul (by simp [zero])
      have plain : 0 ∉ rest := fun member => noNul (by simp [member])
      simp only [List.length_cons] at stop
      obtain ⟨written, reads⟩ := ih plain (drop_next last) (by omega) (by omega) (j + 1)
      rw [urlDecodeTouches, if_pos (by omega), if_pos here, byteAt_drop next, if_neg nonzero,
        if_pos digits.1, byteAt_drop last, if_pos digits.2]
      simp only [written_read, written_write, written, List.zipIdx_cons, true_and]
      exact readsTo_read (by omega)
        (readsTo_read (by omega) (readsTo_read (by omega) (readsTo_write reads)))
  | case6 turns h l rest digits ih =>
      have here := byteAt_drop left
      have next := drop_next left
      have nonzero : h ≠ 0 := fun zero => noNul (by simp [zero])
      simp only [List.length_cons] at stop ih
      obtain ⟨written, reads⟩ := ih (fun member => noNul (List.mem_cons_of_mem _ member)) next
        (by omega) (by omega) j
      rw [urlDecodeTouches, if_pos (by omega), if_pos here, byteAt_drop next, if_neg nonzero,
        byteAt_drop (drop_next next)]
      split
      · rename_i first
        rw [if_neg fun second => digits ⟨first, second⟩]
        simp only [written_read, written, true_and]
        exact readsTo_read (by omega) (readsTo_read (by omega) (readsTo_read (by omega) reads))
      · simp only [written_read, written, true_and]
        exact readsTo_read (by omega) (readsTo_read (by omega) reads)
  | case7 turns c str other ih =>
      have here := byteAt_drop left
      have next := drop_next left
      rw [List.length_cons] at stop
      obtain ⟨written, reads⟩ := ih (fun member => noNul (List.mem_cons_of_mem _ member)) next
        (by omega) (by omega) (j + 1)
      rw [urlDecodeTouches, if_pos (by omega), here, if_neg other]
      simp only [written_read, written_write, written, List.zipIdx_cons, true_and]
      exact readsTo_read (by omega) (readsTo_write reads)

theorem urlDecodeLoop_length (turns : Nat) (str : Bytes) :
    (urlDecodeLoop turns str).length ≤ str.length := by
  fun_induction urlDecodeLoop turns str with
  | case1 str => exact Nat.zero_le _
  | case2 turns pos => exact le_rfl
  | case3 turns ih => exact Nat.succ_le_succ ih
  | case4 turns h ih => exact ih.trans (Nat.le_succ _)
  | case5 turns h l rest digits ih =>
      simp only [List.length_cons]
      omega
  | case6 turns h l rest digits ih => exact ih.trans (Nat.le_succ _)
  | case7 turns c str other ih => exact Nat.succ_le_succ ih

theorem urlDecodeCall_spec {str : Bytes} (noNul : 0 ∉ str) (beyond : Bytes) :
    (urlDecodeCall str beyond).filterMap Touch.written = (urlDecode str).zipIdx ∧
      ReadsTo str.length (urlDecodeCall str beyond) := by
  have len : (Int32.ofNat str.length).toInt.toNat ≤ str.length := by
    have most : (str.length % Int32.size : Nat) ≤ str.length := Nat.mod_le _ _
    rw [Int32.toInt_ofNat', Int.bmod, Int.toNat_le]
    split <;> omega
  obtain ⟨written, reads⟩ := urlDecodeTouches_spec (i := 0) noNul rfl (Nat.sub_zero _).symm
    (Nat.zero_add _) len 0
  constructor
  · have strlen (n : Nat) : ((List.range n).map Touch.read).filterMap Touch.written = [] := by
      apply List.filterMap_eq_nil_iff.mpr
      intro touch member
      obtain ⟨i, -, same⟩ := List.mem_map.mp member
      rw [← same]
      rfl
    rw [urlDecodeCall, List.filterMap_append, strlen, List.nil_append]
    exact written
  · intro n member
    rw [urlDecodeCall, List.mem_append] at member
    cases member with
    | inl member =>
        simp only [List.mem_map, List.mem_range] at member
        obtain ⟨i, less, same⟩ := member
        cases same
        omega
    | inr member => exact reads n member

/-! ## Base64 -/

def b64DecodeWrites : List Nat → Bytes → Nat → List (UInt8 × Nat) × Nat
  | _, [], k => ([], k)
  | s, c :: input, k => match s ++ [b64Int c] with
      | [s0, s1, s2, s3] =>
          let first := UInt8.ofNat (((s0 &&& 255) <<< 2) + ((s1 &&& 0x30) >>> 4))
          let second := UInt8.ofNat (((s1 &&& 0x0F) <<< 4) + ((s2 &&& 0x3C) >>> 2))
          let third := UInt8.ofNat (((s2 &&& 0x03) <<< 6) + s3)
          if s2 ≠ 64 then
            if s3 ≠ 64 then
              let (more, result) := b64DecodeWrites [] input (k + 3)
              ((first, k + 0) :: (second, k + 1) :: (third, k + 2) :: more, result)
            else
              let (more, result) := b64DecodeWrites [] input (k + 2)
              ((first, k + 0) :: (second, k + 1) :: more, result)
          else
            let (more, result) := b64DecodeWrites [] input (k + 1)
            ((first, k + 0) :: more, result)
      | s => b64DecodeWrites s input k

theorem b64DecodeWrites_eq (s : List Nat) (input : Bytes) (k : Nat) :
    b64DecodeWrites s input k =
      ((b64DecodeLoop s input).zipIdx k, k + (b64DecodeLoop s input).length) := by
  fun_induction b64DecodeLoop s input generalizing k with
  | case1 s => rfl
  | case2 s c input s0 s1 s2 s3 full ih =>
      rw [b64DecodeWrites, full]
      simp only [ih, b64DecodeGroup]
      split_ifs <;> simp [Nat.add_assoc] <;> omega
  | case3 s c input open_ ih =>
      rw [b64DecodeWrites]
      split
      · rename_i full
        exact absurd full (open_ _ _ _ _)
      · exact ih k

theorem b64DecodeGroup_length (s0 s1 s2 s3 : Nat) : (b64DecodeGroup s0 s1 s2 s3).length ≤ 3 := by
  rw [b64DecodeGroup]
  split_ifs <;> simp

theorem b64DecodeLoop_length {s : List Nat} (input : Bytes) (short : s.length < 4) :
    (b64DecodeLoop s input).length ≤ 3 * ((s.length + input.length) / 4) := by
  fun_induction b64DecodeLoop s input with
  | case1 s => exact Nat.zero_le _
  | case2 s c input s0 s1 s2 s3 full ih =>
      have three : s.length = 3 := by simpa using congrArg List.length full
      have group := b64DecodeGroup_length s0 s1 s2 s3
      have more := ih (by simp)
      simp only [List.length_append, List.length_cons, List.length_nil] at more ⊢
      omega
  | case3 s c input open_ ih =>
      have three : s.length ≠ 3 := by
        intro three
        obtain ⟨s0, s1, s2, rfl⟩ := List.length_eq_three.mp three
        exact open_ s0 s1 s2 (b64Int c) rfl
      simp only [List.length_append, List.length_cons, List.length_nil] at ih ⊢
      have := ih (by omega)
      omega

theorem b64Decode_length (input : Bytes) : (b64Decode input).length ≤ 3 * (input.length / 4) := by
  have bound := b64DecodeLoop_length (s := []) input (by simp)
  rw [List.length_nil, Nat.zero_add] at bound
  exact bound

/-! ## Both -/

theorem zipIdx_below {bytes : Bytes} {c : UInt8} {i : Nat} (member : (c, i) ∈ bytes.zipIdx) :
    i < bytes.length := by
  have := (List.mem_zipIdx' member).1
  exact this

theorem written_of_write {touches : List Touch} {i : Nat} {c : UInt8}
    (member : Touch.write i c ∈ touches) : (c, i) ∈ touches.filterMap Touch.written :=
  List.mem_filterMap.mpr ⟨_, member, rfl⟩

/-- Whatever the strings are, and whatever lies behind them, the decoders stay in their buffers, and
so in the two that the upload allocates. -/
theorem decoders_fit :
    (∀ (str : CString) (beyond : Bytes),
      (∀ i, Touch.read i ∈ urlDecodeCall str.bytes beyond → i ≤ str.bytes.length) ∧
      ∀ i c, Touch.write i c ∈ urlDecodeCall str.bytes beyond → i < str.bytes.length) ∧
    (∀ input : Bytes,
      (∀ i c, (c, i) ∈ (b64DecodeWrites [] input 0).1 → i < 3 * (input.length / 4)) ∧
      (b64DecodeWrites [] input 0).2 ≤ 3 * (input.length / 4)) ∧
    ∀ (base64 : CString) (beyond : Bytes),
      (∀ i c, Touch.write i c ∈ urlDecodeCall base64.bytes beyond →
        i < base64.bytes.length + 1) ∧
      ∀ i c, (c, i) ∈ (b64DecodeWrites [] (urlDecode base64.bytes) 0).1 →
        i < (base64Image base64.bytes).2 := by
  have url (str : CString) (beyond : Bytes) (i : Nat) (c : UInt8)
      (member : Touch.write i c ∈ urlDecodeCall str.bytes beyond) : i < str.bytes.length := by
    have written := written_of_write member
    rw [(urlDecodeCall_spec str.noNul beyond).1] at written
    exact (zipIdx_below written).trans_le (urlDecodeLoop_length _ _)
  have base64 (input : Bytes) (i : Nat) (c : UInt8)
      (member : (c, i) ∈ (b64DecodeWrites [] input 0).1) : i < 3 * (input.length / 4) := by
    rw [b64DecodeWrites_eq] at member
    exact (zipIdx_below member).trans_le (b64Decode_length input)
  refine ⟨?_, ?_, ?_⟩
  · intro str beyond
    exact ⟨(urlDecodeCall_spec str.noNul beyond).2, url str beyond⟩
  · intro input
    refine ⟨base64 input, ?_⟩
    rw [b64DecodeWrites_eq, Nat.zero_add]
    exact b64Decode_length input
  · intro str beyond
    constructor
    · intro i c member
      exact Nat.lt_succ_of_lt (url str beyond i c member)
    · intro i c member
      have bound := base64 _ i c member
      rw [base64Image]
      dsimp only
      omega

end Ximg
