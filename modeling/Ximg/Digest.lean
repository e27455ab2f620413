import Ximg.Library.MessageDigest
import Ximg.Zmd5

/-!
# What the digest functions compute

The state after some data was appended determines the digest of that data, in whatever pieces it
arrived.
-/

namespace Ximg
open Text Chaining MessageDigest

/-! ## One block -/

def scheduled (i : Nat) : Nat × UInt32 × UInt32 :=
  (wordIndex i, shift i, UInt32.ofNat (SineTable.table.getD i 0))

theorem round1_scheduled : round1 = (List.range' 0 16).map scheduled := by decide +kernel
theorem round2_scheduled : round2 = (List.range' 16 16).map scheduled := by decide +kernel
theorem round3_scheduled : round3 = (List.range' 32 16).map scheduled := by decide +kernel
theorem round4_scheduled : round4 = (List.range' 48 16).map scheduled := by decide +kernel

theorem words_getD {p : Bytes} {k : Nat} (inside : 4 * k + 4 ≤ p.length) :
    (words p).getD k 0 = word p k := by
  induction p using words.induct generalizing k with
  | case1 b0 b1 b2 b3 rest ih =>
      cases k with
      | zero =>
          have small (b : UInt8) : b.toNat < 2 ^ 8 := b.toNat_lt
          apply UInt32.toNat.inj
          simp only [words, word, List.getD_cons_zero, Nat.mul_zero, List.drop_zero,
            List.take_succ_cons, List.take_zero, List.map_cons, List.map_nil, Nat.ofDigits_cons,
            Nat.ofDigits_nil, UInt32.toNat_add, UInt32.toNat_shiftLeft, UInt8.toNat_toUInt32,
            UInt32.toNat_ofNat', Nat.shiftLeft_eq, UInt32.reduceToNat, Nat.reduceMod,
            Nat.reducePow]
          have := small b0
          have := small b1
          have := small b2
          have := small b3
          omega
      | succ k =>
          have shorter : 4 * k + 4 ≤ rest.length := by
            simp only [List.length_cons] at inside
            omega
          have skip : 4 * (k + 1) = 4 * k + 4 := by ring
          rw [words, List.getD_cons_succ, ih shorter, word, word, skip]
          rfl
  | case2 p short =>
      cases p with
      | nil => simp at inside
      | cons b0 p =>
        cases p with
        | nil => simp at inside
        | cons b1 p =>
          cases p with
          | nil => simp at inside
          | cons b2 p =>
            cases p with
            | nil => simp at inside
            | cons b3 p => exact absurd rfl (short b0 b1 b2 b3 p)

theorem wordIndex_lt (i : Nat) : wordIndex i < 16 := by
  unfold wordIndex
  split <;> exact Nat.mod_lt _ (by decide)

theorem md5Set_scheduled {f : UInt32 → UInt32 → UInt32 → UInt32} {block : Bytes} {i : Nat}
    (mix : f = auxiliary i) (small : i < 64) (whole : block.length = 64) (r : Registers) :
    md5Set f (words block) r (scheduled i) = operation block r i := by
  have index := wordIndex_lt i
  rw [md5Set, scheduled, operation]
  dsimp only
  rw [words_getD (by omega), constant_eq small, mix, UInt32.add_comm (rotateLeft _ _)]
  rfl

theorem round_scheduled (f : UInt32 → UInt32 → UInt32 → UInt32) (start : Nat) {block : Bytes}
    (mix : ∀ i ∈ List.range' start 16, f = auxiliary i) (small : start + 16 ≤ 64)
    (whole : block.length = 64) (r : Registers) :
    ((List.range' start 16).map scheduled).foldl (md5Set f (words block)) r =
      (List.range' start 16).foldl (operation block) r := by
  rw [List.foldl_map]
  apply List.foldl_ext
  intro r i member
  have bound := List.mem_range'_1.mp member
  exact md5Set_scheduled (mix i member) (by omega) whole r

def Md5State.regs (pms : Md5State) : Registers := (pms.a, pms.b, pms.c, pms.d)

theorem auxiliary_round {start i : Nat} (member : i ∈ List.range' start 16) (even : start % 16 = 0) :
    auxiliary i = auxiliary start := by
  have bound := List.mem_range'_1.mp member
  have level : i / 16 = start / 16 := by omega
  unfold auxiliary
  rw [level]

def Md5State.addRegs (pms : Md5State) (r : Registers) : Md5State :=
  { pms with a := pms.a + r.1, b := pms.b + r.2.1, c := pms.c + r.2.2.1, d := pms.d + r.2.2.2 }

theorem md5Process_eq (pms : Md5State) (data : Bytes) :
    md5Process pms data =
      let x := words (data.take 64)
      pms.addRegs (round4.foldl (md5Set md5I x) (round3.foldl (md5Set md5H x)
        (round2.foldl (md5Set md5G x) (round1.foldl (md5Set md5F x) pms.regs)))) := by
  unfold md5Process
  simp -zeta only []
  -- the lists of operations must not be unfolded
  generalize words (data.take 64) = x
  generalize round1 = l1
  generalize round2 = l2
  generalize round3 = l3
  generalize round4 = l4
  rfl

theorem md5Process_regs (pms : Md5State) {data : Bytes} (whole : 64 ≤ data.length) :
    (md5Process pms data).regs = compress pms.regs (data.take 64) := by
  have block : (data.take 64).length = 64 := by simpa using whole
  have schedule : List.range 64 = List.range' 0 16 ++ List.range' 16 16 ++ List.range' 32 16 ++
      List.range' 48 16 := by decide
  have first := round_scheduled md5F 0
    (fun i member => (auxiliary_round member rfl).symm) (by decide) block
  have second := round_scheduled md5G 16
    (fun i member => (auxiliary_round member rfl).symm) (by decide) block
  have third := round_scheduled md5H 32
    (fun i member => (auxiliary_round member rfl).symm) (by decide) block
  have fourth := round_scheduled md5I 48
    (fun i member => (auxiliary_round member rfl).symm) (by decide) block
  rw [← round1_scheduled] at first
  rw [← round2_scheduled] at second
  rw [← round3_scheduled] at third
  rw [← round4_scheduled] at fourth
  rw [md5Process_eq, compress, schedule, List.foldl_append, List.foldl_append, List.foldl_append, ← first,
    ← second, ← third, ← fourth]
  rfl

theorem md5Process_frame (pms : Md5State) (data : Bytes) :
    (md5Process pms data).buf = pms.buf ∧ (md5Process pms data).count0 = pms.count0 ∧
      (md5Process pms data).count1 = pms.count1 := by
  have frame (r : Registers) : (pms.addRegs r).buf = pms.buf ∧
      (pms.addRegs r).count0 = pms.count0 ∧ (pms.addRegs r).count1 = pms.count1 := ⟨rfl, rfl, rfl⟩
  rw [md5Process_eq]
  apply frame

/-! ## Appending -/

theorem md5Blocks_absorb (pms : Md5State) {p : Bytes} {fuel : Nat} (enough : p.length ≤ fuel) :
    (md5Blocks pms p fuel).1.regs = absorb 64 compress pms.regs p ∧
      (md5Blocks pms p fuel).2 = pending 64 p ∧ (md5Blocks pms p fuel).1.buf = pms.buf ∧
      (md5Blocks pms p fuel).1.count0 = pms.count0 ∧
      (md5Blocks pms p fuel).1.count1 = pms.count1 := by
  induction fuel generalizing pms p with
  | zero =>
      have empty : p = [] := List.eq_nil_of_length_eq_zero (by omega)
      rw [empty]
      exact ⟨rfl, rfl, rfl, rfl, rfl⟩
  | succ fuel ih =>
      rw [md5Blocks]
      by_cases long : 64 ≤ p.length
      · obtain ⟨buf, count0, count1⟩ := md5Process_frame pms p
        have rest := ih (md5Process pms p) (p := p.drop 64) (by rw [List.length_drop]; omega)
        rw [buf, count0, count1, md5Process_regs pms long, ← absorb_block (by decide) _ long,
          ← pending_block (by decide) long] at rest
        rw [if_pos long]
        exact rest
      · rw [if_neg long, absorb_short _ (by omega), pending_short (by omega)]
        exact ⟨rfl, rfl, rfl, rfl, rfl⟩

theorem storeAt_take (buf : Bytes) (offset : Nat) (p : Bytes) (inside : offset ≤ buf.length) :
    (storeAt buf offset p).take (offset + p.length) = buf.take offset ++ p := by
  have front : (buf.take offset ++ p).length = offset + p.length := by
    rw [List.length_append, List.length_take, min_eq_left inside]
  rw [storeAt, ← front, List.take_left]

theorem length_storeAt {buf : Bytes} {offset : Nat} {p : Bytes}
    (inside : offset + p.length ≤ buf.length) : (storeAt buf offset p).length = buf.length := by
  simp only [storeAt, List.length_append, List.length_take, List.length_drop]
  omega

structure Absorbed (pms : Md5State) (m : Bytes) : Prop where
  regs : pms.regs = absorb 64 compress initial m
  kept : pms.buf.take (m.length % 64) = pending 64 m
  size : pms.buf.length = 64
  count0 : pms.count0.toNat = 8 * m.length % 2 ^ 32
  count1 : pms.count1.toNat = 8 * m.length / 2 ^ 32 % 2 ^ 32

theorem md5Init_absorbed : Absorbed md5Init [] := ⟨rfl, rfl, rfl, rfl, rfl⟩

theorem Absorbed.offset {pms : Md5State} {m : Bytes} (absorbed : Absorbed pms m) :
    ((pms.count0 >>> 3) &&& 63).toNat = m.length % 64 := by
  have low := absorbed.count0
  have mask (k : Nat) : k &&& 63 = k % 64 := Nat.and_two_pow_sub_one_eq_mod k 6
  simp only [UInt32.toNat_and, UInt32.toNat_shiftRight, UInt32.reduceToNat, Nat.reduceMod,
    Nat.shiftRight_eq_div_pow, Nat.reducePow, mask]
  omega

def Md5State.counted (pms : Md5State) (nbytes : UInt32) : Md5State :=
  let nbits := nbytes <<< 3
  let count1 := pms.count1 + (nbytes >>> 29)
  let count0 := pms.count0 + nbits
  let count1 := if count0 < nbits then count1 + 1 else count1
  { pms with count0 := count0, count1 := count1 }

def md5Rest (pms : Md5State) (p : Bytes) (n : Nat) : Md5State :=
  let (pms, rest) := md5Blocks pms p n
  { pms with buf := storeAt pms.buf 0 rest }

def md5Fill (pms : Md5State) (offset : Nat) (p : Bytes) (n : Nat) : Md5State :=
  if offset = 0 then md5Rest pms p n
  else if offset + n < 64 then { pms with buf := storeAt pms.buf offset p }
  else
    let full := storeAt pms.buf offset (p.take (64 - offset))
    md5Rest (md5Process { pms with buf := full } full) (p.drop (64 - offset)) n

theorem md5Append_pos (pms : Md5State) (data : Bytes) {nbytes : Int32} (positive : ¬nbytes ≤ 0) :
    md5Append pms data nbytes =
      md5Fill (pms.counted nbytes.toUInt32) ((pms.count0 >>> 3) &&& 63).toNat
        (data.take nbytes.toInt.toNat) nbytes.toInt.toNat := by
  rw [md5Append, if_neg positive, md5Fill]
  generalize ((pms.count0 >>> 3) &&& 63).toNat = offset
  by_cases empty : offset = 0
  · rw [if_pos empty]
    dsimp only
    rw [if_neg (fun waits => waits.1 empty), if_neg (not_not.mpr empty), if_neg (not_not.mpr empty)]
    rfl
  · rw [if_neg empty]
    dsimp only
    rw [if_pos empty, if_pos empty]
    by_cases waits : offset + nbytes.toInt.toNat < 64
    · rw [if_pos waits, if_pos ⟨empty, waits⟩]
      rfl
    · rw [if_neg waits, if_neg (fun both => waits both.2)]
      rfl

theorem counted_counts (pms : Md5State) {m : Bytes} (absorbed : Absorbed pms m) {n : Nat}
    (small : n ≤ 2 ^ 30) :
    (pms.counted (UInt32.ofNat n)).count0.toNat = 8 * (m.length + n) % 2 ^ 32 ∧
      (pms.counted (UInt32.ofNat n)).count1.toNat = 8 * (m.length + n) / 2 ^ 32 % 2 ^ 32 := by
  have low := absorbed.count0
  have high := absorbed.count1
  have nbits : (UInt32.ofNat n <<< 3).toNat = 8 * n % 2 ^ 32 := by
    simp only [UInt32.toNat_shiftLeft, UInt32.toNat_ofNat', UInt32.reduceToNat, Nat.reduceMod,
      Nat.shiftLeft_eq, Nat.reducePow]
    omega
  have spill : (UInt32.ofNat n >>> 29).toNat = 8 * n / 2 ^ 32 := by
    simp only [UInt32.toNat_shiftRight, UInt32.toNat_ofNat', UInt32.reduceToNat, Nat.reduceMod,
      Nat.shiftRight_eq_div_pow, Nat.reducePow]
    omega
  have sum : (pms.count0 + UInt32.ofNat n <<< 3).toNat = 8 * (m.length + n) % 2 ^ 32 := by
    rw [UInt32.toNat_add, low, nbits]
    omega
  constructor
  · exact sum
  · rw [Md5State.counted]
    dsimp only
    split <;> rename_i carry <;> rw [UInt32.lt_iff_toNat_lt, sum, nbits] at carry
    · rw [UInt32.toNat_add, UInt32.toNat_add, high, spill, UInt32.toNat_one]
      omega
    · rw [UInt32.toNat_add, high, spill]
      omega

structure Filled (after pms : Md5State) (text : Bytes) : Prop where
  regs : after.regs = absorb 64 compress pms.regs text
  kept : after.buf.take (pending 64 text).length = pending 64 text
  size : after.buf.length = 64
  count0 : after.count0 = pms.count0
  count1 : after.count1 = pms.count1

theorem md5Rest_filled (pms : Md5State) (size : pms.buf.length = 64) {p : Bytes} {n : Nat}
    (enough : p.length ≤ n) : Filled (md5Rest pms p n) pms p := by
  obtain ⟨regs, rest, buf, count0, count1⟩ := md5Blocks_absorb pms enough
  have left : (pending 64 p).length < 64 := by
    rw [length_pending]
    exact Nat.mod_lt _ (by decide)
  have room : 0 + (pending 64 p).length ≤ (md5Blocks pms p n).1.buf.length := by
    rw [buf, size]
    omega
  rw [← rest] at room
  have front := storeAt_take (md5Blocks pms p n).1.buf 0 (md5Blocks pms p n).2 (Nat.zero_le _)
  rw [Nat.zero_add, List.take_zero, List.nil_append] at front
  have kept : (md5Rest pms p n).buf.take (pending 64 p).length = pending 64 p := by
    rw [← rest]
    exact front
  exact ⟨regs, kept, (length_storeAt room).trans (buf ▸ size), count0, count1⟩

theorem md5Fill_filled (pms : Md5State) {q : Bytes} (p : Bytes) (kept : pms.buf.take q.length = q)
    (size : pms.buf.length = 64) (short : q.length < 64) :
    Filled (md5Fill pms q.length p p.length) pms (q ++ p) := by
  rw [md5Fill]
  split
  · rename_i empty
    rw [List.eq_nil_of_length_eq_zero empty]
    exact md5Rest_filled pms size le_rfl
  split
  · rename_i waits
    have joined : (q ++ p).length < 64 := by
      rw [List.length_append]
      exact waits
    have inside : q.length + p.length ≤ pms.buf.length := by omega
    have front := storeAt_take pms.buf q.length p (by omega)
    rw [kept, ← List.length_append] at front
    constructor
    · exact (absorb_short _ joined).symm
    · rw [pending_short joined]
      exact front
    · exact (length_storeAt inside).trans size
    · rfl
    · rfl
  · rename_i full
    have long : 64 ≤ (q ++ p).length := by
      rw [List.length_append]
      omega
    have part : q.length + (p.take (64 - q.length)).length = 64 := by
      rw [List.length_append] at long
      rw [List.length_take]
      omega
    have front : (q ++ p).take 64 = q ++ p.take (64 - q.length) := by
      rw [List.take_append, List.take_of_length_le short.le]
    have back : (q ++ p).drop 64 = p.drop (64 - q.length) := by
      rw [List.drop_append, List.drop_of_length_le short.le, List.nil_append]
    have block : storeAt pms.buf q.length (p.take (64 - q.length)) = (q ++ p).take 64 := by
      have all := storeAt_take pms.buf q.length (p.take (64 - q.length)) (by omega)
      have room : (storeAt pms.buf q.length (p.take (64 - q.length))).length = pms.buf.length :=
        length_storeAt (part.le.trans size.ge)
      rw [part, List.take_of_length_le (by omega), kept] at all
      rw [all, front]
    have whole : ((q ++ p).take 64).length = 64 := by simpa using long
    rw [← back]
    dsimp only
    rw [block]
    generalize made : ({ pms with buf := (q ++ p).take 64 } : Md5State) = pms'
    obtain ⟨buf, count0, count1⟩ := md5Process_frame pms' ((q ++ p).take 64)
    have regs := md5Process_regs pms' whole.ge
    subst made
    have left : ((q ++ p).drop 64).length ≤ p.length := by
      rw [back, List.length_drop]
      omega
    have rest := md5Rest_filled (md5Process { pms with buf := (q ++ p).take 64 }
      ((q ++ p).take 64)) (by rw [buf, whole]) left
    constructor
    · rw [rest.regs, regs, List.take_take, absorb_block (by decide) _ long]
      rfl
    · rw [pending_block (by decide) long]
      exact rest.kept
    · exact rest.size
    · exact rest.count0.trans count0
    · exact rest.count1.trans count1

theorem md5Append_absorbed {pms : Md5State} {m : Bytes} (absorbed : Absorbed pms m) (data : Bytes)
    {n : Nat} (small : n ≤ 2 ^ 30) (long : n ≤ data.length) :
    Absorbed (md5Append pms data (Int32.ofNat n)) (m ++ data.take n) := by
  have value : (Int32.ofNat n).toInt = n := by
    rw [Int32.toInt_ofNat_of_lt (by omega)]
  by_cases empty : n = 0
  · subst empty
    rw [List.take_zero, List.append_nil]
    exact absorbed
  have positive : ¬Int32.ofNat n ≤ 0 := by
    rw [Int32.le_iff_toInt_le, value]
    simp only [Int32.toInt_zero]
    omega
  have word : (Int32.ofNat n).toUInt32 = UInt32.ofNat n := rfl
  have size : (data.take n).length = n := by simpa using long
  have short : (pending 64 m).length < 64 := by
    rw [length_pending]
    exact Nat.mod_lt _ (by decide)
  obtain ⟨count0, count1⟩ := counted_counts pms absorbed small
  have kept := absorbed.kept
  rw [← length_pending] at kept
  have filled := md5Fill_filled (pms.counted (UInt32.ofNat n)) (data.take n) kept absorbed.size
    short
  rw [size, length_pending] at filled
  rw [md5Append_pos _ _ positive, value, word, absorbed.offset, Int.toNat_natCast]
  have total : (m ++ data.take n).length = m.length + n := by rw [List.length_append, size]
  have left : (pending 64 (pending 64 m ++ data.take n)).length =
      (m ++ data.take n).length % 64 := by
    rw [← pending_append (by decide), length_pending]
  constructor
  · rw [absorb_append (by decide) _ m, ← absorbed.regs]
    exact filled.regs
  · rw [← left, pending_append (by decide) m]
    exact filled.kept
  · exact filled.size
  · rw [filled.count0, count0, total]
  · rw [filled.count1, count1, total]

theorem md5Appends_absorbed {pms : Md5State} {m : Bytes} (absorbed : Absorbed pms m)
    (chunks : List Bytes) (small : ∀ c ∈ chunks, c.length ≤ 2 ^ 30) :
    Absorbed (chunks.foldl (fun pms c => md5Append pms c (Int32.ofNat c.length)) pms)
      (m ++ chunks.flatten) := by
  induction chunks generalizing pms m with
  | nil => simpa using absorbed
  | cons c chunks ih =>
      have one := md5Append_absorbed absorbed c (small c List.mem_cons_self) le_rfl
      rw [List.take_length] at one
      have rest := ih one fun d member => small d (List.mem_cons_of_mem c member)
      rw [List.append_assoc] at rest
      exact rest

/-! ## Finishing -/

theorem wordBytes_eq (w : UInt32) : wordBytes w = littleEndian 4 w.toNat := by
  have byte (k : Nat) (small : k < 32) (shift : UInt32) (by8 : shift.toNat = k) :
      (w >>> shift).toUInt8 = UInt8.ofNat (w.toNat / 2 ^ k) := by
    apply UInt8.toNat.inj
    rw [UInt32.toNat_toUInt8, UInt32.toNat_shiftRight, by8, Nat.mod_eq_of_lt small,
      Nat.shiftRight_eq_div_pow, UInt8.toNat_ofNat']
  have first : w.toUInt8 = UInt8.ofNat (w.toNat / 256 ^ 0) := by
    rw [pow_zero, Nat.div_one, UInt8.ofNat_uInt32ToNat]
  rw [wordBytes, first, byte 8 (by decide) 8 rfl, byte 16 (by decide) 16 rfl,
    byte 24 (by decide) 24 rfl]
  rfl

theorem countBytes_eq {pms : Md5State} {m : Bytes} (absorbed : Absorbed pms m) :
    wordBytes pms.count0 ++ wordBytes pms.count1 = littleEndian 8 (8 * m.length) := by
  have byte {a b : Nat} (same : a % 256 = b % 256) : UInt8.ofNat a = UInt8.ofNat b := by
    apply UInt8.toNat.inj
    rw [UInt8.toNat_ofNat', UInt8.toNat_ofNat', same]
  rw [wordBytes_eq, wordBytes_eq, absorbed.count0, absorbed.count1]
  simp only [littleEndian, List.range, List.range.loop, List.map_cons, List.map_nil,
    List.cons_append, List.nil_append, List.cons.injEq, and_true]
  refine ⟨?_, ?_, ?_, ?_, ?_, ?_, ?_, ?_⟩ <;> apply byte <;> omega

theorem md5Finish_digest {pms : Md5State} {m : Bytes} (absorbed : Absorbed pms m) :
    md5Finish pms = digest m := by
  have zeros : (119 - m.length % 64) % 64 < 64 := Nat.mod_lt _ (by decide)
  have low := absorbed.count0
  have mask (k : Nat) : k &&& 63 = k % 64 := Nat.and_two_pow_sub_one_eq_mod k 6
  have count : (((55 : UInt32) - pms.count0 >>> 3) &&& 63) + 1 =
      UInt32.ofNat (1 + (119 - m.length % 64) % 64) := by
    apply UInt32.toNat.inj
    simp only [UInt32.toNat_add, UInt32.toNat_and, UInt32.toNat_sub, UInt32.toNat_shiftRight,
      UInt32.toNat_ofNat', UInt32.reduceToNat, Nat.reduceMod, Nat.shiftRight_eq_div_pow,
      Nat.reducePow, mask]
    omega
  have pad : md5Pad.take (1 + (119 - m.length % 64) % 64) =
      0x80 :: List.replicate ((119 - m.length % 64) % 64) 0 := by
    rw [md5Pad, Nat.add_comm, List.take_succ_cons, List.take_replicate, min_eq_left (by omega)]
  have long : 1 + (119 - m.length % 64) % 64 ≤ md5Pad.length := by
    simp only [md5Pad, List.length_cons, List.length_replicate]
    omega
  have padded := md5Append_absorbed absorbed md5Pad (by omega) long
  have finished := md5Append_absorbed padded (littleEndian 8 (8 * m.length)) (by decide)
    (length_littleEndian 8 _).ge
  have whole : (littleEndian 8 (8 * m.length)).take 8 = littleEndian 8 (8 * m.length) :=
    List.take_of_length_le (length_littleEndian _ _).le
  rw [pad, whole, List.append_assoc] at finished
  have regs := finished.regs
  rw [md5Finish, countBytes_eq absorbed, count, digest, padding, ← regs]
  simp only [wordBytes_eq, List.append_assoc]
  rfl

/-- Whatever the pieces of a message, the digest is the standard's. -/
theorem md5_any_chunking (m : Bytes) (chunks : List Bytes) (cut : chunks.flatten = m)
    (small : ∀ c ∈ chunks, c.length ≤ 2 ^ 30) :
    md5Finish (chunks.foldl (fun pms c => md5Append pms c (Int32.ofNat c.length)) md5Init) =
      digest m := by
  have absorbed := md5Appends_absorbed md5Init_absorbed chunks small
  rw [List.nil_append, cut] at absorbed
  exact md5Finish_digest absorbed

theorem md5_any_chunking_abc :
    md5Finish ([ascii "a", [], ascii "bc"].foldl
      (fun pms c => md5Append pms c (Int32.ofNat c.length)) md5Init) = digest (ascii "abc") :=
  md5_any_chunking (ascii "abc") [ascii "a", [], ascii "bc"] rfl (by decide)

end Ximg
