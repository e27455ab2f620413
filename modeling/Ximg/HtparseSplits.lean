import Ximg.Htparse

/-!
# Reads of a stream

How a stream is cut into reads makes no difference to the parser, as long as it takes the stream at
all, with one exception: a read may not begin with the blank behind the host of an absolute URI.
-/

namespace Ximg.Htparse
open Text

variable {σ : Type} {hook : Htparser → Hook → σ → Bool × σ}

/-! ## What a turn depends on -/

def Htparser.InBody (p : Htparser) : Prop := p.state = .bodyRead ∨ p.state = .chunkData

/-- A run that begins with this byte takes it for an error. -/
def Htparser.Blocked (p : Htparser) (data : Bytes) : Prop :=
  (p.state = .host ∨ p.state = .hostDone ∨ p.state = .port) ∧ data.head? = some space

theorem turn_first {p : Htparser} {ch : UInt8} {rest : Bytes} (first : Bool) (s : σ)
    (free : ¬p.Blocked (ch :: rest)) :
    turn hook first p ch rest s = turn hook false p ch rest s := by
  cases first with
  | false => rfl
  | true =>
      unfold turn
      split
      · rfl
      · cases state : p.state with
        | host | hostDone | port =>
            have other : ch ≠ space := by
              rintro rfl
              exact free ⟨by simp [state], rfl⟩
            simp [hostTurn, hostDoneTurn, portTurn, other]
        | _ => rfl

theorem turn_rest {p : Htparser} (outside : ¬p.InBody) (first : Bool) (ch : UInt8)
    (rest rest' : Bytes) (s : σ) : turn hook first p ch rest s = turn hook first p ch rest' s := by
  unfold turn
  split
  · rfl
  · cases state : p.state with
    | bodyRead => exact absurd (.inl state) outside
    | chunkData => exact absurd (.inr state) outside
    | _ => rfl

def Htparser.Again (p : Htparser) : Prop := p.state = .afterSlashInUri ∨ p.state = .hdrlineHdrVal

def Turn.Fine : Turn σ → Prop
  | .goes n p _ => p.error = .none ∧ (n = 0 → p.Again)
  | .stops _ _ _ => True

@[simp] theorem fail_fine (error : HtpparseError) (p : Htparser) (s : σ) :
    (fail error p s).Fine := trivial

@[simp] theorem checked_fine (n : Nat) (r : Bool × σ) (p : Htparser) :
    (checked (max n 1) r p).Fine ↔ (r.1 = false → p.error = .none) := by
  have some : max n 1 ≠ 0 := by omega
  cases failed : r.1 <;> simp [checked, failed, Turn.Fine, some]

@[simp] theorem again_fine (p : Htparser) (s : σ) :
    (Turn.goes 0 p s).Fine ↔ p.error = .none ∧ p.Again := by
  simp [Turn.Fine]

@[simp] theorem stops_fine (n : Nat) (p : Htparser) (s : σ) : (Turn.stops n p s).Fine := trivial

@[simp] theorem ite_fine (c : Prop) [Decidable c] (t t' : Turn σ) :
    (if c then t else t').Fine ↔ (c → t.Fine) ∧ (¬c → t'.Fine) := by
  split <;> simp_all

@[simp] theorem next_fine (p : Htparser) (s : σ) : (next p s).Fine ↔ p.error = .none := by
  simp [next, Turn.Fine]

@[simp] theorem hooked_fine (h : Hook) (p p' : Htparser) (s : σ) :
    (hooked hook h p p' s).Fine ↔ ((hook p h s).1 = false → p'.error = .none) := by
  exact checked_fine 1 (hook p h s) p'

@[simp] theorem hooked₂_fine (h h' : Hook) (p p' : Htparser) (s : σ) :
    (hooked₂ hook h h' p p' s).Fine ↔
      ((hook p h s).1 = false ∧ (hook p h' (hook p h s).2).1 = false → p'.error = .none) := by
  cases failed : (hook p h s).1 <;> cases failed' : (hook p h' (hook p h s).2).1 <;>
    simp [hooked₂, failed, failed']

@[simp] theorem hostPath_fine (n : Nat) (p : Htparser) (s : σ) :
    (hostPath n p s).Fine ↔ p.error = .none := by
  simp [hostPath, Turn.Fine, Htparser.Again, Htparser.put]

@[simp] theorem put_error (p : Htparser) (ch : UInt8) : (p.put ch).error = p.error := rfl

@[simp] theorem goto_error (p : Htparser) (state : ParserState) : (p.goto state).error = p.error := rfl

@[simp] theorem took_error (p : Htparser) (data : Bytes) : (p.took data).error = p.error := rfl

variable (hook) in
theorem turn_fine {p : Htparser} (fine : p.error = .none) (first : Bool) (ch : UInt8)
    (rest : Bytes) (s : σ) : (turn hook first p ch rest s).Fine := by
  unfold turn
  split
  · trivial
  · cases p.state with
    | port =>
        unfold portTurn hostPath
        dsimp only
        split_ifs <;> simp [Turn.Fine, next, fail, Htparser.Again, fine]
    | hdrlineHdrVal =>
        unfold hdrValTurn
        cases p.heval with
        | contentLength => cases strToUint64 p.buf <;> simp [fine]
        | _ => simp [fine]
    | hdrlineHdrSpaceBeforeVal =>
        have again : ((p.put space).goto .hdrlineHdrVal).Again := .inr rfl
        simp [spaceBeforeValTurn, again, fine]
    | bodyRead => simp [bodyReadTurn, fine]
    | chunkData => simp [chunkDataTurn, fine]
    | chunkSizeStart =>
        unfold chunkSizeStartTurn
        cases unhex ch <;> simp [fine]
    | chunkSize =>
        unfold chunkSizeTurn
        cases unhex ch <;> simp [fine]
    | _ =>
        simp [startTurn, methodTurn, spacesBeforeUriTurn, schemaTurn, schemaSlashTurn,
          schemaSlashSlashTurn, hostTurn, hostIpv6Turn, hostDoneTurn, afterSlashInUriTurn,
          checkUriTurn, uriTurn, oldVersion, argsTurn, http09Turn, httpTurn, firstMajorDigitTurn,
          majorDigitTurn, firstMinorDigitTurn, minorDigitTurn, spacesAfterDigitTurn, almostDoneTurn,
          doneTurn, hdrlineStartTurn, hdrKeyTurn, hdrAlmostDoneTurn, hdrDoneTurn,
          hdrlineAlmostDoneTurn, chunkSizeAlmostDoneTurn, chunkDataAlmostDoneTurn, chunkDataDoneTurn,
          fine]

def Turn.Within (more : Nat) : Turn σ → Prop
  | .goes n _ _ => n ≤ more + 1
  | .stops _ _ _ => True

@[simp] theorem next_within (more : Nat) (p : Htparser) (s : σ) : (next p s).Within more := by
  simp [next, Turn.Within]

@[simp] theorem fail_within (more : Nat) (error : HtpparseError) (p : Htparser) (s : σ) :
    (fail error p s).Within more := trivial

@[simp] theorem stops_within (more n : Nat) (p : Htparser) (s : σ) :
    (Turn.stops n p s).Within more := trivial

@[simp] theorem checked_within (more n : Nat) (r : Bool × σ) (p : Htparser) (le : n ≤ more + 1) :
    (checked n r p).Within more := by
  cases failed : r.1 <;> simp [checked, failed, Turn.Within, le]

@[simp] theorem hooked_within (more : Nat) (h : Hook) (p p' : Htparser) (s : σ) :
    (hooked hook h p p' s).Within more := checked_within more 1 _ _ (by omega)

@[simp] theorem hooked₂_within (more : Nat) (h h' : Hook) (p p' : Htparser) (s : σ) :
    (hooked₂ hook h h' p p' s).Within more := by
  unfold hooked₂
  dsimp only
  split <;> simp

@[simp] theorem ite_within (more : Nat) (c : Prop) [Decidable c] (t t' : Turn σ) :
    (if c then t else t').Within more ↔ (c → t.Within more) ∧ (¬c → t'.Within more) := by
  split <;> simp_all

theorem toRead_within (p : Htparser) (ch : UInt8) (rest : Bytes) :
    max (p.toRead (ch :: rest)) 1 ≤ rest.length + 1 := by
  have le : p.toRead (ch :: rest) ≤ rest.length + 1 := Nat.min_le_left _ _
  omega

theorem turn_within (first : Bool) (p : Htparser) (ch : UInt8) (rest : Bytes) (s : σ) :
    (turn hook first p ch rest s).Within rest.length := by
  unfold turn
  split
  · trivial
  · cases p.state with
    | port =>
        unfold portTurn hostPath
        dsimp only
        split_ifs <;> simp [Turn.Within, next, fail]
    | hdrlineHdrVal =>
        unfold hdrValTurn
        cases p.heval with
        | contentLength => cases strToUint64 p.buf <;> simp
        | _ => simp
    | bodyRead =>
        have le := toRead_within p ch rest
        simp [bodyReadTurn, le]
    | chunkData =>
        have le := toRead_within p ch rest
        simp [chunkDataTurn, le]
    | chunkSizeStart =>
        unfold chunkSizeStartTurn
        cases unhex ch <;> simp
    | chunkSize =>
        unfold chunkSizeTurn
        cases unhex ch <;> simp
    | host | hostDone =>
        simp only [hostTurn, hostDoneTurn, hostPath]
        split_ifs <;> simp [Turn.Within, next, fail]
    | hdrlineHdrSpaceBeforeVal =>
        unfold spaceBeforeValTurn
        split_ifs <;> simp [Turn.Within, next, fail]
    | _ =>
        simp [startTurn, methodTurn, spacesBeforeUriTurn, schemaTurn, schemaSlashTurn,
          schemaSlashSlashTurn, hostIpv6Turn, afterSlashInUriTurn, checkUriTurn, uriTurn, oldVersion,
          argsTurn, http09Turn, httpTurn, firstMajorDigitTurn, majorDigitTurn, firstMinorDigitTurn,
          minorDigitTurn, spacesAfterDigitTurn, almostDoneTurn, doneTurn, hdrlineStartTurn,
          hdrKeyTurn, hdrAlmostDoneTurn, hdrDoneTurn, hdrlineAlmostDoneTurn, chunkSizeAlmostDoneTurn,
          chunkDataAlmostDoneTurn, chunkDataDoneTurn]

/-! ## Bytes that are skipped -/

theorem loop_skip (data : Bytes) (skip : Nat) (p : Htparser) (s : σ)
    (inside : skip ≤ data.length) :
    loop hook data skip false p s = loop hook (data.drop skip) 0 false p s := by
  induction data generalizing skip with
  | nil =>
      obtain rfl : skip = 0 := by simpa using inside
      rfl
  | cons ch rest ih =>
      cases skip with
      | zero => rfl
      | succ skip => exact ih skip (by simpa using inside)

/-! ## One cut -/

theorem reset {p : Htparser} (fine : p.error = .none) : { p with error := .none } = p := by
  rw [← fine]

/-- Bodies are taken, piece by piece as well as at once. -/
structure Takes (hook : Htparser → Hook → σ → Bool × σ) (take : Bytes → σ → σ) : Prop where
  body : ∀ p b s, hook p (.body b) s = (false, take b s)
  append : ∀ b b' s, take (b ++ b') s = take b' (take b s)

variable {take : Bytes → σ → σ} {p : Htparser} {s : σ}

theorem minus_left {n : Nat} (le : n ≤ p.contentLen.toNat) :
    (p.minus n).contentLen.toNat = p.contentLen.toNat - n := by
  have small : n < 2 ^ 64 := le.trans_lt p.contentLen.toNat_lt
  have ofNat : (UInt64.ofNat n).toNat = n := UInt64.toNat_ofNat_of_lt' small
  have ordered : UInt64.ofNat n ≤ p.contentLen := by
    rw [UInt64.le_iff_toNat_le, ofNat]
    exact le
  show (p.contentLen - UInt64.ofNat n).toNat = _
  rw [UInt64.toNat_sub_of_le _ _ ordered, ofNat]

theorem minus_minus (m n : Nat) :
    (p.minus m).minus n = p.minus (m + n) := by
  have same : p.contentLen - UInt64.ofNat m - UInt64.ofNat n =
      p.contentLen - UInt64.ofNat (m + n) := by
    rw [UInt64.ofNat_add, sub_sub]
  simp only [Htparser.minus, same]

theorem minus_zero {n : Nat} (le : n ≤ p.contentLen.toNat) :
    (p.minus n).contentLen = 0 ↔ n = p.contentLen.toNat := by
  rw [← UInt64.toNat_inj, minus_left le]
  show p.contentLen.toNat - n = 0 ↔ _
  omega

def bodyEnd (hook : Htparser → Hook → σ → Bool × σ) (p : Htparser) (n : Nat) (s : σ) :
    Htparser × Bool × σ :=
  if n = p.contentLen.toNat then
    if p.state = .bodyRead then ((p.minus n).goto .start, hook (p.minus n) .onMsgComplete s)
    else ((p.minus n).goto .chunkDataAlmostDone, false, s)
  else (p.minus n, false, s)

theorem bodyEnd_minus {m n : Nat} (le : m + n ≤ p.contentLen.toNat) :
    bodyEnd hook (p.minus m) n s = bodyEnd hook p (m + n) s := by
  have left := minus_left (p := p) (n := m) (by omega)
  have whole : n = (p.minus m).contentLen.toNat ↔ m + n = p.contentLen.toNat := by omega
  simp only [bodyEnd, whole, minus_minus]
  rfl

theorem turn_body (takes : Takes hook take) (body : p.InBody) {first : Bool} {ch : UInt8}
    {rest : Bytes} (room : p.buf.length < PARSER_STACK_MAX) {n : Nat} (some : 0 < n)
    (toRead : p.toRead (ch :: rest) = n) :
    turn hook first p ch rest s =
      checked n (bodyEnd hook p n (take ((ch :: rest).take n) s)).2
        (bodyEnd hook p n (take ((ch :: rest).take n) s)).1 := by
  have le : n ≤ p.contentLen.toNat := toRead ▸ Nat.min_le_right _ _
  have hooked : bodyHook hook p (ch :: rest) s = (false, take ((ch :: rest).take n) s) := by
    rw [bodyHook, toRead, if_pos some, takes.body]
  have many : max n 1 = n := by omega
  have took : p.took (ch :: rest) = p.minus n := by rw [Htparser.took, toRead]
  unfold turn bodyEnd
  rw [if_neg (by omega)]
  obtain state | state := body
  · simp only [state, bodyReadTurn, took, hooked, toRead, many, minus_zero le, if_true]
    split <;> rfl
  · simp only [state, chunkDataTurn, took, hooked, toRead, many, reduceCtorEq, if_false]
    split
    · rfl
    · rw [← state]
      rfl

theorem turn_enough (body : p.InBody) (first : Bool) (ch : UInt8) (rest more : Bytes)
    (enough : p.contentLen.toNat ≤ (ch :: rest).length) :
    turn hook first p ch (rest ++ more) s = turn hook first p ch rest s := by
  have toRead : p.toRead (ch :: (rest ++ more)) = p.toRead (ch :: rest) := by
    simp only [Htparser.toRead, List.length_cons, List.length_append] at enough ⊢
    omega
  have le : p.toRead (ch :: rest) ≤ (ch :: rest).length := Nat.min_le_left _ _
  have taken : (ch :: (rest ++ more)).take (p.toRead (ch :: rest)) =
      (ch :: rest).take (p.toRead (ch :: rest)) := by
    rw [← List.cons_append, List.take_append_of_le_length le]
  unfold turn
  split
  · rfl
  · obtain state | state := body <;>
      simp only [state, bodyReadTurn, chunkDataTurn, bodyHook, Htparser.took, toRead, taken]; rfl

theorem again_free {p : Htparser} (again : p.Again) (data : Bytes) :
    ¬p.InBody ∧ ¬p.Blocked data := by
  obtain state | state := again <;> simp [Htparser.InBody, Htparser.Blocked, state]

theorem turnBack_first {ch : UInt8} {rest : Bytes} (fine : p.error = .none) (first : Bool)
    (free : ¬p.Blocked (ch :: rest)) :
    turnBack hook first p ch rest s = turnBack hook false p ch rest s := by
  unfold turnBack
  rw [turn_first first s free]
  split
  · rename_i p' s' turned
    have again := turn_fine hook fine false ch rest s
    rw [turned] at again
    exact turn_first first s' (again_free (again.2 rfl) _).2
  · rfl

variable (hook) in
theorem turnBack_more {ch : UInt8} {rest : Bytes} (fine : p.error = .none) (first : Bool)
    (more : Bytes) (enough : p.InBody → p.contentLen.toNat ≤ (ch :: rest).length) :
    turnBack hook first p ch (rest ++ more) s = turnBack hook first p ch rest s := by
  have same : turn hook first p ch (rest ++ more) s = turn hook first p ch rest s := by
    by_cases body : p.InBody
    · exact turn_enough body first ch rest more (enough body)
    · exact turn_rest body first ch _ _ s
  unfold turnBack
  rw [same]
  split
  · rename_i p' s' turned
    have again := turn_fine hook fine first ch rest s
    rw [turned] at again
    exact turn_rest (again_free (again.2 rfl) rest).1 first ch _ _ s'
  · rfl

variable (hook) in
theorem turnBack_fine (fine : p.error = .none) (first : Bool) (ch : UInt8) (rest : Bytes) (s : σ) :
    (turnBack hook first p ch rest s).Fine ∧ (turnBack hook first p ch rest s).Within rest.length := by
  unfold turnBack
  have once := turn_fine hook fine first ch rest s
  split
  · rename_i p' s' turned
    rw [turned] at once
    exact ⟨turn_fine hook once.1 first ch rest s', turn_within first p' ch rest s'⟩
  · exact ⟨once, turn_within first p ch rest s⟩

theorem loop_first (fine : p.error = .none) (first : Bool) (data : Bytes)
    (free : ¬p.Blocked data) : loop hook data 0 first p s = loop hook data 0 false p s := by
  cases data with
  | nil => rfl
  | cons ch rest => rw [loop, loop, turnBack_first fine first free]

theorem loop_body (takes : Takes hook take) (body : p.InBody) {first : Bool} {data : Bytes}
    (room : p.buf.length < PARSER_STACK_MAX) {n : Nat} (some : 0 < n) (toRead : p.toRead data = n) :
    let r := bodyEnd hook p n (take (data.take n) s)
    loop hook data 0 first p s =
      if r.2.1 then ⟨{ r.1 with error := .user }, r.2.2, true, data.length - n⟩
      else loop hook (data.drop n) 0 false r.1 r.2.2 := by
  cases data with
  | nil =>
      have none : p.toRead [] = 0 := Nat.zero_min _
      omega
  | cons ch rest =>
      have le : n ≤ (ch :: rest).length := toRead ▸ Nat.min_le_left _ _
      obtain ⟨m, rfl⟩ : ∃ m, n = m + 1 := ⟨n - 1, by omega⟩
      dsimp only
      rw [loop, turnBack, turn_body takes body room some toRead, checked, List.drop_succ_cons,
        ← loop_skip rest m _ _ (by simpa using le)]
      obtain ⟨p', failed, s'⟩ := bodyEnd hook p (m + 1) (take ((ch :: rest).take (m + 1)) s)
      cases failed <;> simp

theorem loop_full (full : PARSER_STACK_MAX ≤ p.buf.length) (first : Bool) (ch : UInt8)
    (rest : Bytes) : (loop hook (ch :: rest) 0 first p s).stopped = true := by
  simp [loop, turnBack, turn, full, fail]

theorem loop_part (takes : Takes hook take) (body : p.InBody) (fine : p.error = .none)
    (room : p.buf.length < PARSER_STACK_MAX) {data : Bytes} (some : data ≠ []) (more : Bytes)
    (first : Bool) (part : data.length < p.contentLen.toNat) :
    loop hook data 0 first p s = ⟨p.minus data.length, take data s, false, 0⟩ ∧
      htparserRun hook (p.minus data.length) more (take data s) =
        loop hook (data ++ more) 0 first p s := by
  have pos : 0 < data.length := List.length_pos_iff.mpr some
  have toRead : p.toRead data = data.length := Nat.min_eq_left part.le
  have once : loop hook data 0 first p s = ⟨p.minus data.length, take data s, false, 0⟩ := by
    rw [loop_body takes body room pos toRead, bodyEnd, if_neg part.ne, List.take_length,
      List.drop_length]
    rfl
  refine ⟨once, ?_⟩
  have same : { p.minus data.length with error := .none } = p.minus data.length := by
    rw [← fine]
    rfl
  rw [htparserRun, same]
  cases more with
  | nil =>
      rw [List.append_nil, once]
      rfl
  | cons ch rest =>
      have left := minus_left (p := p) part.le
      have next : 0 < (p.minus data.length).toRead (ch :: rest) := by
        simp only [Htparser.toRead, left, List.length_cons]
        omega
      have both : p.toRead (data ++ ch :: rest) =
          data.length + (p.minus data.length).toRead (ch :: rest) := by
        simp only [Htparser.toRead, left, List.length_append]
        omega
      have le : data.length + (p.minus data.length).toRead (ch :: rest) ≤ p.contentLen.toNat :=
        both ▸ Nat.min_le_right _ _
      have taken (n : Nat) : take ((data ++ ch :: rest).take (data.length + n)) s =
          take ((ch :: rest).take n) (take data s) := by
        rw [List.take_length_add_append, takes.append]
      rw [loop_body (p := p.minus data.length) takes body room next rfl,
        loop_body takes body room (by omega) both]
      dsimp only
      rw [bodyEnd_minus le, taken, List.drop_length_add_append, List.length_append,
        Nat.add_sub_add_left]

/-- What was read is gone through, and the rest goes on as if it had come with it. -/
theorem loop_join (takes : Takes hook take) (data more : Bytes) (skip : Nat) (first : Bool)
    (p : Htparser) (s : σ) (fine : p.error = .none) (inside : skip ≤ data.length)
    (through : (loop hook data skip first p s).stopped = false)
    (free : ¬(loop hook data skip first p s).parser.Blocked more) :
    (loop hook data skip first p s).parser.error = .none ∧
      htparserRun hook (loop hook data skip first p s).parser more
        (loop hook data skip first p s).state = loop hook (data ++ more) skip first p s := by
  induction data generalizing skip first p s with
  | nil =>
      obtain rfl : skip = 0 := by simpa using inside
      refine ⟨fine, ?_⟩
      show loop hook more 0 true { p with error := .none } s = loop hook more 0 first p s
      rw [reset fine, loop_first fine true more free, loop_first fine first more free]
  | cons ch rest ih =>
      cases skip with
      | succ skip => exact ih skip false p s fine (by simpa using inside) through free
      | zero =>
          by_cases part : p.InBody ∧ (ch :: rest).length < p.contentLen.toNat
          · have room : p.buf.length < PARSER_STACK_MAX := by
              by_contra full
              rw [loop_full (Nat.le_of_not_lt full)] at through
              cases through
            obtain ⟨once, both⟩ := loop_part (s := s) takes part.1 fine room
              (List.cons_ne_nil ch rest) more first part.2
            rw [once]
            exact ⟨fine, both⟩
          · have same := turnBack_more hook (s := s) fine first more
              fun body => Nat.le_of_not_lt fun less => part ⟨body, less⟩
            have kept := turnBack_fine hook fine first ch rest s
            cases turned : turnBack hook first p ch rest s with
            | stops n p' s' =>
                rw [loop, turned] at through
                cases through
            | goes n p' s' =>
                rw [turned] at kept
                have inside : n ≤ rest.length + 1 := kept.2
                have once : loop hook (ch :: rest) 0 first p s = loop hook rest (n - 1) false p' s' := by
                  rw [loop, turned]
                have both : loop hook (ch :: rest ++ more) 0 first p s =
                    loop hook (rest ++ more) (n - 1) false p' s' := by
                  rw [List.cons_append, loop, same, turned]
                rw [once] at free through ⊢
                rw [both]
                exact ih (n - 1) false p' s' kept.1.1 (by omega) through free

theorem loop_through (takes : Takes hook take) (data more : Bytes) (skip : Nat) (first : Bool)
    (p : Htparser) (s : σ) (fine : p.error = .none) (inside : skip ≤ data.length)
    (whole : (loop hook (data ++ more) skip first p s).stopped = false) :
    (loop hook data skip first p s).stopped = false := by
  induction data generalizing skip first p s with
  | nil => rfl
  | cons ch rest ih =>
      cases skip with
      | succ skip => exact ih skip false p s fine (by simpa using inside) whole
      | zero =>
          by_cases part : p.InBody ∧ (ch :: rest).length < p.contentLen.toNat
          · have room : p.buf.length < PARSER_STACK_MAX := by
              by_contra full
              rw [List.cons_append, loop_full (Nat.le_of_not_lt full)] at whole
              cases whole
            rw [(loop_part takes part.1 fine room (List.cons_ne_nil ch rest) more first part.2).1]
          · have same := turnBack_more hook (s := s) fine first more
              fun body => Nat.le_of_not_lt fun less => part ⟨body, less⟩
            have kept := turnBack_fine hook fine first ch rest s
            rw [List.cons_append, loop, same] at whole
            rw [loop]
            cases turned : turnBack hook first p ch rest s with
            | stops n p' s' => simp only [turned, reduceCtorEq] at whole
            | goes n p' s' =>
                rw [turned] at kept whole
                have inside : n ≤ rest.length + 1 := kept.2
                exact ih (n - 1) false p' s' kept.1.1 (by omega) whole

/-! ## All cuts -/

def reads (hook : Htparser → Hook → σ → Bool × σ) : List Bytes → Htparser → σ → Run σ
  | [], p, s => ⟨p, s, false, 0⟩
  | data :: rest, p, s =>
      let r := htparserRun hook p data s
      if r.stopped then r else reads hook rest r.parser r.state

/-- No read begins with the blank behind a host. -/
def Unblocked (hook : Htparser → Hook → σ → Bool × σ) : List Bytes → Htparser → σ → Prop
  | [], _, _ => True
  | data :: rest, p, s =>
      let r := htparserRun hook p data s
      ¬r.parser.Blocked rest.flatten ∧ Unblocked hook rest r.parser r.state

theorem reads_whole (takes : Takes hook take) (data : List Bytes) (fine : p.error = .none)
    (whole : (htparserRun hook p data.flatten s).stopped = false)
    (free : Unblocked hook data p s) : reads hook data p s = htparserRun hook p data.flatten s := by
  induction data generalizing p s with
  | nil =>
      show Run.mk p s false 0 = loop hook [] 0 true { p with error := .none } s
      rw [reset fine]
      rfl
  | cons data rest ih =>
      obtain ⟨here, there⟩ := free
      rw [List.flatten_cons] at whole ⊢
      unfold htparserRun at whole here there
      rw [reset fine] at whole here there
      have through := loop_through takes data rest.flatten 0 true p s fine (Nat.zero_le _) whole
      obtain ⟨fine', same⟩ :=
        loop_join takes data rest.flatten 0 true p s fine (Nat.zero_le _) through here
      have run : htparserRun hook p (data ++ rest.flatten) s =
          loop hook (data ++ rest.flatten) 0 true p s := by rw [htparserRun, reset fine]
      have first : htparserRun hook p data s = loop hook data 0 true p s := by
        rw [htparserRun, reset fine]
      rw [reads, run, first, ← same, if_neg (by rw [through]; exact Bool.false_ne_true)]
      exact ih fine' (by rw [same]; exact whole) there

/-! ## Bytes one by one -/

def feed (hook : Htparser → Hook → σ → Bool × σ) (x : Htparser × σ) (ch : UInt8) :
    Option (Htparser × σ) :=
  let r := htparserRun hook x.1 [ch] x.2
  if r.stopped then none else some (r.parser, r.state)

def feeds (hook : Htparser → Hook → σ → Bool × σ) (x : Htparser × σ) (data : Bytes) :
    Option (Htparser × σ) := data.foldlM (feed hook) x

theorem feeds_append (x : Htparser × σ) (data more : Bytes) :
    feeds hook x (data ++ more) = (feeds hook x data).bind fun y => feeds hook y more :=
  List.foldlM_append

theorem feeds_cons (x : Htparser × σ) (ch : UInt8) (data : Bytes) :
    feeds hook x (ch :: data) = (feed hook x ch).bind fun y => feeds hook y data :=
  List.foldlM_cons

theorem feed_blocked (blocked : p.Blocked [space]) : feed hook (p, s) space = none := by
  have stops : ∃ n q s', turn hook true { p with error := .none } space [] s = .stops n q s' := by
    unfold turn
    split
    · exact ⟨_, _, _, rfl⟩
    · obtain ⟨state | state | state, -⟩ := blocked <;> simp only [state]
      · unfold hostTurn
        rw [if_neg (by decide), if_neg (by decide)]
        dsimp only
        split
        · exact ⟨_, _, _, rfl⟩
        · exact ⟨_, _, _, rfl⟩
      · exact ⟨_, _, _, rfl⟩
      · exact ⟨_, _, _, rfl⟩
  obtain ⟨n, q, s', stops⟩ := stops
  simp [feed, htparserRun, loop, turnBack, stops]

theorem feeds_run (takes : Takes hook take) (data : Bytes) {p' : Htparser} {s' : σ}
    (fine : p.error = .none) (fed : feeds hook (p, s) data = some (p', s')) :
    htparserRun hook p data s = ⟨p', s', false, 0⟩ ∧ p'.error = .none := by
  induction data generalizing p s with
  | nil =>
      obtain ⟨rfl, rfl⟩ : p = p' ∧ s = s' := by simpa [feeds] using fed
      exact ⟨by rw [htparserRun, reset fine, loop], fine⟩
  | cons ch rest ih =>
      rw [feeds_cons, Option.bind_eq_some_iff] at fed
      obtain ⟨⟨p₁, s₁⟩, one, fed⟩ := fed
      have run : htparserRun hook p [ch] s = loop hook [ch] 0 true p s := by
        rw [htparserRun, reset fine]
      simp only [feed, run] at one
      split at one
      · cases one
      · rename_i through
        obtain ⟨rfl, rfl⟩ : _ = p₁ ∧ _ = s₁ := by simpa using one
        have free : ¬(loop hook [ch] 0 true p s).parser.Blocked rest := by
          rintro ⟨host, blank⟩
          obtain ⟨rest', rfl⟩ : ∃ rest', rest = space :: rest' := by
            simpa [List.head?_eq_some_iff] using blank
          rw [feeds_cons, feed_blocked ⟨host, rfl⟩] at fed
          cases fed
        obtain ⟨fine', same⟩ := loop_join takes [ch] rest 0 true p s fine (Nat.zero_le _)
          (by simpa using through) free
        have joined : htparserRun hook p (ch :: rest) s = loop hook ([ch] ++ rest) 0 true p s := by
          rw [htparserRun, reset fine]
          rfl
        rw [joined, ← same]
        exact ih fine' fed

end Ximg.Htparse
