import Ximg.Xparser
import Mathlib.Data.List.Infix

/-!
# The parser stays in its buffers

Whatever the callbacks answer, the parser ends, reads the buffer and the boundary inside their
bounds, and passes on ranges of the buffer in order. The range of a part is followed by the
delimiter.
-/

namespace Ximg
open Text Calls

def delimiter (P : Bytes) : Bytes := cr :: lf :: P

/-- A run over a buffer, with callbacks that answer in a given way. The state is the list of the
calls so far. -/
def parsing (P buf : Bytes) (replies : Int32 → Prop) :
    Machine Multipart (List (Event Multipart)) where
  Legal _ op r := match op, r with
    | .buf i, c => ∀ b, buf[i]? = some b → c = b
    | .boundary i, c => ∀ b, P[i]? = some b → c = b
    | .notify _, r | .emit _ _ _, r => replies r
  effect log op r := log ++ [⟨op, r⟩]

section Bounds
variable (P buf : Bytes) {replies : Int32 → Prop}

def FineEnd (last : Nat) : DataCb → Prop
  | .headerField => True
  | .headerValue => last < buf.length → buf[last]? = some cr
  | .chunkData => delimiter P <+: buf.drop last ∧ last + P.length + 3 < buf.length

def Fine (e : Event Multipart) : Prop :=
  match e.1 with
  | .buf i => i < buf.length
  | .boundary i => i < P.length
  | .notify _ => True
  | .emit cb first last => first ≤ last ∧ last ≤ buf.length ∧ FineEnd P buf last cb

def Before (e e' : Event Multipart) : Prop :=
  match e.1, e'.1 with
  | .emit _ _ last, .buf i => last ≤ i
  | .emit _ _ last, .emit .chunkData first _ => last ≤ first
  | .emit _ _ last, .emit .headerValue first last' => last ≤ first ∨ last' = buf.length
  | _, _ => True

structure Logged (log : List (Event Multipart)) (front : Nat) : Prop where
  fine : ∀ e ∈ log, Fine P buf e
  ordered : log.Pairwise (Before buf)
  passed : ∀ cb first last r, (⟨.emit cb first last, r⟩ : Event Multipart) ∈ log → last ≤ front

variable {P buf} {log : List (Event Multipart)} {front : Nat}

theorem Logged.nil (front : Nat) : Logged P buf [] front :=
  ⟨by simp, .nil, by simp⟩

theorem Logged.append (logged : Logged P buf log front) {e : Event Multipart} {front' : Nat}
    (le : front ≤ front') (fine : Fine P buf e) (before : ∀ e' ∈ log, Before buf e' e)
    (passed : ∀ cb first last r, e = ⟨.emit cb first last, r⟩ → last ≤ front') :
    Logged P buf (log ++ [e]) front' := by
  constructor
  · intro e' member
    rcases List.mem_append.mp member with member | member
    · exact logged.fine e' member
    · rw [List.mem_singleton.mp member]
      exact fine
  · rw [List.pairwise_append]
    refine ⟨logged.ordered, List.pairwise_singleton _ _, ?_⟩
    intro e' member e'' single
    rw [List.mem_singleton.mp single]
    exact before e' member
  · intro cb first last r member
    rcases List.mem_append.mp member with member | member
    · exact (logged.passed cb first last r member).trans le
    · exact passed cb first last r (List.mem_singleton.mp member).symm

theorem Logged.read (logged : Logged P buf log front) {i : Nat} (behind : front ≤ i)
    (inside : i < buf.length) (c : UInt8) : Logged P buf (log ++ [⟨.buf i, c⟩]) front := by
  apply logged.append le_rfl
  · exact inside
  · rintro ⟨op, r⟩ member
    cases op with
    | emit cb first last => exact (logged.passed cb first last r member).trans behind
    | buf _ | boundary _ | notify _ => trivial
  · intro cb first last r same
    cases same

theorem Logged.compare (logged : Logged P buf log front) {i : Nat} (inside : i < P.length)
    (c : UInt8) : Logged P buf (log ++ [⟨.boundary i, c⟩]) front := by
  apply logged.append le_rfl
  · exact inside
  · rintro ⟨op, r⟩ -
    cases op <;> trivial
  · intro cb first last r same
    cases same

theorem Logged.notify (logged : Logged P buf log front) (cb : NotifyCb) (r : Int32) :
    Logged P buf (log ++ [⟨.notify cb, r⟩]) front := by
  apply logged.append le_rfl
  · trivial
  · rintro ⟨op, r⟩ -
    cases op <;> trivial
  · intro cb first last r same
    cases same

theorem Logged.emit (logged : Logged P buf log front) {cb : DataCb} {first last : Nat}
    (behind : front ≤ first) (sorted : first ≤ last) (inside : last ≤ buf.length)
    (fine : FineEnd P buf last cb) (r : Int32) :
    Logged P buf (log ++ [⟨.emit cb first last, r⟩]) last := by
  apply logged.append (behind.trans sorted)
  · exact ⟨sorted, inside, fine⟩
  · rintro ⟨op, r⟩ member
    cases op with
    | emit cb' first' last' =>
        have le := (logged.passed cb' first' last' r member).trans behind
        cases cb with
        | headerField => trivial
        | headerValue => exact .inl le
        | chunkData => exact le
    | buf _ | boundary _ | notify _ => trivial
  · rintro _ _ _ _ ⟨⟩
    exact le_rfl

/-- A value that the end of the buffer cuts off may be passed on a second time. -/
theorem Logged.emitAgain (logged : Logged P buf log front) {first : Nat}
    (inside : first ≤ buf.length) (bounded : front ≤ buf.length) (r : Int32) :
    Logged P buf (log ++ [⟨.emit .headerValue first buf.length, r⟩]) buf.length := by
  apply logged.append bounded
  · exact ⟨inside, le_rfl, fun less => absurd less (lt_irrefl _)⟩
  · rintro ⟨op, r⟩ member
    cases op with
    | emit cb' first' last' => exact .inr rfl
    | buf _ | boundary _ | notify _ => trivial
  · rintro _ _ _ _ ⟨⟩
    exact le_rfl

/-! ## What holds between two turns -/

variable (P buf)

def Matched (p : MultipartLoop) (k : Nat) : Prop :=
  p.dmark ≤ p.dbmark ∧ p.i = p.dbmark + k ∧ (delimiter P).take k <+: buf.drop p.dbmark

def Stage (p : MultipartLoop) : Prop :=
  match p.xState with
  | .startBoundary => p.index ≤ P.length + 1
  | .headerField | .headerValue => p.mark ≤ p.i
  | .partData => p.dmark ≤ p.i
  | .partDataAlmostBoundary => Matched P buf p 1
  | .partDataBoundary => p.index < P.length ∧ Matched P buf p (p.index + 2)
  | .partDataAlmostEnd => Matched P buf p (P.length + 2)
  | .partDataEnd | .partDataFinalHyphen => Matched P buf p (P.length + 3)
  | _ => True

def frontier (p : MultipartLoop) : Nat :=
  match p.xState with
  | .headerField | .headerValue => p.mark
  | .partData | .partDataAlmostBoundary | .partDataBoundary | .partDataAlmostEnd | .partDataEnd
  | .partDataFinalHyphen => p.dmark
  | _ => p.i

structure ParserInv (p : MultipartLoop) (log : List (Event Multipart)) : Prop where
  bound : p.i ≤ buf.length
  logged : ∃ front, Logged P buf log front ∧
    (p.i < buf.length → front ≤ frontier p ∧ Stage P buf p)

def stay (p : MultipartLoop) : Nat :=
  match p.xState with
  | .partDataAlmostBoundary | .partDataBoundary => 1
  | _ => 0

def turnsLeft (len : Nat) (p : MultipartLoop) : Nat := 2 * (len - p.i) + stay p

/-- What a turn leaves behind: fewer turns to come, or a result. -/
def TurnPost (bound : Nat) (t : Turn) (log : List (Event Multipart)) : Prop :=
  match t with
  | .next p => ParserInv P buf p log ∧ turnsLeft buf.length p < bound
  | .returned n => n ≤ buf.length ∧ ∃ front, Logged P buf log front

variable {P buf}

/-! ## One turn -/

theorem frontier_le {p : MultipartLoop} (stage : Stage P buf p) : frontier p ≤ p.i := by
  unfold frontier
  unfold Stage Matched at stage
  cases state : p.xState <;> simp only [state] at stage ⊢ <;> omega

theorem stay_le (p : MultipartLoop) : stay p ≤ 1 := by
  unfold stay
  split <;> omega

section Turns
variable {p : MultipartLoop} {c : UInt8} {bound : Nat}

theorem wp_stop (inside : p.i < buf.length) (logged : Logged P buf log front) :
    (parsing P buf replies).wp (stop p) (TurnPost P buf bound) log :=
  ⟨inside.le, front, logged⟩

theorem wp_advance (inside : p.i < buf.length) (enough : 2 * (buf.length - p.i) ≤ bound)
    (logged : Logged P buf log front)
    (after : p.i + 1 < buf.length → front ≤ frontier { p with i := p.i + 1 } ∧
      Stage P buf { p with i := p.i + 1 }) :
    (parsing P buf replies).wp (advance p) (TurnPost P buf bound) log := by
  refine ⟨⟨inside, front, logged, after⟩, ?_⟩
  have le := stay_le { p with i := p.i + 1 }
  simp only [turnsLeft]
  omega

theorem wp_again (inside : p.i < buf.length) (enough : 2 * (buf.length - p.i) < bound)
    (logged : Logged P buf log front) (behind : front ≤ p.dmark) (le : p.dmark ≤ p.i) :
    (parsing P buf replies).wp (again p) (TurnPost P buf bound) log := by
  refine ⟨⟨inside.le, front, logged, fun _ => ⟨behind, le⟩⟩, ?_⟩
  simpa [turnsLeft, stay] using enough

theorem wp_notify {cb : NotifyCb} {k : Prog Multipart Turn} (inside : p.i < buf.length)
    (logged : Logged P buf log front)
    (next : ∀ r, (parsing P buf replies).wp k (TurnPost P buf bound)
      (log ++ [⟨.notify cb, r⟩])) :
    (parsing P buf replies).wp (xNotifyCb p cb k) (TurnPost P buf bound) log := by
  intro r _
  show (parsing P buf replies).wp (if r ≠ 0 then stop p else k) _ _
  split
  · exact wp_stop inside (logged.notify cb r)
  · exact next r

theorem wp_emit {cb : DataCb} {first last : Nat} {k : Prog Multipart Turn}
    (inside : p.i < buf.length) (logged : Logged P buf log front) (behind : front ≤ first)
    (sorted : first ≤ last) (ends : last ≤ buf.length) (fine : FineEnd P buf last cb)
    (next : ∀ r, (parsing P buf replies).wp k (TurnPost P buf bound)
      (log ++ [⟨.emit cb first last, r⟩])) :
    (parsing P buf replies).wp (xEmitDataCb p cb first last k) (TurnPost P buf bound) log := by
  intro r _
  show (parsing P buf replies).wp (if r ≠ 0 then stop p else k) _ _
  split
  · exact wp_stop inside (logged.emit behind sorted ends fine r)
  · exact next r

/-! ### The boundary -/

theorem Matched.snoc {k : Nat} (matched : Matched P buf p k) (here : buf[p.i]? = some c)
    (next : (delimiter P)[k]? = some c) : Matched P buf { p with i := p.i + 1 } (k + 1) := by
  obtain ⟨le, at_, rest, cut⟩ := matched
  refine ⟨le, by simp [at_, Nat.add_assoc], rest.drop 1, ?_⟩
  obtain ⟨short, -⟩ := List.getElem?_eq_some_iff.mp next
  have length : ((delimiter P).take k).length = k := by
    rw [List.length_take]
    omega
  have head : rest[0]? = some c := by
    have found : (buf.drop p.dbmark)[k]? = some c := by rw [List.getElem?_drop, ← at_, here]
    rwa [← cut, List.getElem?_append_right (by omega), length, Nat.sub_self] at found
  cases rest with
  | nil => cases head
  | cons d rest =>
      cases head
      rw [List.take_add_one, next, ← cut]
      simp

theorem Matched.whole {k : Nat} (matched : Matched P buf p k) (full : P.length + 2 ≤ k) :
    delimiter P <+: buf.drop p.dbmark := by
  have all := matched.2.2
  rwa [List.take_of_length_le (by simp only [delimiter, List.length_cons]; omega)] at all

theorem startBoundary_wp (inside : p.i < buf.length) (enough : 2 * (buf.length - p.i) ≤ bound)
    (logged : Logged P buf log front) (behind : front ≤ p.i) (le : p.index ≤ P.length + 1)
    (starting : p.xState = .startBoundary) :
    (parsing P buf replies).wp (startBoundary P.length p c) (TurnPost P buf bound) log := by
  unfold startBoundary
  split
  · rename_i at_
    split
    · exact wp_stop inside logged
    · refine wp_advance inside enough logged ?_
      intro _
      simp only [frontier, Stage, starting]
      omega
  · rename_i before
    split
    · split
      · exact wp_stop inside logged
      · refine wp_notify inside logged ?_
        intro r
        refine wp_advance inside enough (logged.notify _ r) ?_
        intro _
        exact ⟨behind.trans (Nat.le_succ _), trivial⟩
    · have short : p.index < P.length := by omega
      intro b _
      have logged := logged.compare short b
      show (parsing P buf replies).wp
        (if c ≠ b then stop p else advance { p with index := p.index + 1 }) _ _
      split
      · exact wp_stop inside logged
      · refine wp_advance inside enough logged ?_
        intro _
        simp only [frontier, Stage, starting]
        omega

/-! ### Headers -/

theorem headerField_wp {isLast : Bool} (inside : p.i < buf.length)
    (enough : 2 * (buf.length - p.i) ≤ bound) (logged : Logged P buf log front)
    (behind : front ≤ p.mark) (le : p.mark ≤ p.i) (field : p.xState = .headerField)
    (last : isLast = true ↔ p.i = buf.length - 1) :
    (parsing P buf replies).wp (headerField p c isLast) (TurnPost P buf bound) log := by
  have onward : p.i + 1 < buf.length →
      front ≤ frontier { p with i := p.i + 1 } ∧ Stage P buf { p with i := p.i + 1 } := by
    intro _
    simp only [frontier, Stage, field]
    omega
  unfold headerField
  split
  · refine wp_advance inside enough logged ?_
    intro _
    exact ⟨(behind.trans le).trans (Nat.le_succ _), trivial⟩
  split
  · exact wp_advance inside enough logged onward
  split
  · have fine : FineEnd P buf p.i .headerField := trivial
    refine wp_emit inside logged behind le inside.le fine ?_
    intro r
    refine wp_advance inside enough (logged.emit behind le inside.le fine r) ?_
    intro _
    exact ⟨Nat.le_succ _, trivial⟩
  split
  · exact wp_stop inside logged
  split
  · rename_i isLast
    have full : p.i + 1 = buf.length := by
      have := last.mp isLast
      omega
    have fine : FineEnd P buf (p.i + 1) .headerField := trivial
    refine wp_emit inside logged behind (by omega) inside fine ?_
    intro r
    refine wp_advance inside enough (logged.emit behind (by omega) inside fine r) ?_
    intro less
    omega
  · exact wp_advance inside enough logged onward

theorem headerValue_wp {isLast : Bool} (inside : p.i < buf.length)
    (here : buf[p.i]? = some c) (enough : 2 * (buf.length - p.i) ≤ bound)
    (logged : Logged P buf log front) (behind : front ≤ p.mark) (le : p.mark ≤ p.i)
    (value : p.xState = .headerValue) (last : isLast = true ↔ p.i = buf.length - 1) :
    (parsing P buf replies).wp (headerValue p c isLast) (TurnPost P buf bound) log := by
  have full (isLast : isLast = true) : p.i + 1 = buf.length := by
    have := last.mp isLast
    omega
  unfold headerValue
  split
  · rename_i isCr
    have fine : FineEnd P buf p.i .headerValue := fun _ => by rw [here, isCr]
    refine wp_emit inside logged behind le inside.le fine ?_
    intro r
    have logged := logged.emit behind le inside.le fine r
    unfold headerValueLast
    split
    · rename_i isLast
      intro r' _
      have twice := logged.emitAgain (le.trans inside.le) inside.le r'
      rw [← full isLast] at twice
      show (parsing P buf replies).wp (if r' ≠ 0 then stop _ else advance _) _ _
      split
      · exact wp_stop inside twice
      · refine wp_advance inside enough twice ?_
        intro less
        have := full isLast
        change p.i + 1 < buf.length at less
        omega
    · refine wp_advance inside enough logged ?_
      intro _
      exact ⟨Nat.le_succ _, trivial⟩
  · unfold headerValueLast
    split
    · rename_i isLast
      have fine : FineEnd P buf (p.i + 1) .headerValue := fun less => by
        have := full isLast
        omega
      refine wp_emit inside logged behind (by omega) inside fine ?_
      intro r
      refine wp_advance inside enough (logged.emit behind (by omega) inside fine r) ?_
      intro less
      have := full isLast
      omega
    · refine wp_advance inside enough logged ?_
      intro _
      simp only [frontier, Stage, value]
      omega

/-! ### The data of a part -/

theorem partData_wp (inside : p.i < buf.length) (here : buf[p.i]? = some c)
    (enough : 2 * (buf.length - p.i) ≤ bound) (logged : Logged P buf log front)
    (behind : front ≤ p.dmark) (le : p.dmark ≤ p.i) (data : p.xState = .partData) :
    (parsing P buf replies).wp (partData p c) (TurnPost P buf bound) log := by
  unfold partData
  split
  · rename_i isCr
    refine wp_advance inside enough logged ?_
    intro _
    refine ⟨behind, ?_⟩
    have start : Matched P buf { p with mark := p.i, dbmark := p.i } 0 :=
      ⟨le, rfl, by simp⟩
    exact start.snoc here (by rw [isCr]; rfl)
  · refine wp_advance inside enough logged ?_
    intro _
    simp only [frontier, Stage, data]
    omega

theorem almostBoundary_wp (inside : p.i < buf.length) (here : buf[p.i]? = some c)
    (enough : 2 * (buf.length - p.i) < bound) (logged : Logged P buf log front)
    (behind : front ≤ p.dmark) (matched : Matched P buf p 1) (nonempty : P ≠ []) :
    (parsing P buf replies).wp
      (if c = lf then advance { p with xState := .partDataBoundary, index := 0 } else again p)
      (TurnPost P buf bound) log := by
  split
  · rename_i isLf
    refine wp_advance inside enough.le logged ?_
    intro _
    refine ⟨behind, List.length_pos_iff.mpr nonempty, ?_⟩
    exact matched.snoc here (by rw [isLf]; rfl)
  · obtain ⟨le, at_, -⟩ := matched
    exact wp_again inside enough logged behind (by omega)

theorem partDataBoundary_wp (inside : p.i < buf.length) (here : buf[p.i]? = some c)
    (enough : 2 * (buf.length - p.i) < bound) (logged : Logged P buf log front)
    (behind : front ≤ p.dmark) (short : p.index < P.length)
    (matched : Matched P buf p (p.index + 2)) (comparing : p.xState = .partDataBoundary) :
    (parsing P buf replies).wp (partDataBoundary P.length p c) (TurnPost P buf bound) log := by
  intro b same
  have logged := logged.compare short b
  show (parsing P buf replies).wp
    (if b ≠ c then again p
     else if p.index + 1 = P.length then
      xNotifyCb p .partDataEnd
        (advance { p with index := p.index + 1, xState := .partDataAlmostEnd })
    else advance { p with index := p.index + 1 }) _ _
  obtain ⟨le, at_, -⟩ := id matched
  have equal (eq : ¬b ≠ c) : (delimiter P)[p.index + 2]? = some c := by
    have found : P[p.index]? = some P[p.index] := List.getElem?_eq_getElem short
    rw [not_not] at eq
    show P[p.index]? = some c
    rw [found, ← same _ found, eq]
  split
  · exact wp_again inside enough logged behind (by omega)
  rename_i eq
  have longer := matched.snoc here (equal eq)
  split
  · rename_i full
    refine wp_notify inside logged ?_
    intro r
    refine wp_advance inside enough.le (logged.notify _ r) ?_
    intro _
    refine ⟨behind, ?_⟩
    rw [show p.index + 2 + 1 = P.length + 2 by omega] at longer
    exact longer
  · refine wp_advance inside enough.le logged ?_
    intro _
    simp only [frontier, Stage, comparing]
    refine ⟨behind, by omega, ?_⟩
    rw [show p.index + 1 + 2 = p.index + 2 + 1 by omega]
    exact longer

theorem Matched.chunk (matched : Matched P buf p (P.length + 3)) (inside : p.i < buf.length) :
    p.dbmark ≤ buf.length ∧ FineEnd P buf p.dbmark .chunkData := by
  obtain ⟨le, at_, -⟩ := id matched
  exact ⟨by omega, matched.whole (by omega), by omega⟩

theorem partDataEnd_wp (inside : p.i < buf.length) (enough : 2 * (buf.length - p.i) ≤ bound)
    (logged : Logged P buf log front) (behind : front ≤ p.dmark)
    (matched : Matched P buf p (P.length + 3)) :
    (parsing P buf replies).wp (partDataEnd p c) (TurnPost P buf bound) log := by
  obtain ⟨ends, fine⟩ := matched.chunk inside
  obtain ⟨le, at_, -⟩ := matched
  unfold partDataEnd
  split
  · refine wp_emit inside logged behind le ends fine ?_
    intro r
    have logged := logged.emit behind le ends fine r
    refine wp_notify inside logged ?_
    intro r'
    refine wp_advance inside enough (logged.notify _ r') ?_
    intro _
    refine ⟨?_, trivial⟩
    show p.dbmark ≤ p.i + 1
    omega
  · exact wp_stop inside logged

theorem partDataFinalHyphen_wp (inside : p.i < buf.length)
    (enough : 2 * (buf.length - p.i) ≤ bound) (logged : Logged P buf log front)
    (behind : front ≤ p.dmark) (matched : Matched P buf p (P.length + 3)) :
    (parsing P buf replies).wp (partDataFinalHyphen p c) (TurnPost P buf bound) log := by
  obtain ⟨ends, fine⟩ := matched.chunk inside
  obtain ⟨le, at_, -⟩ := matched
  refine wp_emit inside logged behind le ends fine ?_
  intro r
  have logged := logged.emit behind le ends fine r
  split
  · refine wp_notify inside logged ?_
    intro r'
    refine wp_advance inside enough (logged.notify _ r') ?_
    intro _
    refine ⟨?_, trivial⟩
    show p.dbmark ≤ p.i + 1
    omega
  · exact wp_stop inside logged

theorem multipartTurn_wp (nonempty : P ≠ []) (inv : ParserInv P buf p log)
    (inside : p.i < buf.length) :
    (parsing P buf replies).wp (multipartTurn P.length buf.length p)
      (TurnPost P buf (turnsLeft buf.length p)) log := by
  obtain ⟨-, front, logged, more⟩ := inv
  obtain ⟨behind, stage⟩ := more inside
  intro c same
  have here : buf[p.i]? = some c := by
    have found : buf[p.i]? = some buf[p.i] := List.getElem?_eq_getElem inside
    rw [found, same _ found]
  have last : decide (p.i = buf.length - 1) = true ↔ p.i = buf.length - 1 := decide_eq_true_iff
  have enough : 2 * (buf.length - p.i) ≤ turnsLeft buf.length p := Nat.le_add_right _ _
  have behind' : front ≤ p.i := behind.trans (frontier_le stage)
  have logged := logged.read behind' inside c
  show (parsing P buf replies).wp (multipartSwitch P.length p c (p.i = buf.length - 1)) _ _
  unfold multipartSwitch
  cases state : p.xState with
  | uninitialized => exact ⟨Nat.zero_le _, front, logged⟩
  | start => exact startBoundary_wp inside enough logged behind' (Nat.zero_le _) rfl
  | startBoundary =>
      simp only [Stage, state] at stage
      exact startBoundary_wp inside enough logged behind' stage state
  | headerFieldStart => exact headerField_wp inside enough logged behind' le_rfl rfl last
  | headerField =>
      simp only [frontier, Stage, state] at behind stage
      exact headerField_wp inside enough logged behind stage state last
  | headersAlmostDone =>
      dsimp only
      split
      · exact wp_stop inside logged
      · exact wp_advance inside enough logged fun _ => ⟨behind'.trans (Nat.le_succ _), trivial⟩
  | headerValueStart =>
      dsimp only
      split
      · refine wp_advance inside enough logged ?_
        intro _
        simp only [frontier, Stage, state, and_true]
        omega
      · exact headerValue_wp inside here enough logged behind' le_rfl rfl last
  | headerValue =>
      simp only [frontier, Stage, state] at behind stage
      exact headerValue_wp inside here enough logged behind stage state last
  | headerValueAlmostDone =>
      dsimp only
      split
      · exact wp_stop inside logged
      · exact wp_advance inside enough logged fun _ => ⟨behind'.trans (Nat.le_succ _), trivial⟩
  | partDataStart =>
      refine wp_notify inside logged ?_
      intro r
      exact partData_wp inside here enough (logged.notify _ r) behind' le_rfl rfl
  | partData =>
      simp only [frontier, Stage, state] at behind stage
      exact partData_wp inside here enough logged behind stage state
  | partDataAlmostBoundary =>
      simp only [frontier, Stage, state] at behind stage
      exact almostBoundary_wp inside here (by simp [turnsLeft, stay, state]) logged behind stage
        nonempty
  | partDataBoundary =>
      simp only [frontier, Stage, state] at behind stage
      exact partDataBoundary_wp inside here (by simp [turnsLeft, stay, state]) logged behind
        stage.1 stage.2 state
  | partDataAlmostEnd =>
      simp only [frontier, Stage, state] at behind stage
      obtain ⟨le, at_, -⟩ := id stage
      have ended : Matched P buf { p with i := p.i + 1 } (P.length + 3) := by
        refine ⟨le, by simp [at_, Nat.add_assoc], ?_⟩
        rw [List.take_of_length_le (by simp [delimiter])]
        exact stage.whole le_rfl
      dsimp only
      split
      · exact wp_advance inside enough logged fun _ => ⟨behind, ended⟩
      split
      · exact wp_advance inside enough logged fun _ => ⟨behind, ended⟩
      · exact wp_stop inside logged
  | partDataEnd =>
      simp only [frontier, Stage, state] at behind stage
      exact partDataEnd_wp inside enough logged behind stage
  | partDataFinalHyphen =>
      simp only [frontier, Stage, state] at behind stage
      exact partDataFinalHyphen_wp inside enough logged behind stage
  | finished =>
      refine wp_advance inside enough logged ?_
      intro _
      simp only [frontier, Stage, state, and_true]
      omega

/-! ## The whole run -/

theorem multipartLoop_wp (nonempty : P ≠ []) {turns : Nat} (inv : ParserInv P buf p log)
    (enough : turnsLeft buf.length p < turns) :
    (parsing P buf replies).wp (multipartLoop P.length buf.length turns p)
      (fun r log' => ∃ n, r = some n ∧ n ≤ buf.length ∧ ∃ front, Logged P buf log' front) log := by
  induction turns generalizing p log with
  | zero => omega
  | succ turns ih =>
      unfold multipartLoop
      split
      · rename_i inside
        rw [Machine.wp_bind]
        apply Machine.wp_mono (multipartTurn_wp nonempty inv inside)
        intro t log' post
        cases t with
        | next p' => exact ih post.1 (by have := post.2; omega)
        | returned n => exact ⟨n, rfl, post⟩
      · obtain ⟨-, front, logged, -⟩ := inv
        exact ⟨buf.length, rfl, le_rfl, front, logged⟩

theorem init_inv : ParserInv P buf xMultipartParserInit [] :=
  ⟨Nat.zero_le _, 0, Logged.nil 0, fun _ => ⟨le_rfl, trivial⟩⟩

theorem xMultipartParserExecute_wp (nonempty : P ≠ []) :
    (parsing P buf replies).wp (xMultipartParserExecute P.length buf.length)
      (fun r log => ∃ n, r = some n ∧ n ≤ buf.length ∧ ∃ front, Logged P buf log front) [] := by
  apply multipartLoop_wp nonempty init_inv
  simp [turnsLeft, multipartTurns, stay, xMultipartParserInit]

end Turns
end Bounds

/-! ## What the callbacks are given -/

def chunkRange (e : Event Multipart) : Option (Nat × Nat) :=
  match e.1 with
  | .emit .chunkData first last => some (first, last)
  | _ => none

def chunkRanges (log : List (Event Multipart)) : List (Nat × Nat) := log.filterMap chunkRange

theorem Logged.increasing {P buf : Bytes} {log : List (Event Multipart)} {front : Nat}
    (logged : Logged P buf log front) :
    (chunkRanges log).Pairwise fun range range' => range.2 ≤ range'.1 := by
  unfold chunkRanges
  rw [List.pairwise_filterMap]
  refine logged.ordered.imp ?_
  rintro ⟨op, r⟩ ⟨op', r'⟩ before range found range' found'
  cases op with
  | emit cb first last =>
      cases op' with
      | emit cb' first' last' =>
          cases cb <;> cases found
          cases cb' <;> cases found'
          exact before
      | buf _ | boundary _ | notify _ => cases found'
  | buf _ | boundary _ | notify _ => cases found

/-- Every run ends inside its buffers, whatever the callbacks answer. -/
theorem multipart_in_bounds (P buf : Bytes) (dashes : [minus, minus] <+: P) :
    (parsing P buf fun _ => True).wp (xMultipartParserExecute P.length buf.length)
      (fun r log =>
        (∃ n, r = some n ∧ n ≤ buf.length) ∧
        (∀ i c, ⟨.buf i, c⟩ ∈ log → i < buf.length) ∧
        (∀ i c, ⟨.boundary i, c⟩ ∈ log → i < P.length) ∧
        (∀ cb first last r, ⟨.emit cb first last, r⟩ ∈ log →
          first ≤ last ∧ last ≤ buf.length) ∧
        (∀ range ∈ chunkRanges log, range.1 ≤ range.2 ∧ delimiter P <+: buf.drop range.2) ∧
        (chunkRanges log).Pairwise fun range range' => range.2 ≤ range'.1) [] := by
  have nonempty : P ≠ [] := by
    rintro rfl
    cases List.prefix_nil.mp dashes
  refine Machine.wp_mono (xMultipartParserExecute_wp nonempty) ?_
  rintro r log ⟨n, result, le, front, logged⟩
  refine ⟨⟨n, result, le⟩, ?_, ?_, ?_, ?_, logged.increasing⟩
  · exact fun i c member => logged.fine _ member
  · exact fun i c member => logged.fine _ member
  · intro cb first last r member
    obtain ⟨sorted, inside, -⟩ := logged.fine _ member
    exact ⟨sorted, inside⟩
  · intro range member
    obtain ⟨⟨op, r⟩, here, found⟩ := List.mem_filterMap.mp member
    obtain ⟨first, last⟩ := range
    cases op with
    | emit cb first last =>
        cases cb <;> cases found
        obtain ⟨sorted, -, fine, -⟩ := logged.fine _ here
        exact ⟨sorted, fine⟩
    | buf _ | boundary _ | notify _ => cases found

theorem multipart_in_bounds_small :
    (parsing (ascii "--b") (ascii "--b\r\n\r\nx\r\n--b--") fun _ => True).wp
      (xMultipartParserExecute 3 15)
      (fun r log =>
        (∃ n, r = some n ∧ n ≤ 15) ∧
        (∀ i c, ⟨.buf i, c⟩ ∈ log → i < 15) ∧
        (∀ i c, ⟨.boundary i, c⟩ ∈ log → i < 3) ∧
        (∀ cb first last r, ⟨.emit cb first last, r⟩ ∈ log → first ≤ last ∧ last ≤ 15) ∧
        (∀ range ∈ chunkRanges log, range.1 ≤ range.2 ∧
          delimiter (ascii "--b") <+: (ascii "--b\r\n\r\nx\r\n--b--").drop range.2) ∧
        (chunkRanges log).Pairwise fun range range' => range.2 ≤ range'.1) [] :=
  multipart_in_bounds (ascii "--b") (ascii "--b\r\n\r\nx\r\n--b--") (by decide)

end Ximg
