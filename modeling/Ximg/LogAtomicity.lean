import Ximg.LogSlots
import Ximg.Zspinlock

/-!
# Sections of the log are atomic

Whatever threads call the log, and however their instructions interleave, the run is one of whole
sections. No slot and no file is used by two threads at once, and no file after it was closed.
-/

namespace Ximg.SpinLog
open Calls Prog

variable {ι α : Type}

/-! ## Where a thread stands -/

def line (debug : Bool) (message : Message) : List Piece :=
  .stamp :: (if debug then [.threadId] else []) ++
    .level (clampLevel message.level) :: .text message.text ::
      if message.fmt.getLast message.nonempty ≠ 10 then [.newline] else []

instance : Inhabited Message := ⟨⟨0, [0], [], by simp⟩⟩

inductive Spot where
  | outside
  /-- The thread has the lock of a slot. It may know what is there, and have written some of a line. -/
  | inside (i : Nat) (seen : Option (Option Nat)) (part : List Piece)
  /-- The slot is NULL still. -/
  | opened (i file : Nat)
  /-- The slot is not NULL yet. -/
  | closed (i : Nat)

namespace Spot

def holds : Spot → Option Nat
  | outside => none
  | inside i _ _ | opened i _ | closed i => some i

def writes : Spot → Option (Nat × List Piece)
  | inside _ (some (some f)) part => some (f, part)
  | _ => none

def Answers : Spot → (op : SlotOp ι) → op.Res → Prop
  | _, .fetchAndOr _, old => old = 0
  | inside i seen _, .load j, file => j = i → ∀ known ∈ seen, file = known
  | _, _, _ => True

end Spot

/-- The steps of a thread, with the whole section that takes place there. -/
inductive Moves (debug : Bool) (self : ι) :
    Spot → (op : SlotOp ι) → op.Res → Option ((op : (Log ι).Op) × (Log ι).Res op) → Spot → Prop where
  | enter (i) : Moves debug self .outside (.fetchAndOr i) 0 none (.inside i none [])
  | look (i seen file) :
      Moves debug self (.inside i seen []) (.load i) file none (.inside i (some file) [])
  | full (i f new) : Moves debug self (.inside i (some (some f)) []) (.andAndFetch i) new
      (some ⟨.openSlot self i, none⟩) .outside
  | failed (i) : Moves debug self (.inside i (some none) []) (.fopen self i) none
      (some ⟨.openSlot self i, none⟩) (.inside i (some none) [])
  | opens (i f) : Moves debug self (.inside i (some none) []) (.fopen self i) (some f)
      (some ⟨.openSlot self i, some f⟩) (.opened i f)
  | fill (i f) : Moves debug self (.opened i f) (.store i (some f)) () none
      (.inside i (some (some f)) [])
  | stay (i) : Moves debug self (.inside i (some none) []) (.store i none) () none
      (.inside i (some none) [])
  | unprinted (i level new) : Moves debug self (.inside i (some none) []) (.andAndFetch i) new
      (some ⟨.printSlot self i level, ()⟩) .outside
  | write (i f part piece) (plain : ∀ level, piece ≠ .level level)
      (fits : ∃ message, part ++ [piece] <+: line debug message) :
      Moves debug self (.inside i (some (some f)) part) (.fprintf self (some f) piece) () none
        (.inside i (some (some f)) (part ++ [piece]))
  | print (i f part level) (fits : ∃ message, part ++ [.level level] <+: line debug message) :
      Moves debug self (.inside i (some (some f)) part) (.fprintf self (some f) (.level level)) ()
        (some ⟨.printSlot self i level, ()⟩) (.inside i (some (some f)) (part ++ [.level level]))
  | flush (i f part) : Moves debug self (.inside i (some (some f)) part) (.fflush (some f)) () none
      (.inside i (some (some f)) part)
  | close (i f) : Moves debug self (.inside i (some (some f)) []) (.fclose self i (some f)) ()
      (some ⟨.closeSlot self i, ()⟩) (.closed i)
  | clear (i) : Moves debug self (.closed i) (.store i none) () none (.inside i (some none) [])
  | unclosed (i new) : Moves debug self (.inside i (some none) []) (.andAndFetch i) new
      (some ⟨.closeSlot self i, ()⟩) .outside
  | leave (i seen part new) (whole : part = [] ∨ ∃ message, part = line debug message) :
      Moves debug self (.inside i seen part) (.andAndFetch i) new none .outside
  | writeOut (piece) (plain : ∀ level, piece ≠ .level level) :
      Moves debug self .outside (.fprintf self none piece) () none .outside
  | printOut (level) : Moves debug self .outside (.fprintf self none (.level level)) ()
      (some ⟨.printStdout self level, ()⟩) .outside

/-! ### What a thread is about to do -/

def SlotOp.slot : SlotOp ι → Option Nat
  | load i | store i _ | fopen _ i => some i
  | fclose _ i _ => some i
  | _ => none

/-- The file that an instruction works on, none for `stdout`. -/
def SlotOp.file : SlotOp ι → Option Nat
  | fprintf _ fp _ | fflush fp | fclose _ _ fp => fp
  | _ => none

theorem Moves.slot {debug : Bool} {t : ι} {x y : Spot} {op : SlotOp ι} {r : op.Res}
    {label : Option ((op : (Log ι).Op) × (Log ι).Res op)} (move : Moves debug t x op r label y)
    {i : Nat} (uses : SlotOp.slot op = some i) : x.holds = some i := by
  cases move <;> cases uses <;> rfl

theorem Moves.file {debug : Bool} {t : ι} {x y : Spot} {op : SlotOp ι} {r : op.Res}
    {label : Option ((op : (Log ι).Op) × (Log ι).Res op)} (move : Moves debug t x op r label y)
    {f : Nat} (uses : SlotOp.file op = some f) : ∃ part, x.writes = some (f, part) := by
  cases move <;> cases uses <;> exact ⟨_, rfl⟩

theorem Spot.answered (x : Spot) (op : SlotOp ι) : ∃ r, x.Answers op r := by
  cases op with
  | fetchAndOr i => exact ⟨0, by cases x <;> rfl⟩
  | load j =>
      cases x with
      | inside i seen part =>
          refine ⟨seen.join, fun _ known member => ?_⟩
          obtain rfl : seen = some known := member
          rfl
      | _ => exact ⟨none, trivial⟩
  | andAndFetch i => exact ⟨0, by cases x <;> trivial⟩
  | fopen self i => exact ⟨none, by cases x <;> trivial⟩
  | _ => exact ⟨(), by cases x <;> trivial⟩

/-! ## What the functions perform -/

section Performing
variable (debug : Bool) (self : ι)

abbrev Carries (p : Prog (Slots ι) α) (spot : Spot) (q : Prog (Log ι) α) : Prop :=
  p.Performs Spot.Answers (Moves debug self) (fun _ spot => spot = .outside) spot q

theorem carries_openLoop (left i : Nat) :
    Carries debug self (logOpenLoop self left i) .outside (Ximg.logOpenLoop self left i) := by
  induction left generalizing i with
  | zero => exact ⟨rfl, rfl⟩
  | succ left ih =>
      rintro _ rfl
      refine ⟨_, .inl ⟨.enter i, fun file _ => ⟨_, .inl ⟨.look i none file, ?_⟩⟩⟩⟩
      cases file with
      | some f =>
          intro new _
          exact ⟨_, .inr ⟨_, _, _, rfl, .full i f new, ih (i + 1)⟩⟩
      | none =>
          intro file _
          cases file with
          | none =>
              refine ⟨_, .inr ⟨_, _, _, rfl, .failed i, fun _ _ => ⟨_, .inl ⟨.stay i, ?_⟩⟩⟩⟩
              intro file again
              obtain rfl := again rfl _ rfl
              refine ⟨_, .inl ⟨.look i _ _, fun new _ => ⟨_, .inl ⟨.leave i _ _ new (.inl rfl), ?_⟩⟩⟩⟩
              exact ih (i + 1)
          | some f =>
              refine ⟨_, .inr ⟨_, _, _, rfl, .opens i f, fun _ _ => ⟨_, .inl ⟨.fill i f, ?_⟩⟩⟩⟩
              intro file again
              obtain rfl := again rfl _ rfl
              refine ⟨_, .inl ⟨.look i _ _, fun new _ => ⟨_, .inl ⟨.leave i _ _ new (.inl rfl), ?_⟩⟩⟩⟩
              exact ⟨rfl, rfl⟩

/-! ### Lines -/

def writeAll (fp : Option Nat) : List Piece → Prog (Slots ι) Unit
  | [] => return ()
  | piece :: pieces => do
      slotOp (.fprintf self fp piece)
      writeAll fp pieces

theorem writeAll_append (fp : Option Nat) (first rest : List Piece) :
    writeAll self fp (first ++ rest) = writeAll self fp first >>= fun _ => writeAll self fp rest := by
  induction first with
  | nil => rfl
  | cons piece first ih => simp [writeAll, ih]

theorem printLine_eq (fp : Option Nat) (message : Message) :
    printLine self debug fp message = writeAll self fp (line debug message) := by
  cases debug <;> by_cases newline : message.fmt.getLast message.nonempty = 10 <;>
    simp [printLine, line, writeAll, newline] <;> rfl

section Lines
variable {debug self} {fp : Option Nat}

theorem performs_plain (message : Message) (spot : List Piece → Spot)
    (write : ∀ part piece, (∀ level, piece ≠ .level level) →
      part ++ [piece] <+: line debug message →
      Moves debug self (spot part) (.fprintf self fp piece) () none (spot (part ++ [piece])))
    (pieces part : List Piece) (plain : ∀ piece ∈ pieces, ∀ level, piece ≠ .level level)
    (fits : part ++ pieces <+: line debug message) :
    (writeAll self fp pieces).Performs Spot.Answers (Moves debug self)
      (fun _ spot' => spot' = spot (part ++ pieces)) (spot part) (.ret ()) := by
  induction pieces generalizing part with
  | nil => simp [writeAll, Performs]
  | cons piece pieces ih =>
      rw [List.append_cons] at fits ⊢
      have here := write part piece (plain piece List.mem_cons_self)
        ((List.prefix_append _ pieces).trans fits)
      have rest := ih (part ++ [piece]) (fun p member => plain p (List.mem_cons_of_mem _ member)) fits
      exact fun _ _ => ⟨_, .inl ⟨here, rest⟩⟩

theorem performs_line (message : Message) (spot : List Piece → Spot) {op : (Log ι).Op}
    {r : (Log ι).Res op}
    (write : ∀ part piece, (∀ level, piece ≠ .level level) →
      part ++ [piece] <+: line debug message →
      Moves debug self (spot part) (.fprintf self fp piece) () none (spot (part ++ [piece])))
    (print : ∀ part, part ++ [.level (clampLevel message.level)] <+: line debug message →
      Moves debug self (spot part) (.fprintf self fp (.level (clampLevel message.level))) ()
        (some ⟨op, r⟩) (spot (part ++ [.level (clampLevel message.level)]))) :
    (printLine self debug fp message).Performs Spot.Answers (Moves debug self)
      (fun _ spot' => spot' = spot (line debug message)) (spot []) (.call op fun _ => .ret ()) := by
  obtain ⟨before, after, split, plainBefore, plainAfter⟩ : ∃ before after,
      line debug message = before ++ .level (clampLevel message.level) :: after ∧
      (∀ piece ∈ before, ∀ level, piece ≠ .level level) ∧
      ∀ piece ∈ after, ∀ level, piece ≠ .level level := by
    refine ⟨_, _, rfl, ?_, ?_⟩
    · cases debug <;> simp
    · by_cases newline : message.fmt.getLast message.nonempty = 10 <;> simp [newline]
  have last : before ++ [.level (clampLevel message.level)] ++ after <+: line debug message := by
    simp [split]
  have first := (List.prefix_append _ after).trans last
  rw [printLine_eq, split, writeAll_append, List.append_cons before]
  apply Performs.bind (q := .ret ()) (g := fun _ => .call op fun _ => .ret ())
    (performs_plain message spot write before [] plainBefore ((List.prefix_append _ _).trans first))
  rintro _ _ rfl _ _
  refine ⟨_, .inr ⟨op, r, _, rfl, print before first, ?_⟩⟩
  exact performs_plain message spot write after _ plainAfter last

end Lines

theorem carries_print (logId : Int) (message : Message) :
    Carries debug self (logPrintf0 self debug logId message) .outside
      (Ximg.logPrintf0 self logId message.level) := by
  unfold logPrintf0 Ximg.logPrintf0
  split
  · exact performs_line message (fun _ => .outside) (fun _ piece plain _ => .writeOut piece plain)
      fun _ _ => .printOut _
  · rintro _ rfl
    refine ⟨_, .inl ⟨.enter _, fun file _ => ⟨_, .inl ⟨.look _ none file, ?_⟩⟩⟩⟩
    cases file with
    | none => exact fun new _ => ⟨_, .inr ⟨_, _, _, rfl, .unprinted _ _ new, rfl, rfl⟩⟩
    | some f =>
        apply Performs.bind (g := fun _ => .ret ()) (performs_line message
          (fun part => .inside logId.toNat (some (some f)) part)
          (fun part piece plain fits => .write _ f part piece plain ⟨message, fits⟩)
          fun part fits => .print _ f part _ ⟨message, fits⟩)
        rintro _ _ rfl _ _
        refine ⟨_, .inl ⟨.flush _ _ _, fun new _ => ⟨_, .inl ⟨?_, rfl, rfl⟩⟩⟩⟩
        exact .leave _ _ _ new (.inr ⟨message, rfl⟩)

theorem carries_flush (logId : Int) :
    Carries debug self (logFlush logId) .outside (.ret ()) := by
  unfold logFlush
  split
  · exact ⟨rfl, rfl⟩
  · rintro _ rfl
    refine ⟨_, .inl ⟨.enter _, fun file _ => ⟨_, .inl ⟨.look _ none file, ?_⟩⟩⟩⟩
    cases file with
    | none => exact fun new _ => ⟨_, .inl ⟨.leave _ _ _ new (.inl rfl), rfl, rfl⟩⟩
    | some f =>
        intro file again
        obtain rfl := again rfl _ rfl
        refine ⟨_, .inl ⟨.look _ _ _, fun _ _ => ⟨_, .inl ⟨.flush _ _ _, fun new _ => ?_⟩⟩⟩⟩
        exact ⟨_, .inl ⟨.leave _ _ _ new (.inl rfl), rfl, rfl⟩⟩

theorem carries_close (logId : Int) :
    Carries debug self (logClose self logId) .outside (Ximg.logClose self logId) := by
  unfold logClose Ximg.logClose
  split
  · exact ⟨rfl, rfl⟩
  · rintro _ rfl
    refine ⟨_, .inl ⟨.enter _, fun file _ => ⟨_, .inl ⟨.look _ none file, ?_⟩⟩⟩⟩
    cases file with
    | none => exact fun new _ => ⟨_, .inr ⟨_, _, _, rfl, .unclosed _ new, rfl, rfl⟩⟩
    | some f =>
        intro file again
        obtain rfl := again rfl _ rfl
        refine ⟨_, .inl ⟨.look _ _ _, fun _ _ => ?_⟩⟩
        refine ⟨_, .inr ⟨_, _, _, rfl, .close _ f, fun _ _ => ⟨_, .inl ⟨.clear _, fun new _ => ?_⟩⟩⟩⟩
        exact ⟨_, .inl ⟨.leave _ _ _ new (.inl rfl), rfl, rfl⟩⟩

theorem carries_request (r : Request) (spot : Spot) (start : spot = .outside) :
    Carries debug self (request debug self r) spot (sectionRequest self r) := by
  subst start
  cases r with
  | logOpen => exact carries_openLoop debug self _ _
  | logPrintf0 logId message => exact carries_print debug self logId message
  | logFlush logId => exact carries_flush debug self logId
  | logClose logId => exact carries_close debug self logId

end Performing

/-! ## Files of whole sections -/

structure Sound (s : LogState ι) : Prop where
  live : ∀ i f, s.logFiles i = some f →
    (∃ t j, .opened t j f ∈ s.events) ∧ closers f s.events = []
  apart : ∀ i j f, s.logFiles i = some f → s.logFiles j = some f → i = j
  known : ∀ f, closers f s.events ≠ [] → ∃ t j, .opened t j f ∈ s.events
  once : ∀ f, (closers f s.events).length ≤ 1

theorem Sound.initial : Sound (Ximg.logInit ι) := by
  constructor <;> simp [Ximg.logInit, closers]

theorem Sound.opened {s : LogState ι} (sound : Sound s) (t : ι) {i f : Nat}
    (fresh : ∀ t' j, .opened t' j f ∉ s.events) :
    Sound ⟨Function.update s.logFiles i (some f), .opened t i f :: s.events⟩ := by
  have absent (j : Nat) : s.logFiles j ≠ some f := by
    intro full
    obtain ⟨⟨t', j', opened⟩, -⟩ := sound.live j f full
    exact fresh t' j' opened
  have unclosed : closers f s.events = [] := by
    by_contra some
    obtain ⟨t', j, opened⟩ := sound.known f some
    exact fresh t' j opened
  constructor
  · intro j g full
    by_cases same : j = i
    · subst same
      simp only [Function.update_self, Option.some.injEq] at full
      subst full
      exact ⟨⟨t, j, List.mem_cons_self⟩, unclosed⟩
    · simp only [Function.update_of_ne same] at full
      obtain ⟨⟨t', j', opened⟩, live⟩ := sound.live j g full
      exact ⟨⟨t', j', List.mem_cons_of_mem _ opened⟩, live⟩
  · intro j j' g full full'
    by_cases same : j = i <;> by_cases same' : j' = i
    · rw [same, same']
    · subst same
      simp only [Function.update_self, Function.update_of_ne same', Option.some.injEq] at full full'
      subst full
      exact absurd full' (absent j')
    · subst same'
      simp only [Function.update_self, Function.update_of_ne same, Option.some.injEq] at full full'
      subst full'
      exact absurd full (absent j)
    · simp only [Function.update_of_ne same, Function.update_of_ne same'] at full full'
      exact sound.apart j j' g full full'
  · intro g some
    obtain ⟨t', j, opened⟩ := sound.known g some
    exact ⟨t', j, List.mem_cons_of_mem _ opened⟩
  · exact sound.once

theorem Sound.closed {s : LogState ι} (sound : Sound s) (t : ι) (i : Nat) :
    Sound ⟨Function.update s.logFiles i none, .closed t i (s.logFiles i) :: s.events⟩ := by
  have elsewhere (j g : Nat) (full : Function.update s.logFiles i none j = some g) :
      j ≠ i ∧ s.logFiles j = some g := by
    by_cases same : j = i
    · subst same
      simp at full
    · simpa [same] using full
  have kept (g : Nat) (other : s.logFiles i ≠ some g) :
      closers g (.closed t i (s.logFiles i) :: s.events) = closers g s.events := by
    cases full : s.logFiles i with
    | none => rfl
    | some f =>
        apply if_neg
        rintro rfl
        exact other full
  constructor
  · intro j g full
    obtain ⟨apart, full⟩ := elsewhere j g full
    obtain ⟨⟨t', j', opened⟩, live⟩ := sound.live j g full
    refine ⟨⟨t', j', List.mem_cons_of_mem _ opened⟩, ?_⟩
    rw [kept g fun here => apart (sound.apart j i g full here)]
    exact live
  · intro j j' g full full'
    exact sound.apart j j' g (elsewhere j g full).2 (elsewhere j' g full').2
  · intro g some
    by_cases here : s.logFiles i = Option.some g
    · obtain ⟨⟨t', j, opened⟩, -⟩ := sound.live i g here
      exact ⟨t', j, List.mem_cons_of_mem _ opened⟩
    · rw [kept g here] at some
      obtain ⟨t', j, opened⟩ := sound.known g some
      exact ⟨t', j, List.mem_cons_of_mem _ opened⟩
  · intro g
    by_cases here : s.logFiles i = some g
    · rw [here]
      simp [closers, (sound.live i g here).2]
    · rw [kept g here]
      exact sound.once g

theorem Sound.printed {s : LogState ι} (sound : Sound s) (t : ι) (fp : Option Nat)
    (level : Int32) : Sound { s with events := .printed t fp level :: s.events } := by
  obtain ⟨live, apart, known, once⟩ := sound
  constructor <;> simpa [closers]

theorem Sound.effect {s : LogState ι} (sound : Sound s) {op : LogOp ι} {r : op.Res}
    (legal : s.Legal op r) : Sound (s.effect op r) := by
  cases op with
  | openSlot t i =>
      cases r with
      | none => exact sound
      | some f => exact sound.opened t (legal f rfl).2
  | printSlot t i level =>
      show Sound (if s.logFiles i = none then s else _)
      split
      · exact sound
      · exact sound.printed t _ level
  | printStdout t level => exact sound.printed t none level
  | closeSlot t i => exact sound.closed t i

/-! ## What the instructions keep -/

section Invariants
variable (debug : Bool)

def Whole (written : List (ι × Piece)) : Prop :=
  ∃ lines : List (ι × Message),
    written = lines.flatMap fun l => (line debug l.2).map (Prod.mk l.1)

structure Locked (spots : ι → Spot) (spin : Nat → BitVec 64) : Prop where
  word : ∀ i, (spin i = 0 ∧ ∀ t, (spots t).holds ≠ some i) ∨
    (spin i = 1 ∧ ∃ t, (spots t).holds = some i)
  alone : ∀ t t' i, (spots t).holds = some i → (spots t').holds = some i → t = t'

def Spot.Placed (here there : Nat → Option Nat) : Spot → Prop
  | outside => True
  | inside i seen _ => here i = there i ∧ ∀ known ∈ seen, here i = known
  | opened i f => there i = some f
  | closed i => there i = none

/-- The slots are those of the whole sections, but for the threads that are about to store. -/
structure Tracked (spots : ι → Spot) (here there : Nat → Option Nat) : Prop where
  placed : ∀ t, (spots t).Placed here there
  free : ∀ i, (∀ t, (spots t).holds ≠ some i) → here i = there i

structure Lined (spots : ι → Spot) (written : Nat → List (ι × Piece)) : Prop where
  part : ∀ t f part, (spots t).writes = some (f, part) →
    ∃ before, Whole debug before ∧ written f = before ++ part.map (Prod.mk t) ∧
      ∃ message, part <+: line debug message
  whole : ∀ f, (∀ t part, (spots t).writes ≠ some (f, part)) → Whole debug (written f)

/-- A `log_close` of a slot that is NULL does nothing to a file. -/
def touches : LogEvent ι → Bool
  | .closed _ _ none => false
  | _ => true

theorem closers_touches (f : Nat) (events : List (LogEvent ι)) :
    closers f (events.filter touches) = closers f events := by
  induction events with
  | nil => rfl
  | cons e events ih =>
      cases e with
      | closed t i file =>
          cases file with
          | none => exact ih
          | some g =>
              rw [List.filter_cons_of_pos rfl]
              simp [closers, ih]
      | opened | printed =>
          rw [List.filter_cons_of_pos rfl]
          exact ih

structure Coherent (spots : ι → Spot) (s : State ι) (whole : LogState ι) : Prop where
  locked : Locked spots s.spin
  tracked : Tracked spots s.logFiles whole.logFiles
  lined : Lined debug spots s.written
  events : s.events = whole.events.filter touches
  sound : Sound whole

theorem Coherent.initial :
    Coherent debug (fun _ : ι => .outside) (logInit ι) (Ximg.logInit ι) := by
  refine ⟨⟨?_, ?_⟩, ⟨?_, ?_⟩, ⟨?_, ?_⟩, rfl, Sound.initial⟩
  · simp [logInit, Spot.holds]
  · simp [Spot.holds]
  · simp [Spot.Placed]
  · simp [logInit, Ximg.logInit]
  · simp [Spot.writes]
  · exact fun f _ => ⟨[], rfl⟩

end Invariants

/-! ### Locks -/

section Steps
variable {debug : Bool} {spots : ι → Spot} {t : ι} {y : Spot} {i : Nat} {spin : Nat → BitVec 64}

theorem Locked.others (locked : Locked spots spin) (mine : (spots t).holds = some i) (u : ι)
    (other : u ≠ t) : (spots u).holds ≠ some i :=
  fun has => other (locked.alone u t i has mine)

theorem Locked.nobody (locked : Locked spots spin) (free : spin i = 0) (u : ι) :
    (spots u).holds ≠ some i := by
  obtain free | taken := locked.word i
  · exact free.2 u
  · simp [free] at taken

theorem Locked.retry (locked : Locked spots spin) (busy : spin i ≠ 0) :
    Locked spots (Function.update spin i (spin i ||| 1)) := by
  have one : spin i = 1 := ((locked.word i).resolve_left fun free => busy free.1).1
  have same : Function.update spin i (spin i ||| 1) = spin := by
    rw [one]
    apply Function.update_eq_self_iff.mpr
    simp [one]
  rw [same]
  exact locked

variable {s : State ι} {whole : LogState ι} {f : Nat}

theorem Coherent.slot (coherent : Coherent debug spots s whole) {u : ι} {part : List Piece}
    (writes : (spots u).writes = some (f, part)) :
    ∃ i, (spots u).holds = some i ∧ whole.logFiles i = some f := by
  have placed := coherent.tracked.placed u
  cases spot : spots u with
  | inside i seen p =>
      rw [spot] at writes placed
      obtain _ | _ | g := seen <;> cases writes
      exact ⟨i, rfl, placed.1 ▸ placed.2 _ rfl⟩
  | _ =>
      rw [spot] at writes
      cases writes

theorem Coherent.unwritten (coherent : Coherent debug spots s whole)
    (mine : (spots t).holds = some i) (full : whole.logFiles i = some f) (u : ι) (other : u ≠ t)
    (part : List Piece) : (spots u).writes ≠ some (f, part) := by
  intro writes
  obtain ⟨j, has, full'⟩ := coherent.slot writes
  obtain rfl := coherent.sound.apart i j f full full'
  exact coherent.locked.others mine u other has

theorem Coherent.retry (coherent : Coherent debug spots s whole) {op : SlotOp ι} {r : op.Res}
    (repeats : again op r = true) (legal : s.Legal op r) :
    Coherent debug spots (s.effect op r) whole := by
  cases op with
  | fetchAndOr i =>
      obtain rfl := legal
      exact { coherent with locked := coherent.locked.retry (by simpa [again] using repeats) }
  | _ => cases repeats

theorem Coherent.answers (coherent : Coherent debug spots s whole) {op : SlotOp ι} {r : op.Res}
    (ends : again op r = false) (legal : s.Legal op r) : (spots t).Answers op r := by
  cases op with
  | fetchAndOr i =>
      have zero : r = 0 := by simpa [again] using ends
      cases spots t <;> exact zero
  | load j =>
      have placed := coherent.tracked.placed t
      cases spot : spots t with
      | inside i seen part =>
          rw [spot] at placed
          rintro rfl known member
          exact legal.trans (placed.2 known member)
      | _ => trivial
  | _ => cases spots t <;> trivial

variable [DecidableEq ι]

theorem holds_update (u : ι) :
    (Function.update spots t y u).holds = if u = t then y.holds else (spots u).holds := by
  by_cases same : u = t
  · subst same
    simp
  · simp [same]

theorem writes_update (u : ι) :
    (Function.update spots t y u).writes = if u = t then y.writes else (spots u).writes := by
  by_cases same : u = t
  · subst same
    simp
  · simp [same]

theorem Locked.same (locked : Locked spots spin) (same : y.holds = (spots t).holds) :
    Locked (Function.update spots t y) spin := by
  have at_ (u : ι) : (Function.update spots t y u).holds = (spots u).holds := by
    rw [holds_update]
    split
    · rename_i here
      rw [same, here]
    · rfl
  constructor
  · simpa only [at_] using locked.word
  · simpa only [at_] using locked.alone

theorem Locked.enter (locked : Locked spots spin) (out : (spots t).holds = none)
    (free : spin i = 0) (has : y.holds = some i) :
    Locked (Function.update spots t y) (Function.update spin i (spin i ||| 1)) := by
  have nobody := locked.nobody free
  constructor
  · intro j
    by_cases same : j = i
    · subst same
      refine .inr ⟨by simp [free], t, ?_⟩
      simpa [holds_update] using has
    · rw [Function.update_of_ne same]
      refine (locked.word j).imp (And.imp_right fun absent u => ?_) (And.imp_right ?_)
      · rw [holds_update]
        split
        · simpa [has] using Ne.symm same
        · exact absent u
      · rintro ⟨u, here⟩
        refine ⟨u, ?_⟩
        rw [holds_update, if_neg]
        · exact here
        · rintro rfl
          simp [out] at here
  · intro u u' j here here'
    rw [holds_update] at here here'
    split at here <;> split at here'
    · rename_i first second
      rw [first, second]
    · rw [has] at here
      cases here
      exact absurd here' (nobody u')
    · rw [has] at here'
      cases here'
      exact absurd here (nobody u)
    · exact locked.alone u u' j here here'

theorem Locked.leave (locked : Locked spots spin) (mine : (spots t).holds = some i)
    (out : y.holds = none) :
    Locked (Function.update spots t y) (Function.update spin i (spin i &&& 0)) := by
  constructor
  · intro j
    by_cases same : j = i
    · subst same
      refine .inl ⟨by simp, fun u => ?_⟩
      rw [holds_update]
      split
      · simp [out]
      · rename_i other
        exact locked.others mine u other
    · rw [Function.update_of_ne same]
      refine (locked.word j).imp (And.imp_right fun absent u => ?_) (And.imp_right ?_)
      · rw [holds_update]
        split
        · simp [out]
        · exact absent u
      · rintro ⟨u, here⟩
        refine ⟨u, ?_⟩
        rw [holds_update, if_neg]
        · exact here
        · rintro rfl
          rw [mine] at here
          cases here
          exact same rfl
  · intro u u' j here here'
    rw [holds_update] at here here'
    split at here <;> split at here'
    · rename_i first second
      rw [first, second]
    · simp [out] at here
    · simp [out] at here'
    · exact locked.alone u u' j here here'

/-! ### Slots -/

variable {here there here' there' : Nat → Option Nat}

theorem Spot.Placed.congr {spot : Spot} (placed : spot.Placed here there)
    (same : ∀ i, spot.holds = some i → here' i = here i ∧ there' i = there i) :
    spot.Placed here' there' := by
  cases spot with
  | outside => trivial
  | inside i seen part =>
      obtain ⟨first, second⟩ := same i rfl
      show here' i = there' i ∧ ∀ known ∈ seen, here' i = known
      rw [first, second]
      exact placed
  | opened i f => exact (same i rfl).2.trans placed
  | closed i => exact (same i rfl).2.trans placed

theorem Tracked.move (tracked : Tracked spots here there)
    (others : ∀ u, u ≠ t → (spots u).holds ≠ some i)
    (before : ∀ j, (spots t).holds = some j → j = i) (after : ∀ j, y.holds = some j → j = i)
    (elsewhere : ∀ j, j ≠ i → here' j = here j ∧ there' j = there j)
    (placed : y.Placed here' there') (left : y.holds ≠ some i → here' i = there' i) :
    Tracked (Function.update spots t y) here' there' := by
  constructor
  · intro u
    by_cases same : u = t
    · subst same
      rw [Function.update_self]
      exact placed
    · rw [Function.update_of_ne same]
      apply (tracked.placed u).congr
      rintro j has
      apply elsewhere
      rintro rfl
      exact others u same has
  · intro j absent
    simp only [holds_update] at absent
    by_cases same : j = i
    · subst same
      exact left (by simpa using absent t)
    · rw [(elsewhere j same).1, (elsewhere j same).2]
      apply tracked.free
      intro u has
      by_cases mine : u = t
      · subst mine
        exact same (before j has)
      · exact absent u (by simpa [mine] using has)

/-! ### Lines -/

variable {written written' : Nat → List (ι × Piece)}

theorem Lined.same (lined : Lined debug spots written) (same : y.writes = (spots t).writes) :
    Lined debug (Function.update spots t y) written := by
  have at_ (u : ι) : (Function.update spots t y u).writes = (spots u).writes := by
    rw [writes_update]
    split
    · rename_i here
      rw [same, here]
    · rfl
  constructor
  · simpa only [at_] using lined.part
  · simpa only [at_] using lined.whole

theorem Lined.move (lined : Lined debug spots written)
    (others : ∀ u, u ≠ t → ∀ part, (spots u).writes ≠ some (f, part))
    (before : ∀ g part, (spots t).writes = some (g, part) → g = f)
    (after : ∀ g part, y.writes = some (g, part) → g = f)
    (elsewhere : ∀ g, g ≠ f → written' g = written g)
    (part : ∀ part, y.writes = some (f, part) →
      ∃ before, Whole debug before ∧ written' f = before ++ part.map (Prod.mk t) ∧
        ∃ message, part <+: line debug message)
    (whole : (∀ part, y.writes ≠ some (f, part)) → Whole debug (written' f)) :
    Lined debug (Function.update spots t y) written' := by
  constructor
  · intro u g piece has
    rw [writes_update] at has
    split at has
    · rename_i mine
      subst mine
      obtain rfl := after g piece has
      exact part piece has
    · rename_i other
      rw [elsewhere g]
      · exact lined.part u g piece has
      · rintro rfl
        exact others u other piece has
  · intro g absent
    simp only [writes_update] at absent
    by_cases same : g = f
    · subst same
      exact whole (by simpa using absent t)
    · rw [elsewhere g same]
      apply lined.whole
      intro u piece has
      by_cases mine : u = t
      · subst mine
        exact same (before g piece has)
      · exact absent u piece (by simpa [mine] using has)

/-! ### One step -/

theorem Coherent.goes (coherent : Coherent debug spots s whole)
    (mine : (spots t).holds = some i) (has : y.holds = some i)
    (elsewhere : ∀ j, j ≠ i → here' j = s.logFiles j ∧ there' j = whole.logFiles j)
    (placed : y.Placed here' there') :
    Locked (Function.update spots t y) s.spin ∧ Tracked (Function.update spots t y) here' there' := by
  refine ⟨coherent.locked.same (has.trans mine.symm), ?_⟩
  apply coherent.tracked.move (coherent.locked.others mine) (by simp [mine]) (by simp [has])
    elsewhere placed
  exact fun absent => absurd has absent

theorem Coherent.leaves (coherent : Coherent debug spots s whole) {seen : Option (Option Nat)}
    {part : List Piece} (spot : spots t = .inside i seen part)
    (complete : part = [] ∨ ∃ message, part = line debug message) (new : BitVec 64) :
    Coherent debug (Function.update spots t .outside)
      (s.effect (.andAndFetch i) new) whole := by
  have mine : (spots t).holds = some i := by rw [spot]; rfl
  have placed := coherent.tracked.placed t
  rw [spot] at placed
  refine ⟨coherent.locked.leave mine rfl, ?_, ?_, coherent.events, coherent.sound⟩
  · exact coherent.tracked.move (coherent.locked.others mine) (by simp [mine]) (by simp [Spot.holds])
      (fun _ _ => ⟨rfl, rfl⟩) trivial fun _ => placed.1
  · cases writes : (spots t).writes with
    | none => exact coherent.lined.same writes.symm
    | some w =>
        obtain ⟨f, p⟩ := w
        obtain ⟨j, has, full⟩ := coherent.slot writes
        obtain ⟨before, lines, ends, -⟩ := coherent.lined.part t f p writes
        apply coherent.lined.move (coherent.unwritten has full) (by simp [writes])
          (by simp [Spot.writes]) (fun _ _ => rfl) (by simp [Spot.writes])
        intro _
        have same : p = part := by
          rw [spot] at writes
          obtain _ | _ | g := seen <;> cases writes
          rfl
        obtain ⟨lines, rfl⟩ := lines
        show Whole debug (s.written f)
        rw [ends, same]
        obtain rfl | ⟨message, rfl⟩ := complete
        · exact ⟨lines, by simp⟩
        · exact ⟨lines ++ [(t, message)], by simp⟩

theorem Coherent.writes (coherent : Coherent debug spots s whole) {part : List Piece}
    {piece : Piece} (spot : spots t = .inside i (some (some f)) part)
    (fits : ∃ message, part ++ [piece] <+: line debug message) :
    let spots' := Function.update spots t (.inside i (some (some f)) (part ++ [piece]))
    Locked spots' s.spin ∧ Tracked spots' s.logFiles whole.logFiles ∧
      Lined debug spots' (Function.update s.written f (s.written f ++ [(t, piece)])) := by
  have mine : (spots t).holds = some i := by rw [spot]; rfl
  have writes : (spots t).writes = some (f, part) := by rw [spot]; rfl
  have placed := coherent.tracked.placed t
  rw [spot] at placed
  have full : whole.logFiles i = some f := placed.1 ▸ placed.2 _ rfl
  obtain ⟨locked, tracked⟩ := coherent.goes (y := .inside i (some (some f)) (part ++ [piece]))
    mine rfl (fun _ _ => ⟨rfl, rfl⟩) placed
  refine ⟨locked, tracked, ?_⟩
  apply coherent.lined.move (coherent.unwritten mine full) (by simp [writes])
    (by simp [Spot.writes]) (fun g other => Function.update_of_ne other _ _)
  · intro more has
    cases has
    obtain ⟨before, lines, ends, -⟩ := coherent.lined.part t f part writes
    exact ⟨before, lines, by simp [ends], fits⟩
  · exact fun absent => absurd rfl (absent (part ++ [piece]))

theorem Coherent.begins (coherent : Coherent debug spots s whole) (mine : (spots t).holds = some i)
    (full : whole.logFiles i = some f) (idle : (spots t).writes = none)
    (y : Spot) (begins : y.writes = some (f, [])) :
    Lined debug (Function.update spots t y) s.written := by
  have others := coherent.unwritten mine full
  apply coherent.lined.move others (by simp [idle]) (by simp [begins]) fun _ _ => rfl
  · intro part has
    rw [begins] at has
    cases has
    refine ⟨_, coherent.lined.whole f fun u part writes => ?_, by simp, default, List.nil_prefix⟩
    by_cases same : u = t
    · subst same
      rw [idle] at writes
      cases writes
    · exact others u same part writes
  · exact fun absent => absurd begins (absent [])

theorem coherent_step {op : SlotOp ι} {r : op.Res}
    {label : Option ((op : (Log ι).Op) × (Log ι).Res op)} (move : Moves debug t (spots t) op r label y)
    (legal : s.Legal op r) (coherent : Coherent debug spots s whole) :
    ∃ whole', (logMachine ι).Takes whole label whole' ∧
      Coherent debug (Function.update spots t y) (s.effect op r) whole' := by
  have placed := coherent.tracked.placed t
  generalize spot : spots t = x at move placed
  cases move with
  | enter i =>
      have out : (spots t).holds = none := by rw [spot]; rfl
      have free : s.spin i = 0 := legal.symm
      have nobody := coherent.locked.nobody free
      refine ⟨whole, rfl, coherent.locked.enter out free rfl, ?_, ?_, coherent.events, coherent.sound⟩
      · exact coherent.tracked.move (fun u _ => nobody u) (by simp [out]) (by simp [Spot.holds])
          (fun _ _ => ⟨rfl, rfl⟩) ⟨coherent.tracked.free i nobody, by simp⟩
          fun _ => coherent.tracked.free i nobody
      · exact coherent.lined.same (by rw [spot]; rfl)
  | look i seen file =>
      have mine : (spots t).holds = some i := by rw [spot]; rfl
      have found : s.logFiles i = file := legal.symm
      obtain ⟨locked, tracked⟩ := coherent.goes (y := .inside i (some file) []) mine rfl
        (fun _ _ => ⟨rfl, rfl⟩) ⟨placed.1, by simpa using found⟩
      refine ⟨whole, rfl, locked, tracked, ?_, coherent.events, coherent.sound⟩
      cases seen with
      | none =>
          cases file with
          | none => exact coherent.lined.same (by rw [spot]; rfl)
          | some f =>
              exact coherent.begins mine (placed.1 ▸ found) (by rw [spot]; rfl) _ rfl
      | some known =>
          obtain rfl : file = known := found.symm.trans (placed.2 known rfl)
          exact coherent.lined.same (by rw [spot])
  | full i f new =>
      exact ⟨whole, ⟨by simp [logMachine, LogState.Legal], rfl⟩, coherent.leaves spot (.inl rfl) new⟩
  | failed i =>
      refine ⟨whole, ⟨by simp [logMachine, LogState.Legal], rfl⟩, ?_⟩
      rw [← spot, Function.update_eq_self]
      exact coherent
  | opens i f =>
      have mine : (spots t).holds = some i := by rw [spot]; rfl
      have empty : whole.logFiles i = none := placed.1 ▸ placed.2 none rfl
      have fresh (t' : ι) (j : Nat) : .opened t' j f ∉ whole.events := by
        have fresh := legal f rfl t' j
        rw [coherent.events] at fresh
        simpa [touches] using fresh
      obtain ⟨locked, tracked⟩ := coherent.goes (y := .opened i f) mine rfl
        (fun j other => ⟨rfl, by rw [Function.update_of_ne other]⟩) (Function.update_self i _ _)
      refine ⟨_, ⟨?_, rfl⟩, locked, tracked, coherent.lined.same (by rw [spot]; rfl), ?_,
        coherent.sound.opened t fresh⟩
      · rintro g member
        cases member
        exact ⟨empty, fresh⟩
      · show .opened t i f :: s.events = _
        rw [coherent.events]
        rfl
  | fill i f =>
      have mine : (spots t).holds = some i := by rw [spot]; rfl
      have stored : Function.update s.logFiles i (some f) i = some f := Function.update_self i _ _
      obtain ⟨locked, tracked⟩ := coherent.goes (y := .inside i (some (some f)) []) mine rfl
        (fun j other => ⟨by rw [Function.update_of_ne other], rfl⟩)
        ⟨stored.trans placed.symm, by simp⟩
      exact ⟨whole, rfl, locked, tracked, coherent.begins mine placed (by rw [spot]; rfl) _ rfl,
        coherent.events, coherent.sound⟩
  | stay i =>
      have same : s.effect (.store i none) () = s := by
        show { s with logFiles := Function.update s.logFiles i none } = s
        rw [Function.update_eq_self_iff.mpr (placed.2 none rfl).symm]
      refine ⟨whole, rfl, ?_⟩
      rw [same, ← spot, Function.update_eq_self]
      exact coherent
  | unprinted i level new =>
      have empty : whole.logFiles i = none := placed.1 ▸ placed.2 none rfl
      refine ⟨whole, ⟨trivial, (if_pos empty).symm⟩, coherent.leaves spot (.inl rfl) new⟩
  | write i f part piece plain fits =>
      obtain ⟨locked, tracked, lined⟩ := coherent.writes spot fits
      refine ⟨whole, rfl, locked, tracked, lined, ?_, coherent.sound⟩
      have none : State.print t (some f) piece = [] := by
        cases piece with
        | level l => exact absurd rfl (plain l)
        | _ => rfl
      show State.print t (some f) piece ++ s.events = _
      rw [none]
      exact coherent.events
  | print i f part level fits =>
      obtain ⟨locked, tracked, lined⟩ := coherent.writes spot fits
      have full : whole.logFiles i = some f := placed.1 ▸ placed.2 _ rfl
      have effect : whole.effect (.printSlot t i level) () =
          { whole with events := .printed t (some f) level :: whole.events } := by
        simp [LogState.effect, full]
      refine ⟨_, ⟨trivial, rfl⟩, ?_⟩
      show Coherent debug _ _ (whole.effect (.printSlot t i level) ())
      rw [effect]
      refine ⟨locked, tracked, lined, ?_, coherent.sound.printed t _ level⟩
      show .printed t (some f) level :: s.events = _
      rw [coherent.events]
      rfl
  | flush i f part =>
      refine ⟨whole, rfl, ?_⟩
      rw [← spot, Function.update_eq_self]
      exact coherent
  | close i f =>
      have mine : (spots t).holds = some i := by rw [spot]; rfl
      have full : whole.logFiles i = some f := placed.1 ▸ placed.2 _ rfl
      obtain ⟨locked, tracked⟩ := coherent.goes (y := .closed i) mine rfl
        (fun j other => ⟨rfl, by rw [Function.update_of_ne other]⟩) (Function.update_self i _ _)
      refine ⟨_, ⟨trivial, rfl⟩, locked, tracked, ?_, ?_, coherent.sound.closed t i⟩
      · have writes : (spots t).writes = some (f, []) := by rw [spot]; rfl
        apply coherent.lined.move (coherent.unwritten mine full) (by simp [writes])
          (by simp [Spot.writes]) (fun _ _ => rfl) (by simp [Spot.writes])
        intro _
        obtain ⟨before, lines, ends, -⟩ := coherent.lined.part t f [] writes
        show Whole debug (s.written f)
        simpa [ends] using lines
      · show .closed t i (some f) :: s.events = List.filter touches (.closed t i (whole.logFiles i) :: _)
        rw [full, coherent.events]
        rfl
  | clear i =>
      have mine : (spots t).holds = some i := by rw [spot]; rfl
      have stored : Function.update s.logFiles i none i = none := Function.update_self i _ _
      obtain ⟨locked, tracked⟩ := coherent.goes (y := .inside i (some none) []) mine rfl
        (fun j other => ⟨by rw [Function.update_of_ne other], rfl⟩)
        ⟨stored.trans placed.symm, by simp⟩
      exact ⟨whole, rfl, locked, tracked, coherent.lined.same (by rw [spot]; rfl),
        coherent.events, coherent.sound⟩
  | unclosed i new =>
      have empty : whole.logFiles i = none := placed.1 ▸ placed.2 none rfl
      obtain ⟨locked, tracked, lined, events, sound⟩ := coherent.leaves spot (.inl rfl) new
      have slots : (whole.effect (.closeSlot t i) ()).logFiles = whole.logFiles := by
        apply Function.update_eq_self_iff.mpr
        exact empty.symm
      refine ⟨_, ⟨trivial, rfl⟩, locked, ?_, lined, ?_, sound.closed t i⟩
      · show Tracked _ _ (whole.effect (.closeSlot t i) ()).logFiles
        rw [slots]
        exact tracked
      · show _ = List.filter touches (.closed t i (whole.logFiles i) :: _)
        rw [empty]
        exact events
  | leave i seen part new complete =>
      exact ⟨whole, rfl, coherent.leaves spot complete new⟩
  | writeOut piece plain =>
      have none : State.print t none piece = [] := by
        cases piece with
        | level l => exact absurd rfl (plain l)
        | _ => rfl
      refine ⟨whole, rfl, ?_⟩
      rw [← spot, Function.update_eq_self]
      refine ⟨coherent.locked, coherent.tracked, coherent.lined, ?_, coherent.sound⟩
      show State.print t .none piece ++ s.events = _
      rw [none]
      exact coherent.events
  | printOut level =>
      refine ⟨_, ⟨trivial, rfl⟩, ?_⟩
      rw [← spot, Function.update_eq_self]
      refine ⟨coherent.locked, coherent.tracked, coherent.lined, ?_,
        coherent.sound.printed t .none level⟩
      show .printed t .none level :: s.events = _
      rw [coherent.events]
      rfl

end Steps

/-! ## Every interleaving -/

section Runs
variable [DecidableEq ι] {debug : Bool} {clients : ι → Prog Requests α}
  {pool : Pool (Slots ι) ι α (State ι)}

theorem sections_followed
    (run : Relation.ReflTransGen ((spinMachine ι).Loops again) (spinPool debug clients) pool) :
    ∃ whole, Relation.ReflTransGen ((logMachine ι).Advances fun _ _ => true) (sectionPool clients)
        whole ∧
      Machine.Matched Spot.Answers (Moves debug) (fun _ spot => spot = .outside) (Coherent debug)
        pool whole := by
  apply Machine.matched_run (A := logMachine ι) (I := Coherent debug)
    (fun _ _ _ _ _ repeats legal coherent => coherent.retry repeats legal)
    (fun _ _ _ _ _ _ ends legal coherent => coherent.answers ends legal)
    (fun _ _ _ _ _ _ _ _ move legal coherent => coherent_step move legal coherent) run
  refine ⟨fun _ => .outside, fun t => ?_, Coherent.initial debug⟩
  exact performs_translate (carries_request debug t) (clients t) rfl

/-- The files are used as in a run of whole sections, slots that nobody has locked are what they are
there, and a client that has ended has the same result. -/
theorem log_sections_atomic
    (run : Relation.ReflTransGen ((spinMachine ι).Loops again) (spinPool debug clients) pool) :
    ∃ whole, Relation.ReflTransGen ((logMachine ι).Advances fun _ _ => true) (sectionPool clients)
        whole ∧
      pool.state.events = whole.state.events.filter touches ∧
      (∀ i, pool.state.spin i = 0 → pool.state.logFiles i = whole.state.logFiles i) ∧
      ∀ t a, pool.progs t = .ret a → whole.progs t = .ret a := by
  obtain ⟨whole, sections, spots, performs, coherent⟩ := sections_followed run
  refine ⟨whole, sections, coherent.events, fun i free => ?_, fun t a ended => ?_⟩
  · exact coherent.tracked.free i (coherent.locked.nobody free)
  · have here := performs t
    rw [ended] at here
    exact here.1

/-- No two threads are about to use one slot or one file, a file that a thread is about to use is
open, files are closed once, and the lines of a file are whole but for the last one, which one thread
writes. -/
structure LogSafe (debug : Bool) (pool : Pool (Slots ι) ι α (State ι)) : Prop where
  slots : ∀ t t' op op' k k' i, pool.progs t = .call op k → pool.progs t' = .call op' k' →
    SlotOp.slot op = some i → SlotOp.slot op' = some i → t = t'
  files : ∀ t t' op op' k k' f, pool.progs t = .call op k → pool.progs t' = .call op' k' →
    SlotOp.file op = some f → SlotOp.file op' = some f → t = t'
  live : ∀ t op k f, pool.progs t = .call op k → SlotOp.file op = some f →
    (∃ t' i, .opened t' i f ∈ pool.state.events) ∧ closers f pool.state.events = []
  once : ∀ f, (closers f pool.state.events).length ≤ 1
  lines : ∀ f, ∃ before, Whole debug before ∧
    (pool.state.written f = before ∨ ∃ t message part, part <+: line debug message ∧
      pool.state.written f = before ++ part.map (Prod.mk t))

theorem log_instructions_safe
    (run : Relation.ReflTransGen ((spinMachine ι).Loops again) (spinPool debug clients) pool) :
    LogSafe debug pool := by
  obtain ⟨whole, -, spots, performs, coherent⟩ := sections_followed run
  have next (t : ι) (op : SlotOp ι) (k : op.Res → Prog (Slots ι) α)
      (turn : pool.progs t = .call op k) : ∃ r label y, Moves debug t (spots t) op r label y := by
    have here := performs t
    rw [turn] at here
    obtain ⟨r, answer⟩ := (spots t).answered op
    obtain ⟨y, silent | ⟨op', r', _, _, move, _⟩⟩ := here r answer
    · exact ⟨r, _, y, silent.1⟩
    · exact ⟨r, _, y, move⟩
  have file (t : ι) (op : SlotOp ι) (k : op.Res → Prog (Slots ι) α) (f : Nat)
      (turn : pool.progs t = .call op k) (uses : SlotOp.file op = some f) :
      ∃ i, (spots t).holds = some i ∧ whole.state.logFiles i = some f := by
    obtain ⟨r, label, y, move⟩ := next t op k turn
    obtain ⟨part, writes⟩ := move.file uses
    exact coherent.slot writes
  constructor
  · intro t t' op op' k k' i turn turn' uses uses'
    obtain ⟨r, label, y, move⟩ := next t op k turn
    obtain ⟨r', label', y', move'⟩ := next t' op' k' turn'
    exact coherent.locked.alone t t' i (move.slot uses) (move'.slot uses')
  · intro t t' op op' k k' f turn turn' uses uses'
    obtain ⟨i, holds, full⟩ := file t op k f turn uses
    obtain ⟨i', holds', full'⟩ := file t' op' k' f turn' uses'
    obtain rfl := coherent.sound.apart i i' f full full'
    exact coherent.locked.alone t t' i holds holds'
  · intro t op k f turn uses
    obtain ⟨i, -, full⟩ := file t op k f turn uses
    obtain ⟨⟨t', j, opened⟩, live⟩ := coherent.sound.live i f full
    rw [coherent.events, closers_touches]
    exact ⟨⟨t', j, List.mem_filter.mpr ⟨opened, rfl⟩⟩, live⟩
  · intro f
    rw [coherent.events, closers_touches]
    exact coherent.sound.once f
  · intro f
    by_cases writing : ∃ t part, (spots t).writes = some (f, part)
    · obtain ⟨t, part, writes⟩ := writing
      obtain ⟨before, lines, ends, message, fits⟩ := coherent.lined.part t f part writes
      exact ⟨before, lines, .inr ⟨t, message, part, fits, ends⟩⟩
    · refine ⟨_, coherent.lined.whole f fun t part writes => ?_, .inl rfl⟩
      exact writing ⟨t, part, writes⟩

end Runs

/-! ### Threads that log -/

def LOG_PRINT (debug : Bool) (settingsLevel : Int32) (message : Message) : Prog Requests Unit :=
  if debug ∨ message.level ≤ settingsLevel then do
    let logId ← Prog.perform (S := Requests) .logOpen
    Prog.perform (S := Requests) (.logPrintf0 logId message)
    Prog.perform (S := Requests) (.logClose logId)
  else return ()

def logClient (debug : Bool) (settingsLevel : Int32) : List Message → Prog Requests Unit
  | [] => return ()
  | message :: messages => do
      LOG_PRINT debug settingsLevel message
      logClient debug settingsLevel messages

/-- Clients that log are the threads that do so with whole sections. -/
theorem sectionPool_log (debug : Bool) (settingsLevel : Int32) (messages : ι → List Message) :
    sectionPool (fun t => logClient debug settingsLevel (messages t)) =
      logPool debug settingsLevel fun t => (messages t).map Message.level := by
  have one (t : ι) (message : Message) :
      Prog.translate (sectionRequest t) (LOG_PRINT debug settingsLevel message) =
        Ximg.LOG_PRINT t debug settingsLevel message.level := by
    unfold LOG_PRINT Ximg.LOG_PRINT
    split
    · apply congrArg (Ximg.logOpen t >>= ·) (funext fun logId => ?_)
      apply congrArg (Ximg.logPrintf0 t logId message.level >>= ·) (funext fun _ => ?_)
      exact bind_ret _
    · rfl
  unfold sectionPool logPool
  congr 1
  funext t
  show Prog.translate (sectionRequest t) (logClient debug settingsLevel (messages t)) =
    logThread t debug settingsLevel ((messages t).map Message.level)
  induction messages t with
  | nil => rfl
  | cons message rest ih =>
      rw [logClient, translate_bind, one, List.map_cons, logThread]
      exact congrArg _ (funext fun _ => ih)

def smallAnswer (s : State Bool) : (op : SlotOp Bool) → op.Res
  | .fetchAndOr i => s.spin i
  | .andAndFetch _ => 0
  | .load i => s.logFiles i
  | .fopen _ _ => if s.events = [] then some 7 else none
  | .store _ _ | .fprintf _ _ _ | .fflush _ | .fclose _ _ _ => ()

theorem smallAnswer_legal (s : State Bool) (op : SlotOp Bool) :
    (spinMachine Bool).Legal s op (smallAnswer s op) := by
  cases op with
  | fopen self i =>
      intro f member
      rw [smallAnswer] at member
      split at member
      · rename_i free
        simp [free]
      · cases member
  | fetchAndOr i | andAndFetch i | load i => rfl
  | _ => trivial

/-- The second thread waits for the lock of slot 1 while the first one opens its file. -/
def smallPool : Pool (Slots Bool) Bool Unit (State Bool) :=
  (spinMachine Bool).loopSchedule again smallAnswer (spinPool true fun _ => logClient true 6 [default])
    [true, false, true, false, true, true, true, true, true, true, false, true, true, false]

theorem smallPool_run : Relation.ReflTransGen ((spinMachine Bool).Loops again)
    (spinPool true fun _ => logClient true 6 [default]) smallPool :=
  Machine.loopSchedule_run smallAnswer_legal _ _

example : smallPool.state.written 7 = [(true, .stamp), (true, .threadId)] := by decide

theorem log_sections_atomic_small : ∃ whole,
    Relation.ReflTransGen ((logMachine Bool).Advances fun _ _ => true)
      (logPool true 6 fun _ => [0]) whole ∧
    smallPool.state.events = whole.state.events.filter touches ∧
    (∀ i, smallPool.state.spin i = 0 → smallPool.state.logFiles i = whole.state.logFiles i) ∧
    ∀ t a, smallPool.progs t = .ret a → whole.progs t = .ret a := by
  obtain ⟨whole, sections, same⟩ := log_sections_atomic smallPool_run
  rw [sectionPool_log] at sections
  exact ⟨whole, sections, same⟩

theorem log_instructions_safe_small : LogSafe true smallPool :=
  log_instructions_safe smallPool_run

end Ximg.SpinLog
