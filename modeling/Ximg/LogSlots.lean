import Ximg.Library.Interleaving
import Ximg.Zlog

/-!
# Slots of the log

Threads that log at the same time share the slots. The one whose `fopen` filled a slot is the one
that empties it.
-/

namespace Ximg
open Calls

variable {ι : Type}

/-! ## Where a thread stands -/

structure LogStage (ι : Type) where
  thread : ι
  held : Option (Nat × Nat)

namespace LogStage

def Allows (stage : LogStage ι) : LogOp ι → Prop
  | .openSlot self i =>
      self = stage.thread ∧ stage.held = none ∧ LOG_USER ≤ i ∧ i ≤ MAX_LOGS
  | .printSlot self i _ | .closeSlot self i => self = stage.thread ∧ ∃ f, stage.held = some (i, f)
  | .printStdout self _ => self = stage.thread

def next (stage : LogStage ι) : (op : LogOp ι) → op.Res → LogStage ι
  | .openSlot _ i, some f => ⟨stage.thread, some (i, f)⟩
  | .closeSlot _ _, _ => ⟨stage.thread, none⟩
  | _, _ => stage

end LogStage

abbrev Logging {α : Type} (p : Prog (Log ι) α) (Q : α → LogStage ι → Prop) (stage : LogStage ι) :
    Prop :=
  p.Follows LogStage.Allows LogStage.next Q stage

section Following
variable (self : ι)

def Opened (logId : Int) (stage : LogStage ι) : Prop :=
  (logId = LOG_INVALID ∧ stage = ⟨self, none⟩) ∨
    ∃ i f, logId = (i : Nat) ∧ i ≤ MAX_LOGS ∧ stage = ⟨self, some (i, f)⟩

theorem logging_openLoop (left i : Nat) (first : LOG_USER ≤ i) (last : i + left ≤ MAX_LOGS + 1) :
    Logging (logOpenLoop self left i) (Opened self) ⟨self, none⟩ := by
  induction left generalizing i with
  | zero => exact .inl ⟨rfl, rfl⟩
  | succ left ih =>
      refine ⟨⟨rfl, rfl, first, by omega⟩, fun file => ?_⟩
      cases file with
      | none => exact ih (i + 1) (by omega) (by omega)
      | some f => exact .inr ⟨i, f, rfl, by omega, rfl⟩

theorem logging_print (debug : Bool) (settingsLevel level : Int32) :
    Logging (LOG_PRINT self debug settingsLevel level) (fun _ stage => stage = ⟨self, none⟩)
      ⟨self, none⟩ := by
  unfold LOG_PRINT
  split
  · refine (logging_openLoop self _ _ (Nat.le_refl _) (by decide)).bind ?_
    intro logId stage opened
    cases opened with
    | inl invalid =>
        obtain ⟨rfl, rfl⟩ := invalid
        exact ⟨rfl, fun _ => rfl⟩
    | inr slot =>
        obtain ⟨i, f, rfl, last, rfl⟩ := slot
        have valid : logValid i ≠ 0 := by
          rw [logValid, if_neg (by omega)]
          decide
        rw [logPrintf0, logClose]
        simp only [if_neg valid, Int.toNat_natCast]
        exact ⟨⟨rfl, f, rfl⟩, fun _ => ⟨⟨rfl, f, rfl⟩, fun _ => rfl⟩⟩
  · rfl

theorem logging_thread (debug : Bool) (settingsLevel : Int32) (levels : List Int32) :
    Logging (logThread self debug settingsLevel levels) (fun _ stage => stage = ⟨self, none⟩)
      ⟨self, none⟩ := by
  induction levels with
  | nil => rfl
  | cons level levels ih =>
      refine (logging_print self debug settingsLevel level).bind ?_
      rintro _ _ rfl
      exact ih

theorem logThread_outside {debug : Bool} {settingsLevel : Int32} {levels : List Int32}
    {stage : LogStage ι}
    (follows : Logging (logThread self debug settingsLevel levels)
      (fun _ stage => stage.held = none) stage) : stage.held = none := by
  induction levels with
  | nil => exact follows
  | cons level levels ih =>
      rw [logThread, LOG_PRINT] at follows
      split at follows
      · exact follows.1.2.1
      · exact ih follows

end Following

/-! ## Slots and files -/

/-- A thread has a slot that its last `log_open` returned and that it did not close since. -/
def Owns (t : ι) (i : Nat) : List (LogEvent ι) → Prop
  | [] => False
  | .opened t' i' _ :: events => (t' = t ∧ i' = i) ∨ Owns t i events
  | .closed t' i' _ :: events => ¬(t' = t ∧ i' = i) ∧ Owns t i events
  | .printed _ _ _ :: events => Owns t i events

def closers (file : Nat) : List (LogEvent ι) → List ι
  | [] => []
  | .closed t _ (some f) :: events => if f = file then t :: closers file events else closers file events
  | _ :: events => closers file events

structure SlotInvariant (held : ι → Option (Nat × Nat)) (s : LogState ι) : Prop where
  range : ∀ t i f, held t = some (i, f) → LOG_USER ≤ i ∧ i ≤ MAX_LOGS
  slot : ∀ i f, s.logFiles i = some f ↔ ∃ t, held t = some (i, f)
  alone : ∀ t t' i f f', held t = some (i, f) → held t' = some (i, f') → t = t'
  owns : ∀ t i, Owns t i s.events ↔ ∃ f, held t = some (i, f)
  once : ∀ t t' i i' f, .opened t i f ∈ s.events → .opened t' i' f ∈ s.events → t = t' ∧ i = i'
  new : ∀ t i f, held t = some (i, f) → .opened t i f ∈ s.events ∧ closers f s.events = []
  old : ∀ t i f, .opened t i f ∈ s.events → held t = some (i, f) ∨ closers f s.events = [t]
  known : ∀ t f, t ∈ closers f s.events → ∃ i, .opened t i f ∈ s.events

theorem SlotInvariant.initial : SlotInvariant (fun _ : ι => none) (logInit ι) := by
  constructor <;> simp [logInit, Owns, closers]

section Steps
variable {held : ι → Option (Nat × Nat)} {s : LogState ι} {t : ι} {i f : Nat}

theorem SlotInvariant.printed (inv : SlotInvariant held s) (t : ι) (file : Option Nat)
    (level : Int32) : SlotInvariant held { s with events := .printed t file level :: s.events } := by
  obtain ⟨range, slot, alone, owns, once, new, old, known⟩ := inv
  constructor <;> simpa [Owns, closers]

theorem SlotInvariant.nobody (inv : SlotInvariant held s) (empty : s.logFiles i = none) (u : ι)
    (g : Nat) : held u ≠ some (i, g) := by
  intro has
  have full := (inv.slot i g).mpr ⟨u, has⟩
  rw [empty] at full
  cases full

theorem SlotInvariant.unclosed (inv : SlotInvariant held s)
    (fresh : ∀ t' j, .opened t' j f ∉ s.events) : closers f s.events = [] := by
  apply List.eq_nil_iff_forall_not_mem.mpr
  intro u member
  obtain ⟨j, opened⟩ := inv.known u f member
  exact fresh u j opened

variable [DecidableEq ι]

theorem held_opened (free : held t = none) (u : ι) (j g : Nat) :
    Function.update held t (some (i, f)) u = some (j, g) ↔
      (u = t ∧ j = i ∧ g = f) ∨ held u = some (j, g) := by
  by_cases same : u = t
  · rw [same, Function.update_self, free]
    simp [eq_comm]
  · simp [same]

theorem held_closed (u : ι) (j g : Nat) :
    Function.update held t none u = some (j, g) ↔ u ≠ t ∧ held u = some (j, g) := by
  by_cases same : u = t
  · simp [same]
  · simp [same]

theorem SlotInvariant.opened (inv : SlotInvariant held s) (free : held t = none)
    (first : LOG_USER ≤ i) (last : i ≤ MAX_LOGS) (empty : s.logFiles i = none)
    (fresh : ∀ t' j, .opened t' j f ∉ s.events) :
    SlotInvariant (Function.update held t (some (i, f)))
      ⟨Function.update s.logFiles i (some f), .opened t i f :: s.events⟩ := by
  -- The new pair is apart from all others: the slot was empty, and the file is new.
  have at_ := held_opened (i := i) (f := f) free
  have nobody := inv.nobody empty
  have unclosed := inv.unclosed fresh
  constructor
  · intro u j g has
    cases (at_ u j g).mp has with
    | inl new =>
        rw [new.2.1]
        exact ⟨first, last⟩
    | inr has => exact inv.range u j g has
  · intro j g
    simp only [at_]
    by_cases same : j = i
    · subst same
      simp only [Function.update_self, nobody, or_false, true_and]
      simp [eq_comm]
    · simp only [Function.update_of_ne same, same, false_and, and_false, false_or]
      exact inv.slot j g
  · intro u u' j g g' has has'
    cases (at_ u j g).mp has with
    | inl new =>
        obtain ⟨rfl, rfl, rfl⟩ := new
        cases (at_ u' j g').mp has' with
        | inl new' => exact new'.1.symm
        | inr kept' => exact absurd kept' (nobody u' g')
    | inr kept =>
        cases (at_ u' j g').mp has' with
        | inl new' =>
            obtain ⟨rfl, rfl, rfl⟩ := new'
            exact absurd kept (nobody u g)
        | inr kept' => exact inv.alone u u' j g g' kept kept'
  · intro u j
    simp only [Owns, at_, inv.owns, exists_or]
    simp [eq_comm]
  · intro u u' j j' g member member'
    cases List.mem_cons.mp member with
    | inl new =>
        cases new
        cases List.mem_cons.mp member' with
        | inl new' =>
            cases new'
            exact ⟨rfl, rfl⟩
        | inr before' => exact absurd before' (fresh u' j')
    | inr before =>
        cases List.mem_cons.mp member' with
        | inl new' =>
            cases new'
            exact absurd before (fresh u j)
        | inr before' => exact inv.once u u' j j' g before before'
  · intro u j g has
    cases (at_ u j g).mp has with
    | inl new =>
        obtain ⟨rfl, rfl, rfl⟩ := new
        exact ⟨List.mem_cons_self, unclosed⟩
    | inr kept =>
        obtain ⟨opened, open_⟩ := inv.new u j g kept
        exact ⟨List.mem_cons_of_mem _ opened, open_⟩
  · intro u j g member
    cases List.mem_cons.mp member with
    | inl new =>
        cases new
        exact .inl ((at_ _ _ _).mpr (.inl ⟨rfl, rfl, rfl⟩))
    | inr before => exact (inv.old u j g before).imp_left fun has => (at_ u j g).mpr (.inr has)
  · intro u g member
    obtain ⟨j, opened⟩ := inv.known u g member
    exact ⟨j, List.mem_cons_of_mem _ opened⟩

theorem SlotInvariant.closed (inv : SlotInvariant held s) (mine : held t = some (i, f)) :
    SlotInvariant (Function.update held t none)
      ⟨Function.update s.logFiles i none, .closed t i (some f) :: s.events⟩ := by
  have at_ (u : ι) (j g : Nat) : Function.update held t none u = some (j, g) ↔
      u ≠ t ∧ held u = some (j, g) := held_closed u j g
  have own (j g : Nat) (has : held t = some (j, g)) : j = i ∧ g = f := by
    rw [mine] at has
    cases has
    exact ⟨rfl, rfl⟩
  have others (u : ι) (g : Nat) (other : u ≠ t) : held u ≠ some (i, g) :=
    fun has => other (inv.alone u t i g f has mine)
  obtain ⟨opened, unclosed⟩ := inv.new t i f mine
  have closers_cons (g : Nat) : closers g (.closed t i (some f) :: s.events) =
      if f = g then t :: closers g s.events else closers g s.events := rfl
  have events (u : ι) (j g : Nat) : .opened u j g ∈ LogEvent.closed t i (some f) :: s.events ↔
      .opened u j g ∈ s.events := by simp
  constructor
  · intro u j g has
    exact inv.range u j g ((at_ u j g).mp has).2
  · intro j g
    simp only [at_]
    by_cases same : j = i
    · rw [same, Function.update_self]
      simp only [reduceCtorEq, false_iff, not_exists, not_and]
      exact fun u => others u g
    · rw [Function.update_of_ne same, inv.slot]
      constructor
      · rintro ⟨u, has⟩
        refine ⟨u, ?_, has⟩
        rintro rfl
        exact same (own j g has).1
      · exact fun ⟨u, _, has⟩ => ⟨u, has⟩
  · intro u u' j g g' has has'
    exact inv.alone u u' j g g' ((at_ u j g).mp has).2 ((at_ u' j g').mp has').2
  · intro u j
    simp only [Owns, at_, inv.owns]
    constructor
    · rintro ⟨apart, g, has⟩
      refine ⟨g, ?_, has⟩
      rintro rfl
      exact apart ⟨rfl, (own j g has).1.symm⟩
    · rintro ⟨g, other, has⟩
      exact ⟨fun same => other same.1.symm, g, has⟩
  · intro u u' j j' g member member'
    exact inv.once u u' j j' g ((events u j g).mp member) ((events u' j' g).mp member')
  · intro u j g has
    obtain ⟨other, kept⟩ := (at_ u j g).mp has
    obtain ⟨opened', open_⟩ := inv.new u j g kept
    refine ⟨(events u j g).mpr opened', ?_⟩
    have apart : f ≠ g := by
      rintro rfl
      exact other (inv.once u t j i f opened' opened).1
    exact (if_neg apart).trans open_
  · intro u j g member
    have before := (events u j g).mp member
    rw [closers_cons]
    by_cases same : f = g
    · subst same
      rw [if_pos rfl, unclosed, (inv.once u t j i f before opened).1]
      exact .inr rfl
    · rw [if_neg same]
      refine (inv.old u j g before).imp_left fun has => (at_ u j g).mpr ⟨?_, has⟩
      rintro rfl
      exact same (own j g has).2.symm
  · intro u g member
    simp only [events]
    rw [closers_cons] at member
    by_cases same : f = g
    · subst same
      rw [if_pos rfl, unclosed] at member
      rw [List.mem_singleton.mp member]
      exact ⟨i, opened⟩
    · rw [if_neg same] at member
      exact inv.known u g member

/-! ## All interleavings -/

def SlotsKept (stages : ι → LogStage ι) (s : LogState ι) : Prop :=
  (∀ t, (stages t).thread = t) ∧ SlotInvariant (LogStage.held ∘ stages) s

theorem slots_step (stages : ι → LogStage ι) (s : LogState ι) (t : ι) (op : LogOp ι)
    (r : op.Res) (allowed : (stages t).Allows op) (legal : s.Legal op r)
    (kept : SlotsKept stages s) :
    SlotsKept (Function.update stages t ((stages t).next op r)) (s.effect op r) := by
  obtain ⟨names, inv⟩ := kept
  have same (stage : LogStage ι) (named : stage.thread = t) (u : ι) :
      (Function.update stages t stage u).thread = u := by
    by_cases same : u = t
    · rw [same, Function.update_self, named]
    · rw [Function.update_of_ne same, names]
  have stays : Function.update stages t (stages t) = stages := Function.update_eq_self t stages
  cases op with
  | openSlot self i =>
      obtain ⟨rfl, free, first, last⟩ := allowed
      cases r with
      | none =>
          show SlotsKept (Function.update stages t (stages t)) s
          rw [stays]
          exact ⟨names, inv⟩
      | some f =>
          obtain ⟨empty, fresh⟩ := legal f rfl
          refine ⟨same _ (names t), ?_⟩
          rw [Function.comp_update, names t]
          exact inv.opened free first last empty fresh
  | printSlot self i level =>
      show SlotsKept (Function.update stages t (stages t)) (if s.logFiles i = none then s else _)
      rw [stays]
      split
      · exact ⟨names, inv⟩
      · exact ⟨names, inv.printed _ _ _⟩
  | printStdout self level =>
      show SlotsKept (Function.update stages t (stages t)) _
      rw [stays]
      exact ⟨names, inv.printed _ _ _⟩
  | closeSlot self i =>
      obtain ⟨rfl, f, mine⟩ := allowed
      have full : s.logFiles i = some f := (inv.slot i f).mpr ⟨t, mine⟩
      refine ⟨same _ (names t), ?_⟩
      rw [Function.comp_update, names t]
      show SlotInvariant _ ⟨_, .closed t i (s.logFiles i) :: s.events⟩
      rw [full]
      exact inv.closed mine

end Steps

def logPool (debug : Bool) (settingsLevel : Int32) (levels : ι → List Int32) :
    Pool (Log ι) ι Unit (LogState ι) :=
  ⟨fun t => logThread t debug settingsLevel (levels t), logInit ι⟩

/-- No slot has two owners, the slots that have one are those that are not `NULL`, every file is
closed once and by the thread that opened it, and a thread that does not log has closed all of its
files and has no slot. -/
structure SlotDiscipline (debug : Bool) (settingsLevel : Int32)
    (pool : Pool (Log ι) ι Unit (LogState ι)) : Prop where
  alone : ∀ t t' i, Owns t i pool.state.events → Owns t' i pool.state.events → t = t'
  range : ∀ t i, Owns t i pool.state.events → 1 ≤ i ∧ i ≤ MAX_LOGS
  full : ∀ i, pool.state.logFiles i ≠ none ↔ ∃ t, Owns t i pool.state.events
  closed : ∀ t i f, .opened t i f ∈ pool.state.events → closers f pool.state.events = [t] ∨
    (closers f pool.state.events = [] ∧ Owns t i pool.state.events ∧
      pool.state.logFiles i = some f)
  known : ∀ t f, t ∈ closers f pool.state.events → ∃ i, .opened t i f ∈ pool.state.events
  outside : ∀ t levels, pool.progs t = logThread t debug settingsLevel levels →
    (∀ i, ¬Owns t i pool.state.events) ∧
      ∀ i f, .opened t i f ∈ pool.state.events → closers f pool.state.events = [t]

theorem log_slots [DecidableEq ι] (debug : Bool) (settingsLevel : Int32) (levels : ι → List Int32)
    (pool : Pool (Log ι) ι Unit (LogState ι))
    (run : Relation.ReflTransGen ((logMachine ι).Advances fun _ _ => true)
      (logPool debug settingsLevel levels) pool) :
    SlotDiscipline debug settingsLevel pool := by
  have start : Machine.Staged LogStage.Allows LogStage.next (fun _ stage => stage.held = none)
      SlotsKept (logPool debug settingsLevel levels) := by
    refine ⟨fun t => ⟨t, none⟩, fun t => ?_, fun t => rfl, SlotInvariant.initial⟩
    exact (logging_thread t debug settingsLevel (levels t)).mono fun _ _ same => by rw [same]
  obtain ⟨stages, follows, names, inv⟩ := Machine.staged_run
    (fun stages s t op r allowed _ legal kept => slots_step stages s t op r allowed legal kept)
    run start
  have held (t : ι) (i : Nat) (owns : Owns t i pool.state.events) :
      ∃ f, (stages t).held = some (i, f) := (inv.owns t i).mp owns
  have free (t : ι) (rest : List Int32)
      (outside : pool.progs t = logThread t debug settingsLevel rest) :
      (stages t).held = none := by
    have here := follows t
    rw [outside] at here
    exact logThread_outside t here
  constructor
  · intro t t' i owns owns'
    obtain ⟨f, has⟩ := held t i owns
    obtain ⟨f', has'⟩ := held t' i owns'
    exact inv.alone t t' i f f' has has'
  · intro t i owns
    obtain ⟨f, has⟩ := held t i owns
    exact inv.range t i f has
  · intro i
    rw [Option.ne_none_iff_exists']
    simp only [inv.slot, inv.owns]
    exact exists_comm
  · intro t i f opened
    refine (inv.old t i f opened).symm.imp_right fun has => ?_
    exact ⟨(inv.new t i f has).2, (inv.owns t i).mpr ⟨f, has⟩, (inv.slot i f).mpr ⟨t, has⟩⟩
  · exact inv.known
  · intro t rest outside
    constructor
    · intro i owns
      obtain ⟨f, has⟩ := held t i owns
      rw [free t rest outside] at has
      cases has
    · intro i f opened
      refine (inv.old t i f opened).resolve_left fun has => ?_
      have none : (stages t).held = none := free t rest outside
      rw [Function.comp_apply, none] at has
      cases has

def logAnswer (s : LogState Bool) : (op : LogOp Bool) → op.Res
  | .openSlot _ i => if s.logFiles i = none ∧ s.events = [] then some 7 else none
  | .printSlot _ _ _ | .printStdout _ _ | .closeSlot _ _ => ()

theorem logAnswer_legal (s : LogState Bool) (op : LogOp Bool) :
    (logMachine Bool).Legal s op (logAnswer s op) := by
  cases op with
  | openSlot self i =>
      intro f member
      rw [logAnswer] at member
      split at member
      · rename_i free
        refine ⟨free.1, fun thread j => ?_⟩
        rw [free.2]
        exact List.not_mem_nil
      · cases member
  | _ => trivial

theorem log_slots_small :
    SlotDiscipline false 6 ((logMachine Bool).schedule (fun _ _ => true) logAnswer
      (logPool false 6 fun _ => [6]) [true, false, false, true, true]) :=
  log_slots false 6 (fun _ => [6]) _ (Machine.schedule_run logAnswer_legal _ _)

end Ximg
