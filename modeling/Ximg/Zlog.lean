import Ximg.Library.Program

/-!
# The log

A section that holds the lock of a slot is one call. A call names the thread that makes it and what
it did, so that a run can be told apart; the code keeps neither.
-/

namespace Ximg
open Calls

def MAX_LOGS : Nat := 100

def LOG_INVALID : Int := -1

def LOG_USER : Nat := 1

def LOG_LEVEL_FATAL : Int32 := 0

def LOG_LEVEL_DEBUG : Int32 := 7

inductive LogOp (ι : Type) where
  /-- Opens a file in a slot that is `NULL`: the new file, if there is one. -/
  | openSlot (self : ι) (i : Nat)
  | printSlot (self : ι) (i : Nat) (level : Int32)
  | printStdout (self : ι) (level : Int32)
  | closeSlot (self : ι) (i : Nat)

@[reducible] def LogOp.Res {ι : Type} : LogOp ι → Type
  | openSlot _ _ => Option Nat
  | printSlot _ _ _ | printStdout _ _ | closeSlot _ _ => Unit

abbrev Log (ι : Type) : Signature := ⟨LogOp ι, LogOp.Res⟩

/-! ## Functions -/

section Functions
variable {ι : Type} (self : ι)

def logOp (op : LogOp ι) : Prog (Log ι) op.Res := .perform (S := Log ι) op

def logValid (logId : Int) : Int := if logId < 0 ∨ logId > MAX_LOGS then 0 else 1

def logOpenLoop : Nat → Nat → Prog (Log ι) Int
  | 0, _ => return LOG_INVALID
  | left + 1, i => do
      match ← logOp (.openSlot self i) with
      | some _ => return i
      | none => logOpenLoop left (i + 1)

def logOpen : Prog (Log ι) Int := logOpenLoop self (MAX_LOGS + 1 - LOG_USER) LOG_USER

def logPrintf0 (logId : Int) (logLevel : Int32) : Prog (Log ι) Unit := do
  let level :=
    if logLevel > LOG_LEVEL_DEBUG then LOG_LEVEL_DEBUG
    else if logLevel < LOG_LEVEL_FATAL then LOG_LEVEL_FATAL
    else logLevel
  if logValid logId = 0 then logOp (.printStdout self level)
  else logOp (.printSlot self logId.toNat level)

def logClose (logId : Int) : Prog (Log ι) Unit :=
  if logValid logId = 0 then return () else logOp (.closeSlot self logId.toNat)

/-- The macro; a debug build prints whatever the level. -/
def LOG_PRINT (debug : Bool) (settingsLevel level : Int32) : Prog (Log ι) Unit :=
  if debug ∨ level ≤ settingsLevel then do
    let logId ← logOpen self
    logPrintf0 self logId level
    logClose self logId
  else return ()

def logThread (debug : Bool) (settingsLevel : Int32) : List Int32 → Prog (Log ι) Unit
  | [] => return ()
  | level :: levels => do
      LOG_PRINT self debug settingsLevel level
      logThread debug settingsLevel levels

end Functions

/-! ## Files -/

inductive LogEvent (ι : Type) where
  | opened (thread : ι) (i file : Nat)
  | printed (thread : ι) (file : Option Nat) (level : Int32)
  /-- `log_close` of a slot, and the file that it closed. -/
  | closed (thread : ι) (i : Nat) (file : Option Nat)

/-- The slots, and the events with the newest first. -/
structure LogState (ι : Type) where
  logFiles : Nat → Option Nat
  events : List (LogEvent ι)

def logInit (ι : Type) : LogState ι := ⟨fun _ => none, []⟩

namespace LogState
variable {ι : Type}

/-- `fopen` may fail, and opens no file twice. -/
def Legal (s : LogState ι) : (op : LogOp ι) → op.Res → Prop
  | .openSlot _ i, file => ∀ f ∈ file, s.logFiles i = none ∧
      ∀ thread j, LogEvent.opened thread j f ∉ s.events
  | _, _ => True

def effect (s : LogState ι) : (op : LogOp ι) → op.Res → LogState ι
  | .openSlot _ _, none => s
  | .openSlot self i, some f =>
      ⟨Function.update s.logFiles i (some f), .opened self i f :: s.events⟩
  | .printSlot self i level, _ =>
      if s.logFiles i = none then s
      else { s with events := .printed self (s.logFiles i) level :: s.events }
  | .printStdout self level, _ => { s with events := .printed self none level :: s.events }
  | .closeSlot self i, _ =>
      ⟨Function.update s.logFiles i none, .closed self i (s.logFiles i) :: s.events⟩

end LogState

def logMachine (ι : Type) : Machine (Log ι) (LogState ι) := ⟨LogState.Legal, LogState.effect⟩

end Ximg
