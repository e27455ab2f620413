import Ximg.Library.BusyWaiting
import Ximg.Zlog

/-!
# The log, one instruction at a time

The sections of the log as their instructions, with the loop that takes a lock. Threads are named as
they are for the calls of whole sections.
-/

namespace Ximg.SpinLog
open Calls

inductive Piece where
  | stamp
  | threadId
  | level (level : Int32)
  | text (bytes : List UInt8)
  | newline
deriving DecidableEq

/-- The arguments of `log_printf0`: the format, and what `vfprintf` makes of it. -/
structure Message where
  level : Int32
  fmt : List UInt8
  text : List UInt8
  nonempty : fmt ≠ []

inductive SlotOp (ι : Type) where
  /-- `__sync_fetch_and_or` of the lock of a slot and 1 -/
  | fetchAndOr (i : Nat)
  /-- `__sync_and_and_fetch` of the lock of a slot and 0 -/
  | andAndFetch (i : Nat)
  | load (i : Nat)
  | store (i : Nat) (file : Option Nat)
  | fopen (self : ι) (i : Nat)
  /-- Writes to a file, or to `stdout`. -/
  | fprintf (self : ι) (fp : Option Nat) (piece : Piece)
  | fflush (file : Option Nat)
  | fclose (self : ι) (i : Nat) (file : Option Nat)

@[reducible] def SlotOp.Res {ι : Type} : SlotOp ι → Type
  | fetchAndOr _ | andAndFetch _ => BitVec 64
  | load _ | fopen _ _ => Option Nat
  | store _ _ | fprintf _ _ _ | fflush _ | fclose _ _ _ => Unit

abbrev Slots (ι : Type) : Signature := ⟨SlotOp ι, SlotOp.Res⟩

/-! ## Functions -/

section Functions
variable {ι : Type} (self : ι)

def slotOp (op : SlotOp ι) : Prog (Slots ι) op.Res := .perform (S := Slots ι) op

/-- The loop of `spin_lock` goes round while the word was not 0. -/
def again : (op : SlotOp ι) → op.Res → Bool
  | .fetchAndOr _, old => old ≠ 0
  | _, _ => false

/-- The call is made again as `again` tells. -/
def spinLock (i : Nat) : Prog (Slots ι) Unit := do
  let _ ← slotOp (.fetchAndOr i)
  return ()

def spinUnlock (i : Nat) : Prog (Slots ι) Unit := do
  let _ ← slotOp (.andAndFetch i)
  return ()

def logOpenLoop : Nat → Nat → Prog (Slots ι) Int
  | 0, _ => return LOG_INVALID
  | left + 1, i => do
      spinLock i
      match ← slotOp (.load i) with
      | some _ => do
          spinUnlock i
          logOpenLoop left (i + 1)
      | none => do
          let file ← slotOp (.fopen self i)
          slotOp (.store i file)
          match ← slotOp (.load i) with
          | some _ => do
              spinUnlock i
              return i
          | none => do
              spinUnlock i
              logOpenLoop left (i + 1)

def logOpen : Prog (Slots ι) Int := logOpenLoop self (MAX_LOGS + 1 - LOG_USER) LOG_USER

def clampLevel (logLevel : Int32) : Int32 :=
  if logLevel > LOG_LEVEL_DEBUG then LOG_LEVEL_DEBUG
  else if logLevel < LOG_LEVEL_FATAL then LOG_LEVEL_FATAL
  else logLevel

def printLine (debug : Bool) (fp : Option Nat) (message : Message) : Prog (Slots ι) Unit := do
  slotOp (.fprintf self fp .stamp)
  if debug then slotOp (.fprintf self fp .threadId)
  slotOp (.fprintf self fp (.level (clampLevel message.level)))
  slotOp (.fprintf self fp (.text message.text))
  if message.fmt.getLast message.nonempty ≠ 10 then slotOp (.fprintf self fp .newline)

def logPrintf0 (debug : Bool) (logId : Int) (message : Message) : Prog (Slots ι) Unit :=
  if logValid logId = 0 then printLine self debug none message
  else do
    spinLock logId.toNat
    match ← slotOp (.load logId.toNat) with
    | none => spinUnlock logId.toNat
    | some f => do
        printLine self debug (some f) message
        slotOp (.fflush (some f))
        spinUnlock logId.toNat

def logFlush (logId : Int) : Prog (Slots ι) Unit :=
  if logValid logId = 0 then return ()
  else do
    spinLock logId.toNat
    match ← slotOp (.load logId.toNat) with
    | none => spinUnlock logId.toNat
    | some _ => do
        let file ← slotOp (.load logId.toNat)
        slotOp (.fflush file)
        spinUnlock logId.toNat

def logClose (logId : Int) : Prog (Slots ι) Unit :=
  if logValid logId = 0 then return ()
  else do
    spinLock logId.toNat
    match ← slotOp (.load logId.toNat) with
    | none => spinUnlock logId.toNat
    | some _ => do
        let file ← slotOp (.load logId.toNat)
        slotOp (.fclose self logId.toNat file)
        slotOp (.store logId.toNat none)
        spinUnlock logId.toNat

end Functions

/-! ## Locks, slots and files -/

/-- The words of the locks, the slots, the events with the newest first, and what was written to each
file, with the newest last. -/
structure State (ι : Type) where
  spin : Nat → BitVec 64
  logFiles : Nat → Option Nat
  events : List (LogEvent ι)
  written : Nat → List (ι × Piece)

def logInit (ι : Type) : State ι := ⟨fun _ => 0, fun _ => none, [], fun _ => []⟩

namespace State
variable {ι : Type}

def Legal (s : State ι) : (op : SlotOp ι) → op.Res → Prop
  | .fetchAndOr i, old => old = s.spin i
  | .andAndFetch _, new => new = 0
  | .load i, file => file = s.logFiles i
  | .fopen _ _, file => ∀ f ∈ file, ∀ thread j, LogEvent.opened thread j f ∉ s.events
  | _, _ => True

/-- A line counts as printed once its level is. -/
def print (self : ι) (fp : Option Nat) : Piece → List (LogEvent ι)
  | .level level => [.printed self fp level]
  | _ => []

def effect (s : State ι) : (op : SlotOp ι) → op.Res → State ι
  | .fetchAndOr i, _ => { s with spin := Function.update s.spin i (s.spin i ||| 1) }
  | .andAndFetch i, _ => { s with spin := Function.update s.spin i (s.spin i &&& 0) }
  | .load _, _ | .fflush _, _ | .fopen _ _, none => s
  | .store i file, _ => { s with logFiles := Function.update s.logFiles i file }
  | .fopen self i, some f => { s with events := .opened self i f :: s.events }
  | .fprintf self none piece, _ => { s with events := print self none piece ++ s.events }
  | .fprintf self (some f) piece, _ =>
      { s with
        events := print self (some f) piece ++ s.events
        written := Function.update s.written f (s.written f ++ [(self, piece)]) }
  | .fclose self i file, _ => { s with events := .closed self i file :: s.events }

end State

def spinMachine (ι : Type) : Machine (Slots ι) (State ι) := ⟨State.Legal, State.effect⟩

/-! ## Clients -/

inductive Request where
  | logOpen
  | logPrintf0 (logId : Int) (message : Message)
  | logFlush (logId : Int)
  | logClose (logId : Int)

@[reducible] def Request.Res : Request → Type
  | logOpen => Int
  | logPrintf0 _ _ | logFlush _ | logClose _ => Unit

abbrev Requests : Signature := ⟨Request, Request.Res⟩

section Clients
variable {ι α : Type}

def request (debug : Bool) (self : ι) : (r : Request) → Prog (Slots ι) r.Res
  | .logOpen => logOpen self
  | .logPrintf0 logId message => logPrintf0 self debug logId message
  | .logFlush logId => logFlush logId
  | .logClose logId => logClose self logId

/-- The same with whole sections, where a flush is nothing. -/
def sectionRequest (self : ι) : (r : Request) → Prog (Log ι) r.Res
  | .logOpen => Ximg.logOpen self
  | .logPrintf0 logId message => Ximg.logPrintf0 self logId message.level
  | .logFlush _ => return ()
  | .logClose logId => Ximg.logClose self logId

def spinPool (debug : Bool) (clients : ι → Prog Requests α) : Pool (Slots ι) ι α (State ι) :=
  ⟨fun t => Prog.translate (request debug t) (clients t), logInit ι⟩

def sectionPool (clients : ι → Prog Requests α) : Pool (Log ι) ι α (LogState ι) :=
  ⟨fun t => Prog.translate (sectionRequest t) (clients t), Ximg.logInit ι⟩

end Clients
end Ximg.SpinLog
