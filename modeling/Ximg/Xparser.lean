import Ximg.Library.Program
import Ximg.Library.Text

/-!
# The multipart parser

One turn of the loop for each state of the parser, with the callbacks as calls. The parser that
`/upload` uses is the library's, which has the same text.
-/

namespace Ximg
open Text Calls

inductive XState where
  | uninitialized
  | start
  | startBoundary
  | headerFieldStart
  | headerField
  | headersAlmostDone
  | headerValueStart
  | headerValue
  | headerValueAlmostDone
  | partDataStart
  | partData
  | partDataAlmostBoundary
  | partDataBoundary
  | partDataAlmostEnd
  | partDataEnd
  | partDataFinalHyphen
  | finished
  deriving DecidableEq

inductive NotifyCb where
  | partDataBegin
  | headersComplete
  | partDataEnd
  | bodyEnd
  deriving DecidableEq

inductive DataCb where
  | headerField
  | headerValue
  | chunkData
  deriving DecidableEq

inductive MultipartOp where
  | buf (i : Nat)
  | boundary (i : Nat)
  | notify (cb : NotifyCb)
  /-- Passes the bytes of the buffer between two positions. -/
  | emit (cb : DataCb) (first last : Nat)
  deriving DecidableEq

@[reducible] def MultipartOp.Res : MultipartOp → Type
  | buf _ | boundary _ => UInt8
  | notify _ | emit _ _ _ => Int32

abbrev Multipart : Signature := ⟨MultipartOp, MultipartOp.Res⟩

structure MultipartLoop where
  xState : XState
  index : Nat
  i : Nat
  mark : Nat
  dmark : Nat
  dbmark : Nat

inductive Turn where
  | next (p : MultipartLoop)
  | returned (n : Nat)

section Turns
variable (boundaryLength : Nat) (p : MultipartLoop) (c : UInt8) (isLast : Bool)

/-- The end of a turn: `++i`. -/
def advance : Prog Multipart Turn := return .next { p with i := p.i + 1 }

/-- The end of a turn that has moved back: `i--`, then `++i`. -/
def again : Prog Multipart Turn := return .next { p with mark := p.i, xState := .partData }

def stop : Prog Multipart Turn := return .returned p.i

def xNotifyCb (cb : NotifyCb) (k : Prog Multipart Turn) : Prog Multipart Turn :=
  .call (.notify cb) fun r => if r ≠ 0 then stop p else k

def xEmitDataCb (cb : DataCb) (first last : Nat) (k : Prog Multipart Turn) :
    Prog Multipart Turn :=
  .call (.emit cb first last) fun r => if r ≠ 0 then stop p else k

def startBoundary : Prog Multipart Turn :=
  if p.index = boundaryLength then
    if c ≠ cr then stop p else advance { p with index := p.index + 1 }
  else if p.index = boundaryLength + 1 then
    if c ≠ lf then stop p
    else xNotifyCb p .partDataBegin
      (advance { p with index := 0, xState := .headerFieldStart })
  else .call (.boundary p.index) fun b =>
    if c ≠ b then stop p else advance { p with index := p.index + 1 }

/-- A letter: `tolower(c)` is between `a` and `z`. -/
def IsLetter (c : UInt8) : Prop := (97 ≤ c ∧ c ≤ 122) ∨ (65 ≤ c ∧ c ≤ 90)

instance (c : UInt8) : Decidable (IsLetter c) := inferInstanceAs (Decidable (_ ∨ _))

def headerField : Prog Multipart Turn :=
  if c = cr then advance { p with xState := .headersAlmostDone }
  else if c = minus then advance p
  else if c = 58 then
    xEmitDataCb p .headerField p.mark p.i (advance { p with xState := .headerValueStart })
  else if ¬IsLetter c then stop p
  else if isLast then xEmitDataCb p .headerField p.mark (p.i + 1) (advance p)
  else advance p

def headerValueLast : Prog Multipart Turn :=
  if isLast then xEmitDataCb p .headerValue p.mark (p.i + 1) (advance p) else advance p

def headerValue : Prog Multipart Turn :=
  if c = cr then
    xEmitDataCb p .headerValue p.mark p.i
      (headerValueLast { p with xState := .headerValueAlmostDone } isLast)
  else headerValueLast p isLast

def partData : Prog Multipart Turn :=
  if c = cr then
    advance { p with mark := p.i, dbmark := p.i, xState := .partDataAlmostBoundary }
  else advance p

def partDataBoundary : Prog Multipart Turn :=
  .call (.boundary p.index) fun b =>
    if b ≠ c then again p
    else if p.index + 1 = boundaryLength then
      xNotifyCb p .partDataEnd
        (advance { p with index := p.index + 1, xState := .partDataAlmostEnd })
    else advance { p with index := p.index + 1 }

def partDataFinalHyphen : Prog Multipart Turn :=
  xEmitDataCb p .chunkData p.dmark p.dbmark
    (if c = minus then xNotifyCb p .bodyEnd (advance { p with xState := .finished }) else stop p)

def partDataEnd : Prog Multipart Turn :=
  if c = lf then
    xEmitDataCb p .chunkData p.dmark p.dbmark
      (xNotifyCb p .partDataBegin (advance { p with xState := .headerFieldStart }))
  else stop p

/-- The body of the loop after `c` and `is_last` are set. -/
def multipartSwitch : Prog Multipart Turn :=
  match p.xState with
  | .start => startBoundary boundaryLength { p with index := 0, xState := .startBoundary } c
  | .startBoundary => startBoundary boundaryLength p c
  | .headerFieldStart => headerField { p with mark := p.i, xState := .headerField } c isLast
  | .headerField => headerField p c isLast
  | .headersAlmostDone =>
      if c ≠ lf then stop p else advance { p with xState := .partDataStart }
  | .headerValueStart =>
      if c = 32 then advance p
      else headerValue { p with mark := p.i, xState := .headerValue } c isLast
  | .headerValue => headerValue p c isLast
  | .headerValueAlmostDone =>
      if c ≠ lf then stop p else advance { p with xState := .headerFieldStart }
  | .partDataStart =>
      xNotifyCb p .headersComplete
        (partData { p with mark := p.i, dmark := p.i, xState := .partData } c)
  | .partData => partData p c
  | .partDataAlmostBoundary =>
      if c = lf then advance { p with xState := .partDataBoundary, index := 0 } else again p
  | .partDataBoundary => partDataBoundary boundaryLength p c
  | .partDataAlmostEnd =>
      if c = minus then advance { p with xState := .partDataFinalHyphen }
      else if c = cr then advance { p with xState := .partDataEnd }
      else stop p
  | .partDataFinalHyphen => partDataFinalHyphen p c
  | .partDataEnd => partDataEnd p c
  | .finished => advance p
  | .uninitialized => return .returned 0

end Turns

def multipartTurn (boundaryLength len : Nat) (p : MultipartLoop) : Prog Multipart Turn :=
  .call (.buf p.i) fun c => multipartSwitch boundaryLength p c (p.i = len - 1)

/-- The loop, for a number of turns: no result when they are used up. -/
def multipartLoop (boundaryLength len : Nat) :
    Nat → MultipartLoop → Prog Multipart (Option Nat)
  | 0, _ => return none
  | turns + 1, p =>
      if p.i < len then do
        match ← multipartTurn boundaryLength len p with
        | .next p => multipartLoop boundaryLength len turns p
        | .returned n => return some n
      else return some len

def xMultipartParserInit : MultipartLoop := ⟨.start, 0, 0, 0, 0, 0⟩

/-- Enough turns for a buffer: each position is met at most twice. -/
def multipartTurns (len : Nat) : Nat := 2 * len + 1

def xMultipartParserExecute (boundaryLength len : Nat) : Prog Multipart (Option Nat) :=
  multipartLoop boundaryLength len (multipartTurns len) xMultipartParserInit

def multipartParserExecute (boundaryLength len : Nat) : Prog Multipart (Option Nat) :=
  xMultipartParserExecute boundaryLength len

end Ximg
