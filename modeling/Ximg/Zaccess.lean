import Ximg.Library.Text
import Mathlib.Tactic.SplitIfs

/-!
# Access rules

The parser of the configured rule string and the walk over the rules. The parser works on the heap
memory that holds its copy of the string: pointers are offsets into it, and pointer differences are
taken modulo the size of an address.
-/

namespace Ximg
open Text

def ZIMG_OK : Int := 0
def ZIMG_ERROR : Int := -1
def ZIMG_FORBIDDEN : Int := -2
def INADDR_NONE : UInt32 := 0xffffffff

structure ZimgRule where
  mask : UInt32
  addr : UInt32
  deny : UInt32
  deriving DecidableEq, Repr

structure ZimgAccessConf where
  n : UInt32
  rules : List ZimgRule

/-- What is added to a pointer or taken from one stays in the address space. -/
def wrap (p : Int) : Nat := (p % 2 ^ 64).toNat

theorem wrap_natCast {n : Nat} (small : n < 2 ^ 64) : wrap (n : Int) = n := by
  rw [wrap, Int.emod_eq_of_lt (Int.natCast_nonneg n) (by exact_mod_cast small), Int.toNat_natCast]

theorem wrap_sub {m n : Nat} (small : m < 2 ^ 64) (le : n ≤ m) :
    wrap ((m : Int) - n) = m - n := by
  rw [← Int.natCast_sub le]
  exact wrap_natCast (by omega)

/-- The memory between two offsets, as a loop from one to the other reads it. -/
def span (mem : Bytes) (start last : Nat) : Bytes := (mem.drop start).take (last - start)

def strchrLoop (c : UInt8) : Bytes → Nat → Option Nat
  | [], _ => none
  | d :: rest, p => if d = c then some p else if d = 0 then none else strchrLoop c rest (p + 1)

def strchr (mem : Bytes) (start : Nat) (c : UInt8) : Option Nat :=
  strchrLoop c (mem.drop start) start

def atoiLoop : Int32 → Bytes → Int32
  | value, [] => if value < 0 then -1 else value
  | value, c :: line =>
      if c < 48 ∨ c > 57 then -1 else atoiLoop (value * 10 + (c.toUInt32 - 48).toInt32) line

def zimgAtoi (line : Bytes) : Int32 := if line = [] then -1 else atoiLoop 0 line

def zimgStrlchr (mem : Bytes) (p last : Nat) (c : UInt8) : Option Nat :=
  ((span mem p last).findIdx? (· == c)).map (p + ·)

def htonl (a : UInt32) : UInt32 :=
  ((a &&& 0xff) <<< 24) ||| ((a &&& 0xff00) <<< 8) ||| ((a &&& 0xff0000) >>> 8) ||| (a >>> 24)

def inetAddrLoop : UInt32 → UInt32 → UInt32 → Bytes → UInt32
  | addr, octet, n, [] =>
      if n = 3 ∧ octet < 256 then htonl ((addr <<< 8) + octet) else INADDR_NONE
  | addr, octet, n, c :: text =>
      if c ≥ 48 ∧ c ≤ 57 then inetAddrLoop addr (octet * 10 + (c.toUInt32 - 48)) n text
      else if c = dot ∧ octet < 256 then inetAddrLoop ((addr <<< 8) + octet) 0 (n + 1) text
      else INADDR_NONE

def zimgInetAddr (mem : Bytes) (text len : Nat) : UInt32 :=
  inetAddrLoop 0 0 0 (span mem text (wrap (text + len)))

/-- The stored rule, or nothing for `ZIMG_ERROR`. -/
def stor (mem : Bytes) (text textLen : Nat) (rule : ZimgRule) : Option ZimgRule :=
  let last := wrap (text + textLen)
  let mask := zimgStrlchr mem text last slash
  let len := wrap ((mask.getD last : Int) - text)
  let addr := zimgInetAddr mem text len
  if addr = INADDR_NONE then none
  else match mask with
    | none => some { rule with addr := addr, mask := 0xffffffff }
    | some mask =>
        let shift := zimgAtoi (span mem (mask + 1) last)
        if shift = -1 then none
        else if shift > 32 then none
        else
          let m := if shift ≠ 0 then htonl (0xffffffff <<< (32 - shift).toUInt32) else 0
          some { rule with addr := addr &&& m, mask := m }

def confGetRule (mem : Bytes) (mode stop : Nat) : Option ZimgRule :=
  match strchr mem mode 32 with
  | none => none
  | some sp =>
      let rule : ZimgRule := ⟨0, 0, if mem.getD mode 0 = 100 then 1 else 0⟩
      let range := sp + 1
      let rangeLen := wrap ((stop : Int) - range)
      if rangeLen = 3 ∧ (mem.drop range).take 3 = ascii "all" then some rule
      else stor mem range rangeLen rule

theorem strchrLoop_ge {c : UInt8} {rest : Bytes} {start p : Nat}
    (h : strchrLoop c rest start = some p) : start ≤ p := by
  induction rest generalizing start with
  | nil => cases h
  | cons d rest ih =>
      simp only [strchrLoop] at h
      split_ifs at h
      · exact (Option.some.inj h).le
      · exact (Nat.le_succ start).trans (ih h)

def confGetRulesLoop (mem : Bytes) (accLen start : Nat) (rules : List ZimgRule) :
    List ZimgRule :=
  if start ≤ accLen then
    match _hp : strchr mem start 59 with
    | some stop =>
        confGetRulesLoop mem accLen (stop + 1) ((confGetRule mem start stop).toList ++ rules)
    | none =>
        confGetRulesLoop mem accLen (accLen + 1) ((confGetRule mem start accLen).toList ++ rules)
  else rules
termination_by accLen + 1 - start
decreasing_by
  · have := strchrLoop_ge _hp
    omega
  · omega

/-- The rules of a string whose heap copy is followed by `beyond`. -/
def confGetRules (accStr beyond : Bytes) : ZimgAccessConf :=
  let rules := confGetRulesLoop (accStr ++ beyond) accStr.length 0 []
  ⟨UInt32.ofNat rules.length, rules⟩

def accessWalk (addr : UInt32) : List ZimgRule → Int
  | [] => ZIMG_FORBIDDEN
  | rule :: rules =>
      if addr &&& rule.mask = rule.addr then
        if rule.deny ≠ 0 then ZIMG_FORBIDDEN else ZIMG_OK
      else accessWalk addr rules

def zimgAccessInet (cf : ZimgAccessConf) (addr : UInt32) : Int :=
  if cf.rules = [] then ZIMG_OK else accessWalk addr cf.rules

end Ximg
