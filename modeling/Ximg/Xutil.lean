import Ximg.Zutil

/-!
# Base64 and URL decoding
-/

namespace Ximg
open Text

def b64Int (ch : UInt8) : Nat :=
  if ch = 43 then 62
  else if ch = 47 then 63
  else if ch = 61 then 64
  else if ch > 47 ∧ ch < 58 then ch.toNat + 4
  else if ch > 64 ∧ ch < 91 then ch.toNat - 65
  else if ch > 96 ∧ ch < 123 then ch.toNat - 97 + 26
  else 0

def b64DecodeGroup (s0 s1 s2 s3 : Nat) : Bytes :=
  let first := UInt8.ofNat (((s0 &&& 255) <<< 2) + ((s1 &&& 0x30) >>> 4))
  let second := UInt8.ofNat (((s1 &&& 0x0F) <<< 4) + ((s2 &&& 0x3C) >>> 2))
  let third := UInt8.ofNat (((s2 &&& 0x03) <<< 6) + s3)
  if s2 ≠ 64 then
    if s3 ≠ 64 then [first, second, third] else [first, second]
  else [first]

def b64DecodeLoop : List Nat → Bytes → Bytes
  | _, [] => []
  | s, c :: input => match s ++ [b64Int c] with
      | [s0, s1, s2, s3] => b64DecodeGroup s0 s1 s2 s3 ++ b64DecodeLoop [] input
      | s => b64DecodeLoop s input

/-- The bytes written; their number is the result. -/
def b64Decode (input : Bytes) : Bytes := b64DecodeLoop [] input

def isxdigit (c : UInt8) : Bool := (hexValue c).isSome

/-- The loop from one position on, with the number of turns that `i < len` still allows. -/
def urlDecodeLoop : Nat → Bytes → Bytes
  | 0, _ | _, [] => []
  | turns + 1, c :: str =>
      if c = 37 then
        match str with
        | [] => c :: urlDecodeLoop turns str
        | [_] => urlDecodeLoop turns str
        | h :: l :: rest =>
            if isxdigit h ∧ isxdigit l then
              UInt8.ofNat (strtol16 0 [h, l]) :: urlDecodeLoop (turns - 2) rest
            else urlDecodeLoop turns str
      else c :: urlDecodeLoop turns str

/-- The bytes written; their number is the result. The length of the text is taken as an `int`. -/
def urlDecode (str : Bytes) : Bytes := urlDecodeLoop (Int32.ofNat str.length).toInt.toNat str

end Ximg
