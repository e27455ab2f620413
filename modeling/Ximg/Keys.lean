import Ximg.StoreMap

/-!
# Keys of renditions

The cache and the backends keep a rendition under a key that spells what was asked for, cut to the
key's buffer.
-/

namespace Ximg
open Text

variable (settings : Settings)

inductive Rendition where
  | script (type : Bytes)
  | original
  | arguments (numbers : List Int32) (fmt : Bytes)
  deriving DecidableEq

def ZimgReq.numbers (req : ZimgReq) : List Int32 :=
  [req.width, req.height, req.proportion, req.gray, req.x, req.y, req.rotate, req.quality]

def requested (req : ZimgReq) : Rendition :=
  match scriptType settings req with
  | some type => .script type.bytes
  | none => if req.original then .original else .arguments req.numbers req.fmt.bytes

def numbersText (numbers : List Int32) : Bytes :=
  ended colon (numbers.map fun argv => decimal argv.toInt)

def Rendition.text : Rendition → Bytes
  | script type => type
  | original => []
  | arguments numbers fmt => numbersText numbers ++ fmt

/-- What the buffer of a key has left behind the MD5 and a colon. -/
def keyRoom : Nat := 94

/-! ## The text of a key -/

theorem take_take_append (k : Nat) (s t : Bytes) : (s.take k ++ t).take k = (s ++ t).take k := by
  rw [List.take_append, List.take_append, List.take_take, min_self, List.length_take]
  congr 2
  omega

theorem genKeyArgs_text {key : Bytes} (fits : key.length < CACHE_KEY_SIZE) (args : List Int32) :
    genKeyArgs key args =
      (key ++ args.flatMap fun argv => colon :: decimal argv.toInt).take 127 := by
  induction args generalizing key with
  | nil =>
      rw [List.flatMap_nil, List.append_nil, List.take_of_length_le (Nat.le_of_lt_succ fits)]
      rfl
  | cons argv args ih =>
      have mark : ascii ":" = [colon] := rfl
      have idle (s : Bytes) : snprintf CACHE_KEY_SIZE (snprintf CACHE_KEY_SIZE s) = s.take 127 := by
        simp [snprintf, cut, CACHE_KEY_SIZE, List.take_take]
      rw [genKeyArgs, idle, ih (by rw [List.length_take, CACHE_KEY_SIZE]; omega),
        take_take_append, List.flatMap_cons, mark]
      simp only [List.append_assoc, List.cons_append, List.nil_append]

theorem numbersText_shift (numbers : List Int32) :
    (numbers.flatMap fun argv => colon :: decimal argv.toInt) ++ [colon] =
      colon :: numbersText numbers := by
  induction numbers with
  | nil => rfl
  | cons argv numbers ih =>
      rw [List.flatMap_cons, List.append_assoc, ih]
      simp [numbersText, ended]

theorem requested_cases (req : ZimgReq) :
    (∃ type, scriptType settings req = some type ∧
      requested settings req = .script type.bytes) ∨
    (scriptType settings req = none ∧ req.original ∧ requested settings req = .original) ∨
    (scriptType settings req = none ∧ ¬req.original ∧
      requested settings req = .arguments req.numbers req.fmt.bytes) := by
  unfold requested
  cases script : scriptType settings req with
  | some type => exact .inl ⟨type, rfl, rfl⟩
  | none =>
      by_cases original : req.original
      · exact .inr (.inl ⟨rfl, original, if_pos original⟩)
      · exact .inr (.inr ⟨rfl, original, if_neg original⟩)

theorem rspCacheKey_bare {req : ZimgReq} (bare : requested settings req = .original) :
    rspCacheKey settings req = req.md5.bytes := by
  obtain ⟨type, -, made⟩ | ⟨script, original, -⟩ | ⟨-, -, made⟩ := requested_cases settings req
  · cases made.symm.trans bare
  · exact rspCacheKey_original script original
  · cases made.symm.trans bare

theorem rspCacheKey_text {req : ZimgReq} (other : requested settings req ≠ .original) :
    rspCacheKey settings req =
      req.md5.bytes ++ colon :: (requested settings req).text.take keyRoom := by
  have size := req.md5.length
  have mark : ascii ":" = [colon] := rfl
  have front (s : Bytes) : (req.md5.bytes ++ colon :: s).take 127 =
      req.md5.bytes ++ colon :: s.take keyRoom := by
    rw [List.take_append, List.take_of_length_le (by omega), size]
    rfl
  obtain ⟨type, script, made⟩ | ⟨-, -, made⟩ | ⟨script, changed, made⟩ :=
    requested_cases settings req
  · rw [rspCacheKey, script, made]
    dsimp only
    rw [mark, List.append_assoc]
    exact front type.bytes
  · exact absurd made other
  · have fits : snprintf CACHE_KEY_SIZE req.md5.bytes = req.md5.bytes := by
      rw [snprintf, cut_eq_self]
      rw [size]
      decide
    rw [rspCacheKey, script, made]
    dsimp only
    rw [if_neg changed, genKey, fits, genKeyArgs_text (by rw [size]; decide)]
    simp only [snprintf, cut, CACHE_KEY_SIZE, List.take_take, mark, List.append_assoc,
      Nat.reduceSub, min_self]
    rw [take_take_append, List.append_assoc, ← List.append_assoc _ [colon], ← ZimgReq.numbers,
      numbersText_shift, List.cons_append, front]
    rfl

/-! ## Reading a key back -/

theorem numbersText_front {numbers numbers' : List Int32} {s s' : Bytes}
    (count : numbers.length = numbers'.length)
    (h : numbersText numbers ++ s <+: numbersText numbers' ++ s') :
    numbers = numbers' ∧ s <+: s' := by
  have plain (ns : List Int32) : ∀ w ∈ ns.map fun argv => decimal argv.toInt, colon ∉ w := by
    intro w member inside
    obtain ⟨argv, -, rfl⟩ := List.mem_map.mp member
    rcases decimal_chars _ colon inside with same | digit
    · exact absurd same (by decide)
    · exact absurd digit (by decide)
  obtain ⟨same, tail⟩ := ended_prefix (plain numbers) (plain numbers') (by simpa using count) h
  have inj : Function.Injective fun argv : Int32 => decimal argv.toInt :=
    fun a b eq => Int32.toInt_inj.mp (decimal_inj eq)
  exact ⟨List.map_injective_iff.mpr inj same, tail⟩

theorem numbers_read {numbers numbers' : List Int32} {f f' : Bytes}
    (count : numbers.length = numbers'.length)
    (fits : (numbersText numbers).length ≤ keyRoom)
    (same : (numbersText numbers ++ f).take keyRoom = (numbersText numbers' ++ f').take keyRoom) :
    numbers = numbers' := by
  rw [List.take_append, List.take_of_length_le fits] at same
  exact (numbersText_front count (same ▸ List.take_prefix _ _)).1

/-! ## Which keys are different -/

/-- The texts still differ where the key is cut. -/
def Separated : Rendition → Rendition → Prop
  | .script type, .script type' => type.take keyRoom = type'.take keyRoom → type = type'
  | .arguments numbers fmt, .arguments numbers' fmt' =>
      (numbers = numbers' →
        fmt.take (keyRoom - (numbersText numbers).length) =
          fmt'.take (keyRoom - (numbersText numbers).length) → fmt = fmt') ∧
      (keyRoom < (numbersText numbers).length → keyRoom < (numbersText numbers').length →
        (numbersText numbers).take keyRoom = (numbersText numbers').take keyRoom →
        numbers = numbers')
  | .script type, .arguments numbers fmt | .arguments numbers fmt, .script type =>
      type.take keyRoom ≠ (numbersText numbers ++ fmt).take keyRoom
  | .original, _ | _, .original => True

theorem arguments_separated {numbers numbers' : List Int32} {f f' : Bytes}
    (count : numbers.length = numbers'.length) :
    ((numbersText numbers ++ f).take keyRoom = (numbersText numbers' ++ f').take keyRoom →
        numbers = numbers' ∧ f = f') ↔
      Separated (.arguments numbers f) (.arguments numbers' f') := by
  constructor
  · intro inj
    constructor
    · rintro rfl close
      refine (inj ?_).2
      rw [List.take_append, List.take_append, close]
    · intro long long' close
      refine (inj ?_).1
      rw [List.take_append_of_le_length long.le, List.take_append_of_le_length long'.le, close]
  · rintro ⟨formats, cutNumbers⟩ same
    have numbersSame : numbers = numbers' := by
      by_cases fits : (numbersText numbers).length ≤ keyRoom
      · exact numbers_read count fits same
      by_cases fits' : (numbersText numbers').length ≤ keyRoom
      · exact (numbers_read count.symm fits' same.symm).symm
      · rw [List.take_append_of_le_length (by omega), List.take_append_of_le_length (by omega)]
          at same
        exact cutNumbers (by omega) (by omega) same
    subst numbersSame
    rw [List.take_append, List.take_append] at same
    exact ⟨rfl, formats rfl (List.append_cancel_left same)⟩

/-- Two requests for one image have different keys, or ask for the same rendition, exactly when
what they ask for still differs where a key is cut. -/
theorem keys_separate (req req' : ZimgReq) (same : req.md5 = req'.md5) :
    (rspCacheKey settings req = rspCacheKey settings req' →
        requested settings req = requested settings req') ↔
      Separated (requested settings req) (requested settings req') := by
  have count : req.numbers.length = req'.numbers.length := rfl
  have size (s : Bytes) : req'.md5.bytes ≠ req'.md5.bytes ++ colon :: s := by
    intro h
    have := congrArg List.length h
    simp at this
  -- a key that is not bare is compared behind the MD5
  have keys (other : requested settings req ≠ .original)
      (other' : requested settings req' ≠ .original) :
      rspCacheKey settings req = rspCacheKey settings req' ↔
        (requested settings req).text.take keyRoom =
          (requested settings req').text.take keyRoom := by
    rw [rspCacheKey_text settings other, rspCacheKey_text settings other', same]
    simp
  by_cases bare : requested settings req = .original
  · by_cases bare' : requested settings req' = .original
    · simp [bare, bare', Separated]
    · rw [rspCacheKey_bare settings bare, rspCacheKey_text settings bare', same, bare]
      simp [Separated]
  by_cases bare' : requested settings req' = .original
  · rw [rspCacheKey_bare settings bare', rspCacheKey_text settings bare, same, bare']
    cases h : requested settings req <;> simp [Separated]
  rw [keys bare bare']
  obtain ⟨type, -, made⟩ | ⟨-, -, made⟩ | ⟨-, -, made⟩ := requested_cases settings req
  · obtain ⟨type', -, made'⟩ | ⟨-, -, made'⟩ | ⟨-, -, made'⟩ := requested_cases settings req'
    · simp [made, made', Rendition.text, Separated]
    · exact absurd made' bare'
    · simp [made, made', Rendition.text, Separated]
  · exact absurd made bare
  · obtain ⟨type', -, made'⟩ | ⟨-, -, made'⟩ | ⟨-, -, made'⟩ := requested_cases settings req'
    · simp [made, made', Rendition.text, Separated, eq_comm]
    · exact absurd made' bare'
    · rw [made, made', ← arguments_separated count]
      simp [Rendition.text]

theorem keys_separate_small :
    let req := smallReq (md5Of (ascii "a")) 5
    let req' := smallReq (md5Of (ascii "a")) 6
    (rspCacheKey (smallSettings 1 1) req = rspCacheKey (smallSettings 1 1) req' →
        requested (smallSettings 1 1) req = requested (smallSettings 1 1) req') ↔
      Separated (requested (smallSettings 1 1) req) (requested (smallSettings 1 1) req') :=
  keys_separate (smallSettings 1 1) _ _ rfl

def scriptSettings : Settings := { smallSettings 1 1 with scriptOn := 1 }

/-- What the handler makes of `t=<type>`. -/
def scriptReq (md5 : Md5) (type : CString) : ZimgReq :=
  { smallReq md5 0 with type := some type, proportion := 1, x := -1, y := -1, quality := 75 }

/-- What the handler makes of `w=5&p=0&f=none`. -/
def widthReq (md5 : Md5) : ZimgReq := { smallReq md5 5 with x := -1, y := -1, quality := 75 }

/-- The name of a script can spell the arguments of another request. -/
theorem keys_collide :
    let req := scriptReq (md5Of (ascii "a")) ⟨ascii "5:0:0:0:-1:-1:0:75:none", by decide⟩
    let req' := widthReq (md5Of (ascii "a"))
    req.md5 = req'.md5 ∧ rspCacheKey scriptSettings req = rspCacheKey scriptSettings req' ∧
      requested scriptSettings req ≠ requested scriptSettings req' := by decide +kernel

end Ximg
