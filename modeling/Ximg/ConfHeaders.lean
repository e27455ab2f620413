import Ximg.AccessRanges
import Ximg.Zhttpd

/-!
# The configured headers

The headers string read as its segments, and what the parsers of the configuration read behind the
copy of their string.
-/

namespace Ximg
open Text

/-! ## One header -/

def splitColon (seg : Bytes) : Option (Bytes × Bytes) :=
  (seg.findIdx? (· == colon)).map fun i => (seg.take i, seg.drop (i + 1))

def headerOf (k v : Bytes) : ZimgHeader :=
  let keyed := k ++ (List.replicate 640 (0 : UInt8)).drop k.length
  ⟨keyed.take 128 ++ v ++ keyed.drop (128 + v.length)⟩

theorem splitColon_split {k : Bytes} (plain : colon ∉ k) (v : Bytes) :
    splitColon (k ++ colon :: v) = some (k, v) := by
  have after : (k ++ colon :: v).drop (k.length + 1) = v := by
    rw [← List.drop_drop, List.drop_left]
    rfl
  rw [splitColon, findIdx_split plain, Option.map_some, List.take_left, after]

theorem splitColon_none {seg : Bytes} (plain : colon ∉ seg) : splitColon seg = none := by
  rw [splitColon, findIdx_absent plain]
  rfl

theorem cString_take {pre text tail : Bytes} (plain : 0 ∉ text) :
    (cString (pre ++ text ++ tail) pre.length).take text.length = text := by
  have drop : (pre ++ text ++ tail).drop pre.length = text ++ tail := by
    rw [List.append_assoc, List.drop_left]
  have clean : ∀ c ∈ text, decide (c ≠ 0) = true :=
    fun c member => decide_eq_true fun zero => plain (zero ▸ member)
  rw [cString, drop, List.takeWhile_append_of_pos clean, List.take_left]

theorem strncpy_text (header : ZimgHeader) (dst : Nat) (pre : Bytes) {text : Bytes} (tail : Bytes)
    (plain : 0 ∉ text) :
    header.strncpy dst (pre ++ text ++ tail) pre.length text.length =
      if 640 < dst + text.length then none
      else some ⟨header.block.take dst ++ text ++ header.block.drop (dst + text.length)⟩ := by
  rw [ZimgHeader.strncpy, cString_take plain]
  dsimp only
  rw [Nat.sub_self, List.replicate_zero, List.append_nil]

theorem confGetHeader_colon {pre k v tail : Bytes} (plain : colon ∉ k) (clean : 0 ∉ k)
    (clean' : 0 ∉ v) (small : (pre ++ (k ++ colon :: v) ++ tail).length < 2 ^ 63) :
    confGetHeader (pre ++ (k ++ colon :: v) ++ tail) pre.length
        (pre.length + (k ++ colon :: v).length) =
      if 640 < k.length then none
      else if 640 < 128 + v.length then none
      else some (some (headerOf k v)) := by
  simp only [List.length_append, List.length_cons] at small
  have search : strchr (pre ++ (k ++ colon :: v) ++ tail) pre.length colon =
      some (pre.length + k.length) := by
    rw [strchr, List.append_assoc, List.drop_left, List.append_assoc, strchrLoop_skip _ _ plain clean]
    rfl
  have keyLen : wrap ((pre.length + k.length : Nat) - (pre.length : Int)) = k.length := by
    rw [wrap_sub (by omega) (by omega), Nat.add_sub_cancel_left]
  have valueLen : wrap ((pre.length + (k ++ colon :: v).length : Nat) -
      ((pre.length + k.length + 1 : Nat) : Int)) = v.length := by
    rw [List.length_append, List.length_cons, wrap_sub (by omega) (by omega)]
    omega
  have keyText : pre ++ (k ++ colon :: v) ++ tail = pre ++ k ++ (colon :: v ++ tail) := by simp
  have valueText : pre ++ (k ++ colon :: v) ++ tail = pre ++ k ++ [colon] ++ v ++ tail := by simp
  have valueAt : pre.length + k.length + 1 = (pre ++ k ++ [colon]).length := by
    simp only [List.length_append, List.length_singleton]
  have keyed := strncpy_text emptyHeader 0 pre (colon :: v ++ tail) clean
  rw [← keyText] at keyed
  rw [confGetHeader, search]
  simp only [keyLen, valueLen, keyed, Nat.zero_add]
  split
  · rfl
  · have valued := strncpy_text ⟨emptyHeader.block.take 0 ++ k ++
      emptyHeader.block.drop k.length⟩ 128 (pre ++ k ++ [colon]) tail clean'
    rw [← valueText, ← valueAt] at valued
    simp only [Option.bind_eq_bind, Option.bind_some, valued]
    split
    · rfl
    · rfl

theorem headerOf_strings {k v : Bytes} (clean : 0 ∉ k) (clean' : 0 ∉ v) (short : k.length < 128)
    (short' : v.length < 512) : (headerOf k v).key = k ∧ (headerOf k v).value = v := by
  have ended {text zeros : Bytes} (clean : 0 ∉ text) (rest : Bytes) (some : 0 < zeros.length)
      (zero : ∀ c ∈ zeros, c = 0) : (text ++ zeros ++ rest).takeWhile (· ≠ 0) = text := by
    have before : ∀ c ∈ text, decide (c ≠ 0) = true :=
      fun c member => decide_eq_true fun same => clean (same ▸ member)
    cases zeros with
    | nil => cases some
    | cons c zeros =>
        rw [List.append_assoc, List.takeWhile_append_of_pos before, zero c List.mem_cons_self]
        simp
  have front : (k ++ (List.replicate 640 (0 : UInt8)).drop k.length).take 128 =
      k ++ List.replicate (128 - k.length) 0 := by
    rw [List.take_append, List.take_of_length_le short.le, List.drop_replicate, List.take_replicate]
    congr 2
    omega
  have back : (k ++ (List.replicate 640 (0 : UInt8)).drop k.length).drop (128 + v.length) =
      List.replicate (512 - v.length) 0 := by
    rw [List.drop_append, List.drop_of_length_le (by omega), List.drop_replicate,
      List.drop_replicate, List.nil_append]
    congr 1
    omega
  have zeros (n : Nat) : ∀ c ∈ List.replicate n (0 : UInt8), c = 0 :=
    fun c member => List.eq_of_mem_replicate member
  have text : (headerOf k v).block =
      k ++ List.replicate (128 - k.length) 0 ++ (v ++ List.replicate (512 - v.length) 0) := by
    rw [headerOf]
    simp only [front, back, List.append_assoc]
  constructor
  · rw [ZimgHeader.key, cString, text, List.drop_zero]
    exact ended clean _ (by rw [List.length_replicate]; omega) (zeros _)
  · have room : (k ++ List.replicate (128 - k.length) (0 : UInt8)).length = 128 := by
      rw [List.length_append, List.length_replicate]
      omega
    have drop : (headerOf k v).block.drop 128 = v ++ List.replicate (512 - v.length) 0 ++ [] := by
      rw [text, List.drop_left' room, List.append_nil]
    rw [ZimgHeader.value, cString, drop]
    exact ended clean' [] (by rw [List.length_replicate]; omega) (zeros _)

/-- A segment without a colon is skipped, or takes the colon of a later one and is written past its
end. -/
theorem confGetHeader_colonless {pre seg tail : Bytes} (plain : colon ∉ seg) (clean : 0 ∉ seg)
    (small : (pre ++ seg ++ tail).length < 2 ^ 63) :
    confGetHeader (pre ++ seg ++ tail) pre.length (pre.length + seg.length) =
      match strchrLoop colon tail (pre.length + seg.length) with
      | none => some none
      | some _ => none := by
  have search : strchr (pre ++ seg ++ tail) pre.length colon =
      strchrLoop colon tail (pre.length + seg.length) := by
    rw [strchr, List.append_assoc, List.drop_left, strchrLoop_skip _ _ plain clean]
  rw [confGetHeader, search]
  cases found : strchrLoop colon tail (pre.length + seg.length) with
  | none => rfl
  | some value =>
      have after := strchrLoop_ge found
      have before := strchrLoop_lt found
      simp only [List.length_append] at small
      have long : 640 < 128 + wrap ((pre.length + seg.length : Nat) - ((value + 1 : Nat) : Int)) := by
        rw [wrap_below (by omega) (by omega)]
        omega
      simp only [ZimgHeader.strncpy, if_pos long, Option.bind_eq_bind]
      split <;> rfl

/-! ## All headers -/

theorem confGetHeadersLoop_done {mem : Bytes} {hdrLen start : Nat} (done : hdrLen < start)
    (headers : List ZimgHeader) : confGetHeadersLoop mem hdrLen start headers = some headers := by
  rw [confGetHeadersLoop, if_neg (by omega)]

theorem confGetHeadersLoop_found {mem : Bytes} {hdrLen start stop : Nat} (inside : start ≤ hdrLen)
    (found : strchr mem start semicolon = some stop) (headers : List ZimgHeader) :
    confGetHeadersLoop mem hdrLen start headers =
      (confGetHeader mem start stop).bind fun header =>
        confGetHeadersLoop mem hdrLen (stop + 1) (header.toList ++ headers) := by
  rw [confGetHeadersLoop, if_pos inside]
  split
  · rename_i other same
    cases same.symm.trans found
    rfl
  · rename_i none
    cases none.symm.trans found

theorem confGetHeadersLoop_last {mem : Bytes} {hdrLen start : Nat} (inside : start ≤ hdrLen)
    (absent : strchr mem start semicolon = none) (headers : List ZimgHeader) :
    confGetHeadersLoop mem hdrLen start headers =
      (confGetHeader mem start hdrLen).map fun header => header.toList ++ headers := by
  rw [confGetHeadersLoop, if_pos inside]
  split
  · rename_i found
    cases found.symm.trans absent
  · cases confGetHeader mem start hdrLen with
    | none => rfl
    | some header => exact confGetHeadersLoop_done (Nat.lt_succ_self _) _

def segmentHeader (seg : Bytes) : Option ZimgHeader :=
  (splitColon seg).map fun pair => headerOf pair.1 pair.2

def FitsHeader (seg : Bytes) : Prop :=
  ∀ pair ∈ splitColon seg, pair.1.length < 128 ∧ pair.2.length < 512

/-- No segment without a colon stands before one with a colon. -/
def ColonsFirst (segs : List Bytes) : Prop :=
  segs.Pairwise fun seg later => colon ∉ seg → colon ∉ later

theorem splitColon_cases {seg : Bytes} (fits : FitsHeader seg) :
    (colon ∉ seg ∧ segmentHeader seg = none) ∨
      ∃ k v, seg = k ++ colon :: v ∧ colon ∉ k ∧ k.length < 128 ∧ v.length < 512 ∧
        segmentHeader seg = some (headerOf k v) := by
  by_cases member : colon ∈ seg
  · obtain ⟨k, v, rfl, plain⟩ := List.eq_append_cons_of_mem member
    have split := splitColon_split plain v
    obtain ⟨short, short'⟩ := fits (k, v) split
    refine .inr ⟨k, v, rfl, plain, short, short', ?_⟩
    rw [segmentHeader, split]
    rfl
  · refine .inl ⟨member, ?_⟩
    rw [segmentHeader, splitColon_none member]
    rfl

theorem confGetHeader_segment (pre : Bytes) {seg : Bytes} (tail : Bytes) (clean : 0 ∉ seg)
    (fits : FitsHeader seg) (small : (pre ++ seg ++ tail).length < 2 ^ 63)
    (ordered : colon ∉ seg → ∀ start, strchrLoop colon tail start = none) :
    confGetHeader (pre ++ seg ++ tail) pre.length (pre.length + seg.length) =
      some (segmentHeader seg) := by
  obtain ⟨plain, none⟩ | ⟨k, v, rfl, plain, short, short', some⟩ := splitColon_cases fits
  · rw [confGetHeader_colonless plain clean small, ordered plain, none]
  · rw [List.mem_append, List.mem_cons, not_or, not_or] at clean
    rw [confGetHeader_colon plain clean.1 clean.2.2 small, if_neg (by omega), if_neg (by omega),
      some]

theorem strchrLoop_zero {c : UInt8} (other : c ≠ 0) {t : Bytes} (rest : Bytes) (absent : c ∉ t)
    (plain : 0 ∉ t) (start : Nat) : strchrLoop c (t ++ 0 :: rest) start = none := by
  rw [strchrLoop_skip _ _ absent plain, strchrLoop, if_neg other.symm, if_pos rfl]

theorem colon_segments (t : Bytes) :
    colon ∉ t ↔ ∀ seg ∈ t.splitOn semicolon, colon ∉ seg := by
  induction t using segments_induction semicolon with
  | last t _ split => rw [split, List.forall_mem_singleton]
  | more seg rest _ split ih =>
      have apart : colon ≠ semicolon := by decide
      rw [split, List.forall_mem_cons, ← ih]
      simp [apart]

section Turn
variable {pre seg t rest : Bytes} (cleanSeg : 0 ∉ seg) (cleanRest : 0 ∉ t)
include cleanSeg cleanRest

theorem confGetHeader_before (fits : FitsHeader seg)
    (small : (pre ++ (seg ++ semicolon :: t) ++ 0 :: rest).length < 2 ^ 63)
    (turn : colon ∉ seg → colon ∉ t) :
    confGetHeader (pre ++ (seg ++ semicolon :: t) ++ 0 :: rest) pre.length
      (pre.length + seg.length) = some (segmentHeader seg) := by
  have text : pre ++ (seg ++ semicolon :: t) ++ 0 :: rest =
      pre ++ seg ++ (semicolon :: t ++ 0 :: rest) := by simp
  rw [text] at small ⊢
  refine confGetHeader_segment pre _ cleanSeg fits small ?_
  intro plain start
  refine strchrLoop_zero (t := semicolon :: t) (by decide) rest ?_ ?_ start
  · simpa using ⟨by decide, turn plain⟩
  · simpa using ⟨by decide, cleanRest⟩

theorem confGetHeader_spills
    (small : (pre ++ (seg ++ semicolon :: t) ++ 0 :: rest).length < 2 ^ 63)
    (plain : colon ∉ seg) (member : colon ∈ t) :
    confGetHeader (pre ++ (seg ++ semicolon :: t) ++ 0 :: rest) pre.length
      (pre.length + seg.length) = none := by
  have text : pre ++ (seg ++ semicolon :: t) ++ 0 :: rest =
      pre ++ seg ++ (semicolon :: t ++ 0 :: rest) := by simp
  obtain ⟨i, found⟩ : ∃ i, (semicolon :: t).findIdx? (· == colon) = some i := by
    rw [← Option.isSome_iff_exists, List.findIdx?_isSome, List.any_eq_true]
    exact ⟨colon, List.mem_cons_of_mem _ member, by decide⟩
  have reached := strchrLoop_append (t := semicolon :: t) (0 :: rest) (pre.length + seg.length)
    (List.mem_cons_of_mem _ member) (by simpa using ⟨by decide, cleanRest⟩)
  rw [found, Option.map_some] at reached
  rw [text] at small ⊢
  rw [confGetHeader_colonless plain cleanSeg small, reached]

end Turn

theorem confGetHeadersLoop_segments (pre t rest : Bytes) (clean : 0 ∉ t)
    (small : (pre ++ t ++ 0 :: rest).length < 2 ^ 63)
    (fits : ∀ seg ∈ t.splitOn semicolon, FitsHeader seg) (headers : List ZimgHeader) :
    (ColonsFirst (t.splitOn semicolon) →
      confGetHeadersLoop (pre ++ t ++ 0 :: rest) (pre.length + t.length) pre.length headers =
        some (((t.splitOn semicolon).filterMap segmentHeader).reverse ++ headers)) ∧
    (¬ColonsFirst (t.splitOn semicolon) →
      confGetHeadersLoop (pre ++ t ++ 0 :: rest) (pre.length + t.length) pre.length headers =
        none) := by
  induction t using segments_induction semicolon generalizing pre headers with
  | last t absent split =>
      have nothing : strchr (pre ++ t ++ 0 :: rest) pre.length semicolon = none := by
        rw [strchr, List.append_assoc, List.drop_left]
        exact strchrLoop_zero (by decide) rest absent clean pre.length
      have here := confGetHeader_segment pre (0 :: rest) clean
        (fits t (split ▸ List.mem_singleton_self t)) small
        fun _ start => strchrLoop_zero (c := colon) (t := []) (by decide) rest (by simp) (by simp)
          start
      rw [split, confGetHeadersLoop_last (by omega) nothing, here]
      refine ⟨fun _ => ?_, fun other => absurd (List.pairwise_singleton _ _) other⟩
      cases header : segmentHeader t <;> simp [header]
  | more seg t first split ih =>
      obtain ⟨cleanSeg, cleanRest⟩ := not_mem_parts clean
      have found := strchr_segment pre t (0 :: rest) first cleanSeg
      have shift := segment_shift semicolon pre seg t (0 :: rest)
      have fitsRest : ∀ later ∈ t.splitOn semicolon, FitsHeader later :=
        fun later member => fits later (split ▸ List.mem_cons_of_mem _ member)
      obtain ⟨taken, refused⟩ := ih (pre ++ seg ++ [semicolon]) cleanRest (shift ▸ small) fitsRest
        ((segmentHeader seg).toList ++ headers)
      rw [← shift, ← segment_stop, ← segment_next] at taken refused
      have pairs : ColonsFirst (seg :: t.splitOn semicolon) ↔
          (colon ∉ seg → colon ∉ t) ∧ ColonsFirst (t.splitOn semicolon) := by
        rw [ColonsFirst, List.pairwise_cons, colon_segments t]
        exact and_congr_left fun _ => ⟨fun h plain later member => h later member plain,
          fun h later member plain => h plain later member⟩
      rw [split, pairs, confGetHeadersLoop_found (by omega) found]
      have fitsSeg := fits seg (split ▸ List.mem_cons_self)
      by_cases turn : colon ∉ seg → colon ∉ t
      · rw [confGetHeader_before cleanSeg cleanRest fitsSeg small turn, Option.bind_some,
          and_iff_right turn]
        refine ⟨fun ordered => (taken ordered).trans ?_, refused⟩
        cases header : segmentHeader seg <;> simp [header]
      · refine ⟨fun both => absurd both.1 turn, fun _ => ?_⟩
        push Not at turn
        rw [confGetHeader_spills cleanSeg cleanRest small turn.1 turn.2]
        rfl

theorem segment_clean {s : Bytes} (clean : 0 ∉ s) : ∀ seg ∈ s.splitOn semicolon, 0 ∉ seg := by
  induction s using segments_induction semicolon with
  | last s _ split =>
      rw [split, List.forall_mem_singleton]
      exact clean
  | more seg rest _ split ih =>
      obtain ⟨here, later⟩ := not_mem_parts clean
      rw [split, List.forall_mem_cons]
      exact ⟨here, ih later⟩

theorem segmentHeader_pairs {segs : List Bytes} (fits : ∀ seg ∈ segs, FitsHeader seg)
    (clean : ∀ seg ∈ segs, 0 ∉ seg) :
    (segs.filterMap segmentHeader).map (fun header => (header.key, header.value)) =
      segs.filterMap splitColon := by
  induction segs with
  | nil => rfl
  | cons seg segs ih =>
      have rest := ih (fun later member => fits later (List.mem_cons_of_mem _ member))
        fun later member => clean later (List.mem_cons_of_mem _ member)
      have cleanSeg := clean seg List.mem_cons_self
      obtain ⟨plain, none⟩ | ⟨k, v, rfl, plain, short, short', some⟩ :=
        splitColon_cases (fits seg List.mem_cons_self)
      · rw [List.filterMap_cons_none none, List.filterMap_cons_none (splitColon_none plain), rest]
      · rw [List.mem_append, List.mem_cons, not_or, not_or] at cleanSeg
        obtain ⟨key, value⟩ := headerOf_strings cleanSeg.1 cleanSeg.2.2 short short'
        rw [List.filterMap_cons_some some, List.filterMap_cons_some (splitColon_split plain v),
          List.map_cons, rest, key, value]

/-- When a zero byte follows the copy, the headers are the pairs of the segments, exactly when no
segment without a colon stands before one with a colon, and the pairs can be counted. -/
theorem headers_configured (s rest : Bytes) (clean : 0 ∉ s)
    (small : (s ++ 0 :: rest).length < 2 ^ 63)
    (fits : ∀ seg ∈ s.splitOn semicolon, FitsHeader seg) :
    (∃ conf, confGetHeaders s (0 :: rest) = some conf ∧
        conf.headers.map (fun header => (header.key, header.value)) =
          ((s.splitOn semicolon).filterMap splitColon).reverse ∧
        conf.n.toNat = ((s.splitOn semicolon).filterMap splitColon).length) ↔
      ColonsFirst (s.splitOn semicolon) ∧
        ((s.splitOn semicolon).filterMap splitColon).length < 2 ^ 32 := by
  have pairs := segmentHeader_pairs fits (segment_clean clean)
  have count := congrArg List.length pairs
  rw [List.length_map] at count
  obtain ⟨taken, refused⟩ := confGetHeadersLoop_segments [] s rest clean small fits []
  rw [List.append_nil, List.nil_append, List.length_nil, Nat.zero_add] at taken
  rw [List.nil_append, List.length_nil, Nat.zero_add] at refused
  by_cases ordered : ColonsFirst (s.splitOn semicolon)
  · rw [confGetHeaders, taken ordered, and_iff_right ordered, Option.map_some, List.length_reverse,
      count]
    constructor
    · rintro ⟨conf, same, -, number⟩
      rw [← Option.some.inj same, UInt32.toNat_ofNat'] at number
      rw [← number]
      exact Nat.mod_lt _ (by decide)
    · intro bound
      refine ⟨_, rfl, ?_, ?_⟩
      · rw [List.map_reverse, pairs]
      · exact UInt32.toNat_ofNat_of_lt' bound
  · rw [confGetHeaders, refused ordered]
    refine iff_of_false ?_ fun both => ordered both.1
    rintro ⟨conf, same, -⟩
    cases same

theorem headers_configured_small :
    (∃ conf, confGetHeaders (ascii "A:b;c;D:e:f") [0] = some conf ∧
        conf.headers.map (fun header => (header.key, header.value)) =
          (((ascii "A:b;c;D:e:f").splitOn semicolon).filterMap splitColon).reverse ∧
        conf.n.toNat = (((ascii "A:b;c;D:e:f").splitOn semicolon).filterMap splitColon).length) ↔
      ColonsFirst ((ascii "A:b;c;D:e:f").splitOn semicolon) ∧
        (((ascii "A:b;c;D:e:f").splitOn semicolon).filterMap splitColon).length < 2 ^ 32 := by
  refine headers_configured _ [] (by decide) (by decide) ?_
  unfold FitsHeader
  decide +kernel

theorem colon_taken :
    confGetHeaders (ascii "c;D:e") [0] = none ∧
      ((ascii "c;D:e").splitOn semicolon).filterMap splitColon = [(ascii "D", ascii "e")] := by
  decide +kernel

/-! ## What is read behind the copy -/

def strchrReads (c : UInt8) : Bytes → Nat → List Nat
  | [], p => [p]
  | d :: rest, p => p :: if d = c ∨ d = 0 then [] else strchrReads c rest (p + 1)

/-- The offsets that the loop of either parser reads: a turn searches for a semicolon and for `c`. -/
def scanReads (c : UInt8) (mem : Bytes) (len start : Nat) : List Nat :=
  if start ≤ len then
    strchrReads semicolon (mem.drop start) start ++ strchrReads c (mem.drop start) start ++
      match _hp : strchr mem start semicolon with
      | some stop => scanReads c mem len (stop + 1)
      | none => []
  else []
termination_by len + 1 - start
decreasing_by
  have := strchrLoop_ge _hp
  omega

def ReadsCopy (c : UInt8) (s : Bytes) : Prop :=
  ∀ beyond, (s ++ beyond).length < 2 ^ 63 → ∀ i ∈ scanReads c (s ++ beyond) s.length 0, i < s.length

def SameRules (s : Bytes) : Prop :=
  ∀ beyond beyond', (s ++ beyond).length < 2 ^ 63 → (s ++ beyond').length < 2 ^ 63 →
    (confGetRules s beyond).rules = (confGetRules s beyond').rules

def SameHeaders (s : Bytes) : Prop :=
  ∃ conf, ∀ beyond, (s ++ beyond).length < 2 ^ 63 → confGetHeaders s beyond = some conf

def RulesFromString (s : Bytes) : Prop := SameRules s ∧ ReadsCopy space s

def HeadersFromString (s : Bytes) : Prop := SameHeaders s ∧ ReadsCopy colon s

theorem strchrReads_end {c : UInt8} {t : Bytes} (absent : c ∉ t) (plain : 0 ∉ t) (rest : Bytes)
    (start : Nat) : start + t.length ∈ strchrReads c (t ++ rest) start := by
  induction t generalizing start with
  | nil => cases rest <;> exact List.mem_cons_self
  | cons d t ih =>
      have here : ¬(d = c ∨ d = 0) := by
        rintro (same | zero)
        · exact absent (same ▸ List.mem_cons_self)
        · exact plain (zero ▸ List.mem_cons_self)
      have later := ih (fun h => absent (List.mem_cons_of_mem d h))
        (fun h => plain (List.mem_cons_of_mem d h)) (start + 1)
      rw [List.cons_append, strchrReads, if_neg here, List.length_cons]
      rw [Nat.add_assoc, Nat.add_comm 1] at later
      exact List.mem_cons_of_mem _ later

theorem scanReads_end (c : UInt8) (pre t beyond : Bytes) (clean : 0 ∉ t) :
    pre.length + t.length ∈
      scanReads c (pre ++ t ++ beyond) (pre.length + t.length) pre.length := by
  have drop (pre t : Bytes) : (pre ++ t ++ beyond).drop pre.length = t ++ beyond := by
    rw [List.append_assoc, List.drop_left]
  induction t using segments_induction semicolon generalizing pre with
  | last t absent _ =>
      rw [scanReads, if_pos (by omega), drop pre t, List.mem_append, List.mem_append]
      exact .inl (.inl (strchrReads_end absent clean beyond pre.length))
  | more seg rest first _ ih =>
      obtain ⟨cleanSeg, cleanRest⟩ := not_mem_parts clean
      have found := strchr_segment pre rest beyond first cleanSeg
      have later := ih (pre ++ seg ++ [semicolon]) cleanRest
      rw [← segment_shift, ← segment_stop, ← segment_next] at later
      rw [scanReads, if_pos (by omega), List.mem_append]
      right
      split
      · rename_i other same
        cases same.symm.trans found
        exact later
      · rename_i none
        cases none.symm.trans found

theorem not_readsCopy (c : UInt8) {s : Bytes} (clean : 0 ∉ s) (small : s.length < 2 ^ 63) :
    ¬ReadsCopy c s := by
  intro inside
  have last := scanReads_end c [] s [] clean
  rw [List.length_nil, Nat.zero_add] at last
  exact (inside [] (by rwa [List.append_nil]) _ last).false

/-! ## The last rule -/

def lastSegment (s : Bytes) : Bytes := ((s.splitOn semicolon).getLast?).getD []

theorem lastSegment_only {s : Bytes} (split : s.splitOn semicolon = [s]) : lastSegment s = s := by
  rw [lastSegment, split]
  rfl

theorem lastSegment_more {seg rest : Bytes}
    (split : (seg ++ semicolon :: rest).splitOn semicolon = seg :: rest.splitOn semicolon) :
    lastSegment (seg ++ semicolon :: rest) = lastSegment rest := by
  rw [lastSegment, lastSegment, split]
  cases parts : rest.splitOn semicolon with
  | nil => exact absurd parts (List.splitOn_ne_nil _ _)
  | cons next later => rw [List.getLast?_cons_cons]

theorem splitOn_extend (s : Bytes) : lastSegment s <:+ s ∧ semicolon ∉ lastSegment s ∧
    ∃ front, s.splitOn semicolon = front ++ [lastSegment s] ∧
      ∀ u, semicolon ∉ u → (s ++ u).splitOn semicolon = front ++ [lastSegment s ++ u] := by
  induction s using segments_induction semicolon with
  | last s absent split =>
      rw [lastSegment_only split]
      refine ⟨List.suffix_rfl, absent, [], split, fun u plain => ?_⟩
      rw [List.nil_append]
      apply splitOn_last
      rw [List.mem_append, not_or]
      exact ⟨absent, plain⟩
  | more seg rest first split ih =>
      obtain ⟨suffix, plainLast, front, here, extended⟩ := ih
      have behind : rest <:+ seg ++ semicolon :: rest := ⟨seg ++ [semicolon], by simp⟩
      rw [lastSegment_more split]
      refine ⟨suffix.trans behind, plainLast, seg :: front, ?_, fun u plain => ?_⟩
      · rw [split, here, List.cons_append]
      · rw [List.append_assoc, List.cons_append, splitOn_segment first, extended u plain,
          List.cons_append]

theorem inetAddrLoop_letter (text : Bytes) (addr octet n : UInt32) :
    inetAddrLoop addr octet n (text ++ [120]) = INADDR_NONE := by
  induction text generalizing addr octet n with
  | nil => exact inetAddrLoop_bad (by decide) (by decide) addr octet n []
  | cons c text ih =>
      rw [List.cons_append, inetAddrLoop, ih, ih]
      split_ifs <;> rfl

theorem not_valid_letter (seg : Bytes) (small : seg.length + 1 < 2 ^ 64) :
    ¬Valid (seg ++ [120]) := by
  rw [Valid, segmentRange, rangeText]
  by_cases member : 32 ∈ seg
  · obtain ⟨mode, text, rfl, plain⟩ := List.eq_append_cons_of_mem member
    have after : (mode ++ 32 :: text ++ [120]).drop (mode.length + 1) = text ++ [120] := by
      rw [← List.drop_drop, List.append_assoc, List.drop_left]
      rfl
    have notAll : text ++ [120] ≠ ascii "all" := by
      intro same
      have last := congrArg List.getLast? same
      rw [List.getLast?_concat] at last
      cases last
    rw [List.append_assoc, List.cons_append, findIdx_split plain, Option.map_some,
      ← List.cons_append, ← List.append_assoc, after]
    dsimp only
    rw [if_neg notAll]
    obtain ⟨addr, len, rfl, slashless⟩ := range_cases text
    simp only [List.length_append, List.length_cons] at small
    cases len with
    | none =>
        have text : rangeOf addr none ++ [120] = rangeOf (addr ++ [120]) none := by simp [rangeOf]
        have plain : slash ∉ addr ++ [120] := by simpa [slashless] using by decide
        rw [text, stor_range plain, if_pos (inetAddrLoop_letter addr 0 0 0)]
        · exact Bool.false_ne_true
        · rw [← text, List.length_append, List.length_singleton]
          omega
    | some line =>
        have text : rangeOf addr (some line) ++ [120] = rangeOf addr (some (line ++ [120])) := by
          simp [rangeOf]
        have other : ¬Length (line ++ [120]) := by
          intro good
          exact absurd (good.2.1 120 (by simp)) (by decide)
        rw [text, stor_range slashless]
        · obtain ⟨good, -⟩ | ⟨-, refused⟩ := zimgAtoi_cases (line ++ [120])
          · exact absurd good other
          · dsimp only
            split_ifs
            · exact Bool.false_ne_true
            · exact Bool.false_ne_true
            · exact Bool.false_ne_true
            · exact absurd refused (by tauto)
        · rw [← text, List.length_append, List.length_singleton]
          omega
  · have absent : 32 ∉ seg ++ [120] := by simp [member]
    rw [findIdx_absent absent]
    exact Bool.false_ne_true

theorem sameRules_iff {s : Bytes} (clean : 0 ∉ s) (small : s.length + 2 < 2 ^ 63) :
    SameRules s ↔ ∀ u, semicolon ∉ u → 0 ∉ u → (s ++ u).length + 1 < 2 ^ 63 →
      ¬Valid (lastSegment s ++ u) := by
  obtain ⟨suffix, -, front, -, extended⟩ := splitOn_extend s
  have rules {beyond : Bytes} (bound : (s ++ beyond).length < 2 ^ 63) :
      (confGetRules s beyond).rules =
        (segmentRule (lastSegment s ++ overread beyond)).toList ++
          (front.filterMap segmentRule).reverse := by
    have plain : semicolon ∉ overread beyond := by
      obtain ⟨_, _, plain, _⟩ | ⟨none, _⟩ := overread_cases beyond
      · exact plain
      · rw [none]
        exact List.not_mem_nil
    rw [confGetRules_segments clean bound, extended _ plain, List.filterMap_append,
      List.reverse_append]
    cases h : segmentRule (lastSegment s ++ overread beyond) <;> simp [h]
  have unruled {seg : Bytes} : ¬Valid seg ↔ segmentRule seg = none := by
    rw [Valid, Bool.not_eq_true, Option.isSome_eq_false_iff, Option.isNone_iff_eq_none, segmentRule,
      Option.map_eq_none_iff]
  have front_of {u : Bytes} (plain : semicolon ∉ u) (zero : 0 ∉ u) :
      overread (u ++ [semicolon]) = u := by
    obtain ⟨rest, split, clean, -⟩ | ⟨-, absent⟩ := overread_cases (u ++ [semicolon])
    · exact (split_unique split plain clean).1.symm
    · have found := strchrLoop_skip [semicolon] 0 plain zero
      rw [absent 0] at found
      cases found
  constructor
  · intro same u plain zero bound valid
    have bound' : (s ++ (u ++ [semicolon])).length < 2 ^ 63 := by
      rwa [← List.append_assoc, List.length_append, List.length_singleton]
    have bound'' : (s ++ ([120] ++ [semicolon])).length < 2 ^ 63 := by
      rw [List.length_append]
      exact small
    have equal := same _ _ bound' bound''
    have short : (lastSegment s).length + 1 < 2 ^ 64 := by
      have := suffix.length_le
      omega
    rw [rules bound', rules bound'', front_of plain zero, front_of (by decide) (by decide),
      unruled.mp (not_valid_letter _ short)] at equal
    have none := List.append_cancel_right equal
    cases h : segmentRule (lastSegment s ++ u) with
    | none => exact unruled.mpr h valid
    | some rule =>
        rw [h] at none
        cases none
  · intro spoilt beyond beyond' bound bound'
    have none {beyond : Bytes} (bound : (s ++ beyond).length < 2 ^ 63) :
        segmentRule (lastSegment s ++ overread beyond) = none := by
      apply unruled.mp
      obtain ⟨rest, split, plain, zero⟩ | ⟨nothing, -⟩ := overread_cases beyond
      · refine spoilt _ plain zero ?_
        have whole := congrArg List.length split
        simp only [List.length_append, List.length_cons] at whole bound ⊢
        omega
      · rw [nothing]
        refine spoilt [] List.not_mem_nil List.not_mem_nil ?_
        rw [List.append_nil]
        omega
    rw [rules bound, rules bound', none bound, none bound']

/-! ## The last header -/

theorem headerOf_inj {k v v' : Bytes} (same : headerOf k v = headerOf k v')
    (length : v.length = v'.length) : v = v' := by
  have blocks := congrArg ZimgHeader.block same
  simp only [headerOf, length, List.append_assoc] at blocks
  exact (List.append_inj (List.append_cancel_left blocks) length).1

theorem confGetHeadersLoop_head (pre : Bytes) {t u k v : Bytes} (headers : List ZimgHeader)
    {out : List ZimgHeader}
    (clean : 0 ∉ t) (plain : semicolon ∉ u) (zero : 0 ∉ u)
    (small : (pre ++ t ++ (u ++ [semicolon])).length < 2 ^ 63)
    (last : lastSegment t ++ u = k ++ colon :: v) (absent : colon ∉ k)
    (read : confGetHeadersLoop (pre ++ t ++ (u ++ [semicolon])) (pre.length + t.length) pre.length
      headers = some out) : out.head? = some (headerOf k v) := by
  induction t using segments_induction semicolon generalizing pre headers with
  | last t only split =>
      rw [lastSegment_only split] at last
      have cleanLast : 0 ∉ k ++ colon :: v := by
        rw [← last, List.mem_append, not_or]
        exact ⟨clean, zero⟩
      have plainLast : semicolon ∉ k ++ colon :: v := by
        rw [← last, List.mem_append, not_or]
        exact ⟨only, plain⟩
      have text : pre ++ t ++ (u ++ [semicolon]) = pre ++ (k ++ colon :: v) ++ [semicolon] := by
        rw [← last]
        simp
      have found := strchr_segment pre [] [] plainLast cleanLast
      rw [List.append_nil, ← List.append_assoc] at found
      have bounds := congrArg List.length last
      rw [List.length_append] at bounds
      obtain ⟨cleanKey, cleanValue⟩ := not_mem_parts cleanLast
      rw [text] at read small
      rw [confGetHeadersLoop_found (by omega) found,
        confGetHeader_colon absent cleanKey cleanValue small] at read
      split_ifs at read
      · cases read
      · cases read
      · rw [Option.bind_some, confGetHeadersLoop_done (by omega)] at read
        rw [← Option.some.inj read]
        rfl
  | more seg rest first split ih =>
      obtain ⟨cleanSeg, cleanRest⟩ := not_mem_parts clean
      have found := strchr_segment pre rest (u ++ [semicolon]) first cleanSeg
      have shift := segment_shift semicolon pre seg rest (u ++ [semicolon])
      rw [lastSegment_more split] at last
      rw [confGetHeadersLoop_found (by omega) found, Option.bind_eq_some_iff] at read
      obtain ⟨header, -, read⟩ := read
      rw [shift, segment_stop, segment_next] at read
      exact ih _ _ cleanRest (shift ▸ small) last read

theorem not_sameHeaders {s : Bytes} (clean : 0 ∉ s) (small : s.length + 3 < 2 ^ 63) :
    ¬SameHeaders s := by
  rintro ⟨conf, same⟩
  have head {u k v : Bytes} (plain : semicolon ∉ u) (zero : 0 ∉ u) (short : u.length ≤ 2)
      (last : lastSegment s ++ u = k ++ colon :: v) (absent : colon ∉ k) :
      conf.headers.head? = some (headerOf k v) := by
    have bound : (s ++ (u ++ [semicolon])).length < 2 ^ 63 := by
      rw [List.length_append, List.length_append, List.length_singleton]
      omega
    have read := same _ bound
    rw [confGetHeaders, Option.map_eq_some_iff] at read
    obtain ⟨headers, read, rfl⟩ := read
    refine confGetHeadersLoop_head [] [] clean plain zero bound last absent ?_
    rw [List.nil_append, List.length_nil, Nat.zero_add]
    exact read
  have apart {k v : Bytes} {a b : UInt8} (other : a ≠ b)
      (first : conf.headers.head? = some (headerOf k (v ++ [a])))
      (second : conf.headers.head? = some (headerOf k (v ++ [b]))) : False := by
    have equal := headerOf_inj (Option.some.inj (first.symm.trans second)) (by simp)
    exact other (List.cons.inj (List.append_cancel_left equal)).1
  by_cases member : colon ∈ lastSegment s
  · obtain ⟨k, v, last, absent⟩ := List.eq_append_cons_of_mem member
    have extend (a : UInt8) : lastSegment s ++ [a] = k ++ colon :: (v ++ [a]) := by
      rw [last, List.append_assoc, List.cons_append]
    exact apart (a := 120) (b := 121) (by decide)
      (head (by decide) (by decide) (by decide) (extend 120) absent)
      (head (by decide) (by decide) (by decide) (extend 121) absent)
  · exact apart (v := []) (a := 120) (b := 121) (by decide)
      (head (u := [colon, 120]) (by decide) (by decide) (by decide) rfl member)
      (head (u := [colon, 121]) (by decide) (by decide) (by decide) rfl member)

/-- No string is parsed on its own: both loops read behind the copy, the headers always depend on
what stands there, and the rules do unless nothing completes the last segment. -/
theorem configuration_overread {s : Bytes} (clean : 0 ∉ s) (small : s.length + 3 < 2 ^ 63) :
    ¬RulesFromString s ∧ ¬HeadersFromString s ∧ ¬SameHeaders s ∧
      (SameRules s ↔ ∀ u, semicolon ∉ u → 0 ∉ u → (s ++ u).length + 1 < 2 ^ 63 →
        ¬Valid (lastSegment s ++ u)) := by
  have short : s.length < 2 ^ 63 := by omega
  refine ⟨?_, ?_, not_sameHeaders clean small, sameRules_iff clean (by omega)⟩
  · exact fun both => not_readsCopy space clean short both.2
  · exact fun both => not_readsCopy colon clean short both.2

theorem configuration_overread_small :
    ¬RulesFromString (ascii "deny 10.0.0.1") ∧ ¬HeadersFromString (ascii "deny 10.0.0.1") ∧
      ¬SameHeaders (ascii "deny 10.0.0.1") ∧
      (SameRules (ascii "deny 10.0.0.1") ↔ ∀ u, semicolon ∉ u → 0 ∉ u →
        (ascii "deny 10.0.0.1" ++ u).length + 1 < 2 ^ 63 →
          ¬Valid (lastSegment (ascii "deny 10.0.0.1") ++ u)) :=
  configuration_overread (by decide) (by decide)

theorem digit_behind :
    (confGetRules (ascii "deny 10.0.0.1") [0]).rules ≠
        (confGetRules (ascii "deny 10.0.0.1") (ascii "2;")).rules ∧
      confGetHeaders (ascii "Age:1") [0] ≠ confGetHeaders (ascii "Age:1") (ascii "2;") ∧
      5 ∈ scanReads colon (ascii "Age:1" ++ [0]) 5 0 := by
  decide +kernel

end Ximg
