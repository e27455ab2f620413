import Ximg.HandlerSpecs

/-!
# The boundary of an upload

Which boundary the upload's parser gets, against the boundary parameter of the content type.
-/

namespace Ximg
open Text Calls

/-! ## The parameters of a content type -/

/-- Cuts at the separators that are not between quotes. -/
def fields : Bool → Bytes → List Bytes
  | _, [] => [[]]
  | quoted, c :: s =>
      if c = quote then (fields (!quoted) s).modifyHead (c :: ·)
      else if quoted = false ∧ (c = comma ∨ c = semicolon) then [] :: fields false s
      else (fields quoted s).modifyHead (c :: ·)

def parameterValue : Bytes → Option Bytes
  | [] => none
  | c :: s =>
      if c = quote then if quote ∈ s then some (s.takeWhile (· ≠ quote)) else none
      else some ((c :: s).takeWhile fun c => c ≠ comma ∧ c ≠ semicolon)

def boundaryValue (field : Bytes) : Option Bytes :=
  let field := field.dropWhile fun c => IsSpace c
  match field.findIdx? (· == equals) with
  | none => none
  | some i =>
      if (field.take i).map lower = ascii "boundary" then
        (parameterValue (field.drop (i + 1))).filter (· ≠ [])
      else none

/-- The value of the first usable boundary parameter. -/
def boundaryParameter (contentType : Bytes) : Option Bytes :=
  (fields false contentType).tail.findSome? boundaryValue

def IsFormData (contentType : Bytes) : Prop :=
  (contentType.takeWhile fun c => c ≠ comma ∧ c ≠ semicolon ∧ ¬IsSpace c).map lower =
    ascii "multipart/form-data"

instance (contentType : Bytes) : Decidable (IsFormData contentType) :=
  inferInstanceAs (Decidable (_ = _))

example : boundaryParameter (ascii "multipart/form-data; a=\"x;y\"; Boundary=\"b,c\"") =
    some (ascii "b,c") := by decide +kernel

/-! ## What follows the first equals sign -/

def ValueAt (rest b : Bytes) : Prop :=
  (∃ after, rest = quote :: (b ++ quote :: after) ∧ quote ∉ b) ∨
    (rest.head? ≠ some quote ∧ b = rest.takeWhile fun c => c ≠ comma ∧ c ≠ semicolon)

def FirstValue (contentType b : Bytes) : Prop :=
  ∃ front rest, contentType = front ++ equals :: rest ∧ equals ∉ front ∧ ValueAt rest b

def OpenQuote (contentType : Bytes) : Prop :=
  ∃ front rest, contentType = front ++ equals :: quote :: rest ∧ equals ∉ front ∧ quote ∉ rest

theorem firstValue_at {front rest b : Bytes} (absent : equals ∉ front) :
    FirstValue (front ++ equals :: rest) b ↔ ValueAt rest b := by
  constructor
  · rintro ⟨front', rest', same, absent', value⟩
    rwa [(split_unique same absent absent').2]
  · exact fun value => ⟨front, rest, rfl, absent, value⟩

theorem openQuote_at {front rest : Bytes} (absent : equals ∉ front) :
    OpenQuote (front ++ equals :: rest) ↔ ∃ after, rest = quote :: after ∧ quote ∉ after := by
  constructor
  · rintro ⟨front', after, same, absent', open_⟩
    exact ⟨after, (split_unique same absent absent').2, open_⟩
  · rintro ⟨after, rfl, open_⟩
    exact ⟨front, after, rfl, absent, open_⟩

def takeValue : Bytes → Extraction
  | [] => .found []
  | c :: boundary =>
      if c = quote then
        match boundary.findIdx? (· == quote) with
        | none => .missing
        | some n => .found (boundary.take n)
      else .found ((c :: boundary).takeWhile fun c => c ≠ comma ∧ c ≠ semicolon)

theorem takeValue_cases (rest : Bytes) :
    (∃ b, takeValue rest = .found b ∧ ValueAt rest b) ∨
    (takeValue rest = .missing ∧ ∃ after, rest = quote :: after ∧ quote ∉ after) := by
  cases rest with
  | nil => exact .inl ⟨[], rfl, .inr ⟨by simp, rfl⟩⟩
  | cons c boundary =>
      by_cases opens : c = quote
      · subst opens
        rw [takeValue, if_pos rfl]
        by_cases closed : quote ∈ boundary
        · obtain ⟨b, after, rfl, absent⟩ := List.eq_append_cons_of_mem closed
          rw [findIdx_split absent]
          exact .inl ⟨b, by simp, .inl ⟨after, rfl, absent⟩⟩
        · rw [findIdx_absent closed]
          exact .inr ⟨rfl, boundary, rfl, closed⟩
      · rw [takeValue, if_neg opens]
        exact .inl ⟨_, rfl, .inr ⟨by simpa using opens, rfl⟩⟩

theorem valueAt_unique {rest b b' : Bytes} (value : ValueAt rest b) (value' : ValueAt rest b') :
    b = b' := by
  rcases value with ⟨after, rfl, absent⟩ | ⟨token, rfl⟩
  · rcases value' with ⟨after', same, absent'⟩ | ⟨token, -⟩
    · exact (split_unique (List.cons.inj same).2 absent absent').1
    · exact absurd rfl token
  · rcases value' with ⟨after', rfl, -⟩ | ⟨-, rfl⟩
    · exact absurd rfl token
    · rfl

theorem multipartBoundary_at {front rest : Bytes} (absent : equals ∉ front)
    (mentioned : ascii "boundary" <:+: front ++ equals :: rest) :
    multipartBoundary (front ++ equals :: rest) = takeValue rest := by
  unfold multipartBoundary
  rw [if_neg (by simpa [strstr] using mentioned), findIdx_split absent]
  have after : (front ++ equals :: rest).drop (front.length + 1) = rest := by
    rw [← List.drop_drop, List.drop_left]
    rfl
  simp only [after]
  cases rest <;> rfl

theorem multipartBoundary_cases (contentType : Bytes) :
    (∃ b, multipartBoundary contentType = .found b ∧ ascii "boundary" <:+: contentType ∧
      FirstValue contentType b) ∨
    (multipartBoundary contentType = .missing ∧
      (ascii "boundary" <:+: contentType → OpenQuote contentType)) ∨
    (multipartBoundary contentType = .invalid ∧ ascii "boundary" <:+: contentType ∧
      equals ∉ contentType) := by
  by_cases mentioned : ascii "boundary" <:+: contentType
  · by_cases member : equals ∈ contentType
    · obtain ⟨front, rest, rfl, absent⟩ := List.eq_append_cons_of_mem member
      rw [multipartBoundary_at absent mentioned, openQuote_at absent]
      rcases takeValue_cases rest with ⟨b, found, value⟩ | ⟨missing, open_⟩
      · exact .inl ⟨b, found, mentioned, (firstValue_at absent).mpr value⟩
      · exact .inr (.inl ⟨missing, fun _ => open_⟩)
    · refine .inr (.inr ⟨?_, mentioned, member⟩)
      unfold multipartBoundary
      rw [if_neg (by simpa [strstr] using mentioned), findIdx_absent member]
  · refine .inr (.inl ⟨?_, fun h => absurd h mentioned⟩)
    unfold multipartBoundary
    rw [if_pos (by simpa [strstr] using mentioned)]

theorem firstValue_unique {contentType b b' : Bytes} (first : FirstValue contentType b)
    (first' : FirstValue contentType b') : b = b' := by
  obtain ⟨front, rest, rfl, absent, value⟩ := first
  exact valueAt_unique value ((firstValue_at absent).mp first')

theorem FirstValue.closed {contentType b : Bytes} (first : FirstValue contentType b) :
    ¬OpenQuote contentType := by
  obtain ⟨front, rest, rfl, absent, value⟩ := first
  rw [openQuote_at absent]
  rintro ⟨after, rfl, open_⟩
  rcases value with ⟨after', same, -⟩ | ⟨token, -⟩
  · rw [(List.cons.inj same).2] at open_
    simp at open_
  · exact token rfl

theorem FirstValue.equals_mem {contentType b : Bytes} (first : FirstValue contentType b) :
    equals ∈ contentType := by
  obtain ⟨front, rest, rfl, -⟩ := first
  simp

theorem OpenQuote.equals_mem {contentType : Bytes} (opens : OpenQuote contentType) :
    equals ∈ contentType := by
  obtain ⟨front, rest, rfl, -⟩ := opens
  simp

/-! ## The parser's pattern -/

def patternOf (e : Event Http) : Option Bytes :=
  match e.1 with
  | .multipartParserInit boundaryPattern => some boundaryPattern
  | _ => none

def patterns (log : List (Event Http)) : List Bytes := log.filterMap patternOf

theorem patterns_unasked {more : List (Event Http)} (h : ∀ e ∈ more, Unasked e.1) :
    patterns more = [] := by
  rw [patterns, List.filterMap_eq_nil_iff]
  rintro ⟨op, r⟩ member
  have := h _ member
  cases op with
  | multipartParserInit boundaryPattern => exact this.elim
  | _ => rfl

def Faultless : HttpOp → Prop
  | .fault => False
  | _ => True

theorem unasked_faultless {op : HttpOp} (h : Unasked op) : Faultless op := by
  cases op with
  | fault => exact h.elim
  | _ => trivial

/-- The parser is made for the boundary, unless a record was not allocated. -/
def ParsesWith (b : Bytes) (log : List (Event Http)) : Prop :=
  patterns log = [minus :: minus :: b] ∨ (⟨.malloc, false⟩ ∈ log ∧ patterns log = [])

def Refused (err : Option Nat) (log : List (Event Http)) : Prop :=
  err = some 6 ∧ patterns log = [] ∧ savedImages log = []

section Runs
variable (settings : HttpSettings) (alloc : Nat → Bool) (api : Api) (buff : Bytes)
  (postSize : Nat)

theorem parseRest_unasked (boundaryPattern : Bytes) :
    Prog.Uses (S := Http) Unasked (do
      let (_, mpArg) ← runMultipart settings api boundaryPattern postSize ⟨buff, 0, 0, 0, []⟩
      multipartReply api mpArg
      return (none : Option Nat)) := by
  refine (runMultipart_unasked settings api boundaryPattern postSize _).bind fun r => ?_
  refine Prog.Uses.bind ?_ fun _ => trivial
  exact (multipartReply_idle api r.2).mono fun _ => idle_unasked

theorem parseWith_patterns (b : Bytes) (log : List (Event Http)) :
    Adds alloc (parseWith settings api buff postSize b)
      (fun _ more => ParsesWith b more) log := by
  refine Adds.call fun allocated _ => ?_
  cases allocated with
  | false => exact Adds.ret (.inr ⟨by simp, rfl⟩)
  | true =>
      refine Adds.call fun made _ => ?_
      cases made with
      | false => exact Adds.ret (.inl rfl)
      | true =>
          refine Adds.call fun allocated _ => ?_
          cases allocated with
          | false => exact Adds.ret (.inl rfl)
          | true =>
              refine (adds_uses (parseRest_unasked settings api buff postSize _)).mono ?_
              intro r more within
              left
              have rest : patterns more = [] := patterns_unasked within
              show _ :: patterns more = _
              rw [rest]

theorem serving_answers {log : List (Event Http)} {op : HttpOp} (faultless : Faultless op) :
    ∃ r, (serving alloc).Legal log op r := by
  cases op with
  | zimgAccessInet conf addr => exact ⟨_, rfl⟩
  | mallocBuff size => exact ⟨none, fun block same => by cases same⟩
  | malloc => exact ⟨_, rfl⟩
  | multipartParserInit _ | openPage _ => exact ⟨true, trivial⟩
  | saveImg buff => exact ⟨(0, []), trivial⟩
  | getImg _ | adminImg _ _ | infoImg _ => exact ⟨(0 : Int), trivial⟩
  | evbufferAddFile _ | evbufferAddPrintf _ | headersAddHeader _ _ | evhtpSendReply _ =>
      exact ⟨(), trivial⟩
  | fault => exact faultless.elim

theorem parseWith_faultless (b : Bytes) :
    (parseWith settings api buff postSize b).Uses Faultless := by
  have rest := (parseRest_unasked settings api buff postSize (minus :: minus :: b)).mono
    fun _ => unasked_faultless
  refine ⟨trivial, fun allocated => ?_⟩
  cases allocated with
  | false => trivial
  | true =>
      refine ⟨trivial, fun made => ?_⟩
      cases made with
      | false => trivial
      | true =>
          refine ⟨trivial, fun allocated => ?_⟩
          cases allocated with
          | false => trivial
          | true => exact rest

variable {settings api buff postSize}

theorem parseWith_run {b : Bytes} {log : List (Event Http)}
    {Q : Option Nat → List (Event Http) → Prop}
    (h : (serving fun _ => true).wp (parseWith settings api buff postSize b) Q log) :
    ∃ r more, Q r (log ++ more) ∧ patterns more = [minus :: minus :: b] := by
  have rest := h true rfl true trivial true rfl
  have unasked := parseRest_unasked settings api buff postSize (minus :: minus :: b)
  obtain ⟨r, log', run⟩ := Machine.runs_exists_of_uses (M := serving fun _ => true) unasked
    (fun _ _ ok => serving_answers _ (unasked_faultless ok)) (log ++ [⟨.malloc, true⟩] ++
      [⟨.multipartParserInit (minus :: minus :: b), true⟩] ++ [⟨.malloc, true⟩])
  obtain ⟨holds, more, rfl, within⟩ := run.post (Machine.wp_and rest (adds_uses unasked))
  refine ⟨r, _, by simpa using holds, ?_⟩
  show _ :: patterns more = _
  rw [patterns_unasked within]

def opened : Api → List (Event Http)
  | .upload => [⟨.evbufferAddPrintf
      (ascii "<html>\n<head>\n<title>Upload Result</title>\n</head>\n<body>\n"), ()⟩]
  | .up => []

theorem opened_still (api : Api) (more : List (Event Http)) :
    patterns (opened api ++ more) = patterns more ∧
      savedImages (opened api ++ more) = savedImages more := by
  cases api <;> exact ⟨rfl, rfl⟩

theorem multipartParse_wp {contentType : Bytes} {Q : Option Nat → List (Event Http) → Prop} :
    (serving alloc).wp (multipartParse settings api contentType buff postSize) Q [] ↔
      (serving alloc).wp (parseFound settings api buff postSize (multipartBoundary contentType)) Q
        (opened api) := by
  rw [multipartParse_eq]
  cases api with
  | upload => exact ⟨fun h => h () trivial, fun h _ _ => h⟩
  | up => rfl

theorem multipartParse_runs {contentType : Bytes}
    (valid : multipartBoundary contentType ≠ .invalid) :
    ∃ r log, (serving alloc).Runs (multipartParse settings api contentType buff postSize) [] r
      log := by
  have answers (log : List (Event Http)) (op : Http.Op) (ok : Faultless op) :
      ∃ r, (serving alloc).Legal log op r := serving_answers _ ok
  refine Machine.runs_exists_of_uses ?_ answers _
  rw [multipartParse_eq]
  refine ((opening_idle api).mono fun _ idle => unasked_faultless (idle_unasked idle)).bind fun _ => ?_
  cases found : multipartBoundary contentType with
  | missing => trivial
  | invalid => exact absurd found valid
  | found b => exact parseWith_faultless settings api buff postSize b

theorem multipartParse_faults {contentType : Bytes} {Q : Option Nat → List (Event Http) → Prop}
    (invalid : multipartBoundary contentType = .invalid) :
    ¬(serving alloc).Returns (multipartParse settings api contentType buff postSize) Q [] := by
  rintro ⟨⟨r, log, run⟩, -⟩
  refine run.post (Q := fun _ _ => False) ?_
  rw [multipartParse_wp, invalid]
  exact fun r => r.elim

variable (settings api buff postSize)

theorem parses_iff (contentType b : Bytes) :
    (∀ alloc, (serving alloc).Returns (multipartParse settings api contentType buff postSize)
      (fun _ log => ParsesWith b log) []) ↔
    ascii "boundary" <:+: contentType ∧ FirstValue contentType b := by
  rcases multipartBoundary_cases contentType with
    ⟨b', found, mentioned, first⟩ | ⟨missing, open_⟩ | ⟨invalid, -, absent⟩
  · constructor
    · intro h
      have whole := (h fun _ => true).2
      rw [multipartParse_wp, found] at whole
      obtain ⟨r, more, parses, made⟩ := parseWith_run whole
      rw [ParsesWith, (opened_still api more).1, made] at parses
      rcases parses with same | ⟨-, none⟩
      · obtain rfl : b' = b := by simpa using same
        exact ⟨mentioned, first⟩
      · cases none
    · rintro ⟨-, first'⟩ alloc
      obtain rfl := firstValue_unique first first'
      refine ⟨multipartParse_runs alloc (by simp [found]), ?_⟩
      rw [multipartParse_wp, found]
      refine Machine.wp_mono (parseWith_patterns settings alloc api buff postSize b' _) ?_
      rintro _ _ ⟨more, rfl, parses⟩
      rw [ParsesWith, (opened_still api more).1]
      exact parses.imp_right fun failed => ⟨List.mem_append_right _ failed.1, failed.2⟩
  · constructor
    · intro h
      have whole := (h fun _ => true).2
      rw [multipartParse_wp, missing] at whole
      have parses : ParsesWith b (opened api ++ []) := by
        rw [List.append_nil]
        exact whole
      rw [ParsesWith, (opened_still api []).1] at parses
      rcases parses with made | ⟨failed, -⟩
      · cases made
      · cases api <;> simp [opened] at failed
    · exact fun h => absurd (open_ h.1) h.2.closed
  · constructor
    · exact fun h => absurd (h fun _ => true) (multipartParse_faults _ invalid)
    · exact fun h => absurd h.2.equals_mem absent

theorem contentType_refused_iff (contentType : Bytes) :
    (∀ alloc, (serving alloc).Returns (multipartParse settings api contentType buff postSize)
      (fun err log => Refused err log) []) ↔
    (ascii "boundary" <:+: contentType → OpenQuote contentType) := by
  rcases multipartBoundary_cases contentType with
    ⟨b, found, mentioned, first⟩ | ⟨missing, open_⟩ | ⟨invalid, mentioned, absent⟩
  · constructor
    · intro h
      have whole := (h fun _ => true).2
      rw [multipartParse_wp, found] at whole
      obtain ⟨r, more, ⟨-, none, -⟩, made⟩ := parseWith_run whole
      rw [(opened_still api more).1, made] at none
      cases none
    · exact fun h => absurd (h mentioned) first.closed
  · refine iff_of_true ?_ open_
    intro alloc
    refine ⟨multipartParse_runs alloc (by simp [missing]), ?_⟩
    rw [multipartParse_wp, missing]
    have still := opened_still api []
    rw [List.append_nil] at still
    exact ⟨rfl, still.1, still.2⟩
  · constructor
    · exact fun h => absurd (h fun _ => true) (multipartParse_faults _ invalid)
    · exact fun h => absurd (h mentioned).equals_mem absent

/-- The boundary parameter's value is used exactly when it stands behind the first equals sign, and
a content type without one is refused exactly when it lacks the word or leaves that quote open. -/
theorem boundary_extraction (contentType : Bytes) :
    (∀ alloc,
      (∀ b, IsFormData contentType → boundaryParameter contentType = some b →
        (serving alloc).Returns (multipartParse settings api contentType buff postSize)
          (fun _ log => ParsesWith b log) []) ∧
      (boundaryParameter contentType = none →
        (serving alloc).Returns (multipartParse settings api contentType buff postSize)
          (fun err log => Refused err log) [])) ↔
    (∀ b, IsFormData contentType → boundaryParameter contentType = some b →
      ascii "boundary" <:+: contentType ∧ FirstValue contentType b) ∧
    (boundaryParameter contentType = none →
      ascii "boundary" <:+: contentType → OpenQuote contentType) := by
  rw [forall_and]
  refine and_congr ?_ ?_
  · constructor
    · intro h b type usable
      exact (parses_iff settings api buff postSize contentType b).mp fun alloc =>
        h alloc b type usable
    · intro h alloc b type usable
      exact (parses_iff settings api buff postSize contentType b).mpr (h b type usable) alloc
  · constructor
    · intro h unusable
      exact (contentType_refused_iff settings api buff postSize contentType).mp fun alloc => h alloc unusable
    · intro h alloc unusable
      exact (contentType_refused_iff settings api buff postSize contentType).mpr (h unusable) alloc

end Runs

theorem charset_taken :
    ¬∀ alloc, (∀ b, IsFormData (ascii "multipart/form-data; charset=x; boundary=b") →
        boundaryParameter (ascii "multipart/form-data; charset=x; boundary=b") = some b →
        (serving alloc).Returns (multipartParse uploadSettings .up
          (ascii "multipart/form-data; charset=x; boundary=b") [] 0)
          (fun _ log => ParsesWith b log) []) ∧
      (boundaryParameter (ascii "multipart/form-data; charset=x; boundary=b") = none →
        (serving alloc).Returns (multipartParse uploadSettings .up
          (ascii "multipart/form-data; charset=x; boundary=b") [] 0)
          (fun err log => Refused err log) []) := by
  intro h
  have first := (parses_iff uploadSettings .up [] 0 _ (ascii "b")).mp fun alloc =>
    (h alloc).1 (ascii "b") (by decide +kernel) (by decide +kernel)
  have other : FirstValue (ascii "multipart/form-data; charset=x; boundary=b") (ascii "x") :=
    ⟨ascii "multipart/form-data; charset", ascii "x; boundary=b", by decide +kernel,
      by decide +kernel, .inr ⟨by decide +kernel, by decide +kernel⟩⟩
  exact absurd (firstValue_unique first.2 other) (by decide)

end Ximg
