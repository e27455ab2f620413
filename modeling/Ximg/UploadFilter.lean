import Ximg.BodyHandover
import Ximg.UploadParse

/-!
# The file type filter of uploads

Which parts of a body are saved, what the law of the filter says about them, and when it holds.
-/

namespace Ximg
open Text Calls

/-! ## File types -/

/-- The text after the last dot is one of the allowed types, in any case of its letters. -/
def AllowedName (name : Bytes) : Prop :=
  ∃ stem type, name = stem ++ dot :: type ∧ dot ∉ type ∧ type.map lower ∈ allowedType

theorem afterLast_none {c : UInt8} {s : Bytes} : afterLast c s = none ↔ c ∉ s := by
  induction s with
  | nil => simp [afterLast]
  | cons d s ih =>
      rw [afterLast, List.mem_cons, not_or]
      cases found : afterLast c s with
      | none =>
          rw [found] at ih
          have rest : c ∉ s := ih.mp rfl
          by_cases same : d = c
          · simp [same]
          · simp [same, rest, Ne.symm same]
      | some type =>
          rw [found] at ih
          have rest : c ∈ s := by
            by_contra absent
            cases ih.mpr absent
          simp [rest]

theorem afterLast_split {c : UInt8} {type : Bytes} (absent : c ∉ type) (stem : Bytes) :
    afterLast c (stem ++ c :: type) = some type := by
  induction stem with
  | nil =>
      rw [List.nil_append, afterLast, afterLast_none.mpr absent]
      exact if_pos rfl
  | cons d stem ih => rw [List.cons_append, afterLast, ih]

theorem afterLast_some {c : UInt8} {s type : Bytes} (found : afterLast c s = some type) :
    c ∉ type ∧ ∃ stem, s = stem ++ c :: type := by
  induction s with
  | nil => cases found
  | cons d s ih =>
      rw [afterLast] at found
      cases rest : afterLast c s with
      | none =>
          simp only [rest] at found
          split at found
          · rename_i same
            cases found
            exact ⟨afterLast_none.mp rest, [], by rw [same]; rfl⟩
          · cases found
      | some type' =>
          simp only [rest] at found
          cases found
          obtain ⟨absent, stem, rfl⟩ := ih rest
          exact ⟨absent, d :: stem, rfl⟩

theorem allowedType_length : ∀ type ∈ allowedType, type.length ≤ 5 := by decide

theorem allowed_take {type : Bytes} :
    (strLcpy type 32).map lower ∈ allowedType ↔ type.map lower ∈ allowedType := by
  rcases Nat.lt_or_ge type.length 32 with short | long
  · rw [strLcpy, List.take_of_length_le (by omega)]
  · constructor
    · intro member
      have := allowedType_length _ member
      simp only [strLcpy, List.length_map, List.length_take] at this
      omega
    · intro member
      have := allowedType_length _ member
      rw [List.length_map] at this
      omega

theorem refusesName_iff (name : Bytes) : refusesName name = true ↔ ¬AllowedName name := by
  unfold refusesName getType AllowedName
  cases found : afterLast dot name with
  | none =>
      have absent := afterLast_none.mp found
      refine iff_of_true rfl ?_
      rintro ⟨stem, type, rfl, -, -⟩
      exact absent (List.mem_append_right _ List.mem_cons_self)
  | some type =>
      obtain ⟨absent, stem, rfl⟩ := afterLast_some found
      have same : (∃ stem' type', stem ++ dot :: type = stem' ++ dot :: type' ∧ dot ∉ type' ∧
          type'.map lower ∈ allowedType) ↔ type.map lower ∈ allowedType := by
        constructor
        · rintro ⟨stem', type', split_, absent', allowed⟩
          have found' : afterLast dot (stem ++ dot :: type) = some type' :=
            by rw [split_, afterLast_split absent']
          rw [found] at found'
          cases found'
          exact allowed
        · exact fun allowed => ⟨stem, type, rfl, absent, allowed⟩
      rw [same, ← allowed_take]
      simp only [Option.map_some, isImg]
      split <;> simp [*]

/-! ## What the callback refuses -/

structure FirstAt (find s : Bytes) (n : Nat) : Prop where
  here : find <+: s.drop n
  plain : 0 ∉ s.take n
  first : ∀ m < n, ¬find <+: s.drop m

theorem FirstAt.cons_iff {find s : Bytes} {c : UInt8} {q : Nat} (nonzero : c ≠ 0)
    (miss : ¬find <+: c :: s) : FirstAt find (c :: s) q ↔ ∃ n, q = n + 1 ∧ FirstAt find s n := by
  constructor
  · rintro ⟨here, plain, first⟩
    cases q with
    | zero => exact absurd here miss
    | succ n =>
        refine ⟨n, rfl, here, ?_, fun m less => first (m + 1) (Nat.succ_lt_succ less)⟩
        exact fun zero => plain (List.mem_cons_of_mem _ zero)
  · rintro ⟨n, rfl, here, plain, first⟩
    refine ⟨here, ?_, ?_⟩
    · rw [List.take_succ_cons, List.mem_cons, not_or]
      exact ⟨nonzero.symm, plain⟩
    · intro m less
      cases m with
      | zero => exact miss
      | succ m => exact first m (Nat.lt_of_succ_lt_succ less)

theorem strnstrLoop_iff {c : UInt8} {rest s : Bytes} (nonzero : c ≠ 0) {p q : Nat} :
    strnstrLoop c rest s s.length p = some q ↔ ∃ n, q = p + n ∧ FirstAt (c :: rest) s n := by
  induction s generalizing p with
  | nil =>
      refine iff_of_false (by simp [strnstrLoop]) ?_
      rintro ⟨n, -, here, -⟩
      rw [List.drop_nil] at here
      cases List.prefix_nil.mp here
  | cons d s ih =>
      -- Where the text does not start here, the search goes on behind this byte.
      have onward (nonzero' : d ≠ 0) (miss : ¬(c :: rest) <+: d :: s) :
          strnstrLoop c rest s s.length (p + 1) = some q ↔
            ∃ n, q = p + n ∧ FirstAt (c :: rest) (d :: s) n := by
        rw [ih]
        constructor
        · rintro ⟨n, rfl, at_⟩
          exact ⟨n + 1, by omega, (FirstAt.cons_iff nonzero' miss).mpr ⟨n, rfl, at_⟩⟩
        · rintro ⟨m, rfl, at_⟩
          obtain ⟨n, rfl, behind⟩ := (FirstAt.cons_iff nonzero' miss).mp at_
          exact ⟨n, by omega, behind⟩
      simp only [strnstrLoop, List.length_cons, Nat.add_sub_cancel]
      split_ifs with zero empty other long found
      · refine iff_of_false (by simp) ?_
        rintro ⟨n, -, here, plain, -⟩
        cases n with
        | zero =>
            obtain ⟨rfl, -⟩ := List.cons_prefix_cons.mp here
            exact nonzero zero
        | succ n => exact plain (by rw [zero]; exact List.mem_cons_self)
      · omega
      · refine onward zero ?_
        intro here
        exact other (List.cons_prefix_cons.mp here).1.symm
      · refine iff_of_false (by simp) ?_
        rintro ⟨n, -, here, -⟩
        have := here.length_le
        simp only [List.length_cons, List.length_drop] at this
        omega
      · have same : d = c := not_not.mp other
        have start : FirstAt (c :: rest) (d :: s) 0 :=
          ⟨List.cons_prefix_cons.mpr ⟨same.symm, found⟩, by simp, by simp⟩
        constructor
        · intro h
          cases h
          exact ⟨0, rfl, start⟩
        · rintro ⟨n, rfl, -, -, first⟩
          cases n with
          | zero => rfl
          | succ n => exact absurd start.here (first 0 (Nat.succ_pos n))
      · refine onward zero ?_
        intro here
        exact found (List.cons_prefix_cons.mp here).2

/-- The first `filename=` of a header value is followed by a quote, and by a name without an
allowed type or without a second quote. A zero byte ends the value before it, or the name. -/
def Refuses (v : Bytes) : Prop :=
  ∃ n, FirstAt (ascii "filename=") v n ∧ v[n + 9]? = some quote ∧
    ∀ name after, v.drop (n + 10) = name ++ quote :: after → quote ∉ name →
      ¬AllowedName (name.takeWhile (· ≠ 0))

theorem checkQuoted_iff {v : Bytes} {filename : Nat} (inside : filename ≤ v.length)
    (small : v.length < 2 ^ 64) :
    (checkQuoted ⟨v, 0, 0, 0, []⟩ filename 0 v.length).checkName = -1 ↔
      ∀ name after, v.drop filename = name ++ quote :: after → quote ∉ name →
        ¬AllowedName (name.takeWhile (· ≠ 0)) := by
  have room : wrap ((v.length : Int) - ((filename : Int) - (0 : Nat))) = v.length - filename := by
    unfold wrap
    omega
  unfold checkQuoted
  rw [room, strnchr, List.take_of_length_le (by rw [List.length_drop])]
  by_cases closed : quote ∈ v.drop filename
  · obtain ⟨name, after, split_, absent⟩ := List.eq_append_cons_of_mem closed
    have name_ : cString (v.set (filename + name.length) 0) filename =
        name.takeWhile (· ≠ 0) := by
      have zero : (v.set (filename + name.length) 0).drop filename = name ++ 0 :: after := by
        rw [List.drop_set, if_neg (by omega), Nat.add_sub_cancel_left, split_,
          List.set_append_right _ _ le_rfl, Nat.sub_self, List.set_cons_zero]
      rw [cString, zero, List.takeWhile_append]
      split
      · rename_i whole
        rw [List.takeWhile_cons_of_neg (by simp), List.append_nil]
        exact ((List.takeWhile_prefix _).eq_of_length whole).symm
      · rfl
    have only : (∀ name' after', v.drop filename = name' ++ quote :: after' → quote ∉ name' →
        ¬AllowedName (name'.takeWhile (· ≠ 0))) ↔ ¬AllowedName (name.takeWhile (· ≠ 0)) := by
      constructor
      · exact fun all => all name after split_ absent
      · intro refused_ name' after' split' absent'
        have length : (name' ++ quote :: after').findIdx? (· == quote) = some name'.length :=
          findIdx_split absent' _
        rw [← split', split_, findIdx_split absent] at length
        cases (List.append_inj (split_.symm.trans split') (Option.some.inj length)).1
        exact refused_
    rw [only, split_, findIdx_split absent]
    dsimp only
    rw [name_, ← refusesName_iff]
    split
    · rename_i refused_
      exact iff_of_true rfl refused_
    · rename_i allowed
      exact iff_of_false (by simp) allowed
  · rw [findIdx_absent closed]
    refine iff_of_true rfl ?_
    intro name after split_
    rw [split_] at closed
    simp at closed

theorem refused_iff {v : Bytes} (small : v.length < 2 ^ 64) : refused v = true ↔ Refuses v := by
  have start (n : Nat) : strnstr v 0 "filename=" v.length = some n ↔
      FirstAt (ascii "filename=") v n := by
    have split_ : ascii "filename=" = 102 :: ascii "ilename=" := by decide
    rw [strnstr, split_]
    simp only [List.drop_zero]
    rw [strnstrLoop_iff (by decide)]
    simp
  unfold refused Refuses
  cases found : strnstr v 0 "filename=" v.length with
  | none =>
      refine iff_of_false (by simp) ?_
      rintro ⟨n, at_, -⟩
      rw [(start n).mpr at_] at found
      cases found
  | some n =>
      have only : ∀ m, FirstAt (ascii "filename=") v m ↔ m = n := by
        intro m
        rw [← start, found, Option.some.injEq, eq_comm]
      simp only [only, exists_eq_left, Bool.decide_and, Bool.and_eq_true, decide_eq_true_eq]
      refine and_congr_right fun quoted => ?_
      have inside : n + 9 < v.length := (List.getElem?_eq_some_iff.mp quoted).1
      exact checkQuoted_iff (by omega) small

/-! ## The parts that are saved -/

structure FoundPart where
  values : List Bytes
  content : Bytes

def foundParts : List Bytes → List Item → List FoundPart
  | _, [] => []
  | values, .headerValue value :: items => foundParts (values ++ [value]) items
  | values, .chunkData content :: items => ⟨values, content⟩ :: foundParts [] items

def FoundPart.Skipped (part : FoundPart) : Prop :=
  part.content = [] ∨ ∃ value ∈ part.values, Refuses value

open Classical in
/-- The parts whose content is saved. For `/up` that takes a record, of which some were allocated
before. -/
noncomputable def savedParts (api : Api) (alloc : Nat → Bool) : Nat → List FoundPart → List FoundPart
  | _, [] => []
  | asked, part :: parts =>
      if part.Skipped then savedParts api alloc asked parts
      else if api = .upload then part :: savedParts api alloc asked parts
      else if alloc asked then part :: savedParts api alloc (asked + 1) parts
      else savedParts api alloc (asked + 1) parts

theorem savedParts_skipped {api : Api} {alloc : Nat → Bool} {asked : Nat}
    {parts : List FoundPart} : ∀ part ∈ savedParts api alloc asked parts,
      part ∈ parts ∧ ¬part.Skipped := by
  induction parts generalizing asked with
  | nil => simp [savedParts]
  | cons part parts ih =>
      intro part' member
      rw [savedParts] at member
      have rest (asked : Nat) (member : part' ∈ savedParts api alloc asked parts) :
          part' ∈ part :: parts ∧ ¬part'.Skipped :=
        ⟨List.mem_cons_of_mem _ (ih part' member).1, (ih part' member).2⟩
      split at member
      · exact rest _ member
      · rename_i kept
        have first : part ∈ part :: parts ∧ ¬part.Skipped := ⟨List.mem_cons_self, kept⟩
        split_ifs at member
        · rcases List.mem_cons.mp member with rfl | member
          · exact first
          · exact rest _ member
        · rcases List.mem_cons.mp member with rfl | member
          · exact first
          · exact rest _ member
        · exact rest _ member

theorem mem_savedParts {api : Api} {asked : Nat} {parts : List FoundPart} {part : FoundPart}
    (member : part ∈ parts) (kept : ¬part.Skipped) :
    part ∈ savedParts api (fun _ => true) asked parts := by
  induction parts generalizing asked with
  | nil => cases member
  | cons part' parts ih =>
      rw [savedParts]
      rcases List.mem_cons.mp member with rfl | member
      · rw [if_neg kept]
        cases api <;> exact List.mem_cons_self
      · split
        · exact ih member
        · cases api with
          | upload => exact List.mem_cons_of_mem _ (ih member)
          | up => exact List.mem_cons_of_mem _ (ih member)

theorem foldl_next {api : Api} {alloc : Nat → Bool} {items : List Item} {values : List Bytes}
    {s : Intake} (check : s.check = true ↔ ∃ value ∈ values, Refuses value)
    (small : ∀ value, .headerValue value ∈ items → value.length < 2 ^ 64) :
    (items.foldl (Intake.next api alloc) s).saved =
      s.saved ++ (savedParts api alloc s.asked (foundParts values items)).map
        FoundPart.content := by
  induction items generalizing values s with
  | nil => exact (List.append_nil _).symm
  | cons item items ih =>
      have small' : ∀ value, .headerValue value ∈ items → value.length < 2 ^ 64 :=
        fun value member => small value (List.mem_cons_of_mem _ member)
      cases item with
      | headerValue value =>
          rw [List.foldl_cons, foundParts]
          refine ih (s := s.next api alloc (.headerValue value)) ?_ small'
          have judged := refused_iff (small value List.mem_cons_self)
          show (s.check || refused value) = true ↔ _
          rw [Bool.or_eq_true, check, judged]
          simp [or_and_right, exists_or]
      | chunkData content =>
          rw [List.foldl_cons, foundParts, savedParts]
          have fresh : ∀ s' : Intake, s'.check = false →
              (s'.check = true ↔ ∃ value ∈ ([] : List Bytes), Refuses value) := by
            intro s' unset
            simp [unset]
          by_cases refused_ : s.check = true
          · have skipped : FoundPart.Skipped ⟨values, content⟩ := .inr (check.mp refused_)
            rw [if_pos skipped, Intake.next, if_pos refused_]
            exact ih (fresh _ rfl) small'
          have unset : s.check = false := Bool.eq_false_iff.mpr refused_
          by_cases empty : content = []
          · have skipped : FoundPart.Skipped ⟨values, content⟩ := .inl empty
            rw [if_pos skipped, Intake.next, if_neg refused_, if_pos empty]
            exact ih (fresh _ unset) small'
          have kept : ¬FoundPart.Skipped ⟨values, content⟩ := by
            rintro (empty' | bad)
            · exact empty empty'
            · exact refused_ (check.mpr bad)
          rw [if_neg kept, Intake.next, if_neg refused_, if_neg empty]
          split_ifs
          · refine (ih (s := { s with saved := s.saved ++ [content] }) (fresh _ unset) small').trans ?_
            simp
          · refine (ih (s := { s with asked := s.asked + 1, saved := s.saved ++ [content] })
              (fresh _ unset) small').trans ?_
            simp
          · exact ih (s := { s with asked := s.asked + 1 }) (fresh _ unset) small'

def bodyParts (P buf : Bytes) : List FoundPart := foundParts [] (items P buf)

theorem items_small {P buf : Bytes} (value : Bytes) (member : .headerValue value ∈ items P buf) :
    value.length ≤ buf.length := by
  obtain ⟨⟨item, rest⟩, found, same⟩ := List.mem_map.mp member
  obtain ⟨⟨op, r⟩, -, handed⟩ := List.mem_filterMap.mp found
  cases op with
  | emit cb first last =>
      cases cb <;> cases handed
      · cases same
        simp only [slice, List.length_take, List.length_drop]
        omega
      · cases same
  | buf _ | boundary _ | notify _ => cases handed

theorem fresh_intake {asked : Nat} {saved : List Bytes} :
    (Intake.mk false asked saved).check = true ↔ ∃ value ∈ ([] : List Bytes), Refuses value := by
  simp

theorem runMultipart_saves {settings : HttpSettings} {api : Api} {alloc : Nat → Bool}
    {P buf mem : Bytes} {log : List (Event Http)} (nonempty : P ≠ []) (small : buf.length < 2 ^ 64)
    (holds : mem.take buf.length = buf) :
    (serving alloc).wp (runMultipart settings api P buf.length ⟨mem, 0, 0, 0, []⟩)
      (fun _ log' => savedImages log' = savedImages log ++
        (savedParts api alloc (mallocs log) (bodyParts P buf)).map FoundPart.content) log := by
  refine Machine.wp_mono (runMultipart_wp nonempty small holds) ?_
  rintro r log' ⟨saved, -⟩
  rw [saved]
  refine foldl_next fresh_intake ?_
  intro value member
  have := items_small value member
  omega

/-! ## The law -/

def IsTokenChar (c : UInt8) : Prop := 33 ≤ c ∧ c ≤ 126 ∧ c ∉ ascii "()<>@,;:\\\"/[]?="

instance (c : UInt8) : Decidable (IsTokenChar c) := inferInstanceAs (Decidable (_ ∧ _))

/-- How a value of a parameter is written in front of the rest of a header value. -/
inductive Written (name : Bytes) : Bytes → Bytes → Prop where
  | quoted (rest : Bytes) (closed : quote ∉ name) : Written name (quote :: (name ++ [quote])) rest
  | token (rest : Bytes) (nonempty : name ≠ []) (chars : ∀ c ∈ name, IsTokenChar c)
      (ends : ∀ c ∈ rest.head?, ¬IsTokenChar c) : Written name name rest

def Carries (key : String) (v name : Bytes) : Prop :=
  ∃ front blanks key' written rest,
    v = front ++ (blanks ++ (key' ++ equals :: (written ++ rest))) ∧
    key'.map lower = ascii key ∧ Written name written rest ∧
    -- It starts the value or follows a semicolon, behind blanks and outside of quotes.
    (∀ c ∈ blanks, c = space ∨ c = 9) ∧ (front = [] ∨ front.getLast? = some semicolon) ∧
    Even (front.count quote)

def FoundPart.Lawful (part : FoundPart) : Prop :=
  ∀ value ∈ part.values, ∀ name, Carries "filename" value name → AllowedName name

/-- An upload saves the parts that are not skipped. They obey the law exactly when every part that
breaks it is empty, or has a header value that is refused. -/
theorem upload_filter (settings : HttpSettings) (api : Api) (boundary buf mem : Bytes)
    (log : List (Event Http)) (small : buf.length < 2 ^ 64) (holds : mem.take buf.length = buf) :
    let P := minus :: minus :: boundary
    (∀ alloc, (serving alloc).wp (runMultipart settings api P buf.length ⟨mem, 0, 0, 0, []⟩)
      (fun _ log' => savedImages log' = savedImages log ++
        (savedParts api alloc (mallocs log) (bodyParts P buf)).map FoundPart.content) log) ∧
    ((∀ alloc, ∀ part ∈ savedParts api alloc (mallocs log) (bodyParts P buf), part.Lawful) ↔
      ∀ part ∈ bodyParts P buf, part.content ≠ [] →
        (∃ value ∈ part.values, ∃ name, Carries "filename" value name ∧ ¬AllowedName name) →
        ∃ value ∈ part.values, Refuses value) := by
  intro P
  refine ⟨fun alloc => runMultipart_saves (List.cons_ne_nil _ _) small holds, ?_⟩
  constructor
  · rintro lawful part member full ⟨value, here, name, carries, bad⟩
    by_contra kept
    have unskipped : ¬part.Skipped := by
      rintro (empty | refused_)
      · exact full empty
      · exact kept refused_
    exact bad (lawful _ part (mem_savedParts member unskipped) value here name carries)
  · intro condition alloc part member value here name carries
    obtain ⟨found, kept⟩ := savedParts_skipped part member
    by_contra bad
    apply kept
    by_cases empty : part.content = []
    · exact .inl empty
    · exact .inr (condition part found empty ⟨value, here, name, carries, bad⟩)

def tokenBody : Bytes := ascii "--b\r\nC: form-data; filename=x.php\r\n\r\nhi\r\n--b--"

theorem upload_filter_small :
    (∀ alloc, (serving alloc).wp
      (runMultipart uploadSettings .up (ascii "--b") tokenBody.length ⟨tokenBody, 0, 0, 0, []⟩)
      (fun _ log' => savedImages log' = savedImages [] ++
        (savedParts .up alloc (mallocs []) (bodyParts (ascii "--b") tokenBody)).map
          FoundPart.content) []) ∧
    ((∀ alloc, ∀ part ∈ savedParts .up alloc (mallocs []) (bodyParts (ascii "--b") tokenBody),
        part.Lawful) ↔
      ∀ part ∈ bodyParts (ascii "--b") tokenBody, part.content ≠ [] →
        (∃ value ∈ part.values, ∃ name, Carries "filename" value name ∧ ¬AllowedName name) →
        ∃ value ∈ part.values, Refuses value) :=
  upload_filter uploadSettings .up (ascii "b") tokenBody tokenBody [] (by decide +kernel)
    (by decide +kernel)

theorem tokenBody_items : items (ascii "--b") tokenBody =
    [.headerValue (ascii "form-data; filename=x.php"), .chunkData (ascii "hi")] := by
  decide +kernel

theorem token_name_saved :
    bodyParts (ascii "--b") tokenBody = [⟨[ascii "form-data; filename=x.php"], ascii "hi"⟩] ∧
    Carries "filename" (ascii "form-data; filename=x.php") (ascii "x.php") ∧
    ¬AllowedName (ascii "x.php") ∧
    ∀ api, (serving fun _ => true).wp
      (runMultipart uploadSettings api (ascii "--b") tokenBody.length ⟨tokenBody, 0, 0, 0, []⟩)
      (fun _ log => savedImages log = [ascii "hi"]) [] := by
  refine ⟨?_, ?_, ?_, ?_⟩
  · rw [bodyParts, tokenBody_items]
    rfl
  · refine ⟨ascii "form-data;", [space], ascii "filename", ascii "x.php", [], by decide +kernel,
      by decide, ?_, by simp, .inr rfl, by decide⟩
    exact .token [] (by decide) (by decide +kernel) (by simp)
  · rw [← refusesName_iff]
    decide +kernel
  · intro api
    refine Machine.wp_mono (runMultipart_wp (by decide) (by decide +kernel) (by decide +kernel)) ?_
    rintro r log ⟨saved, -⟩
    rw [saved, tokenBody_items]
    cases api <;> decide +kernel

end Ximg
