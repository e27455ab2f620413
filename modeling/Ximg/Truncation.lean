import Ximg.UploadFilter

/-!
# Bodies that are cut off

The parser is run on a body and on a prefix of it. Up to the last byte of the prefix both runs make
the same calls; there the shorter one may pass on a header that was cut off, and it ends.
-/

namespace Ximg
open Text Calls

/-! ## Two runs side by side -/

def HeaderEmit (e : Event Multipart) : Prop :=
  ∃ cb first last r, e = ⟨.emit cb first last, r⟩ ∧ cb ≠ .chunkData

/-- The calls are those of a longer run up to some point, and then only parts of a header. -/
def CutShort (log full : List (Event Multipart)) : Prop :=
  ∃ same extra more, log = same ++ extra ∧ full = same ++ more ∧ ∀ e ∈ extra, HeaderEmit e

theorem CutShort.of_front {log full : List (Event Multipart)} (h : log <+: full) :
    CutShort log full := by
  obtain ⟨more, rfl⟩ := h
  exact ⟨log, [], more, (List.append_nil _).symm, rfl, by simp⟩

theorem CutShort.of_scripted {α : Type} {answer : (op : MultipartOp) → op.Res}
    {rest : Prog Multipart α} {calls extra : List (Event Multipart)}
    (header : ∀ e ∈ extra, HeaderEmit e) :
    CutShort (calls ++ extra) (scripted answer rest calls).2 := by
  obtain ⟨more, full⟩ := scripted_extends answer rest calls
  exact ⟨calls, extra, more, rfl, full.symm, header⟩

section Lockstep
variable {answer : (op : MultipartOp) → op.Res} {boundaryLength n len : Nat} {p : MultipartLoop}
  {c : UInt8}

def LastTurn (i : Nat) (a b : Turn × List (Event Multipart)) : Prop :=
  a = b ∨ ∃ q extra, a = (.next q, b.2 ++ extra) ∧ q.i = i + 1 ∧ ∀ e ∈ extra, HeaderEmit e

theorem headerEmit_single {cb : DataCb} (header : cb ≠ .chunkData) (first last : Nat) (r : Int32) :
    ∀ e ∈ [(⟨.emit cb first last, r⟩ : Event Multipart)], HeaderEmit e := by
  intro e member
  rw [List.mem_singleton.mp member]
  exact ⟨cb, first, last, r, rfl, header⟩

variable (quietly : ∀ cb first last, answer (.emit cb first last) = (0 : Int32))
include quietly

theorem scripted_emit (cb : DataCb) (first last : Nat) (k : Prog Multipart Turn)
    (calls : List (Event Multipart)) :
    scripted answer (xEmitDataCb p cb first last k) calls =
      scripted answer k (calls ++ [⟨.emit cb first last, (0 : Int32)⟩]) := by
  unfold xEmitDataCb
  rw [scripted_call, quietly]
  rfl

theorem headerValueLast_cut (calls : List (Event Multipart)) :
    LastTurn p.i (scripted answer (headerValueLast p true) calls)
      (scripted answer (headerValueLast p false) calls) := by
  unfold headerValueLast
  rw [if_pos rfl, if_neg (by decide), scripted_emit quietly]
  refine .inr ⟨_, [⟨.emit .headerValue p.mark (p.i + 1), (0 : Int32)⟩], rfl, rfl, ?_⟩
  exact headerEmit_single (by decide) _ _ _

theorem headerValue_cut : LastTurn p.i (scripted answer (headerValue p c true) [])
    (scripted answer (headerValue p c false) []) := by
  unfold headerValue
  split
  · rw [scripted_emit quietly, scripted_emit quietly]
    exact headerValueLast_cut (p := { p with xState := .headerValueAlmostDone }) quietly _
  · exact headerValueLast_cut quietly _

theorem headerField_cut : LastTurn p.i (scripted answer (headerField p c true) [])
    (scripted answer (headerField p c false) []) := by
  unfold headerField
  split
  · exact .inl rfl
  split
  · exact .inl rfl
  split
  · exact .inl rfl
  split
  · exact .inl rfl
  rw [if_pos rfl, if_neg (by decide), scripted_emit quietly]
  refine .inr ⟨_, [⟨.emit .headerField p.mark (p.i + 1), (0 : Int32)⟩], rfl, rfl, ?_⟩
  exact headerEmit_single (by decide) _ _ _

theorem multipartSwitch_cut :
    LastTurn p.i (scripted answer (multipartSwitch boundaryLength p c true) [])
      (scripted answer (multipartSwitch boundaryLength p c false) []) := by
  unfold multipartSwitch
  split
  case h_3 => exact headerField_cut (p := { p with mark := p.i, xState := .headerField }) quietly
  case h_4 => exact headerField_cut quietly
  case h_6 =>
    split
    · exact .inl rfl
    · exact headerValue_cut (p := { p with mark := p.i, xState := .headerValue }) quietly
  case h_7 => exact headerValue_cut quietly
  all_goals exact .inl rfl

theorem multipartTurn_cut (inside : p.i < n) (less : n < len) :
    scripted answer (multipartTurn boundaryLength n p) [] =
        scripted answer (multipartTurn boundaryLength len p) [] ∨
      ∃ q extra, scripted answer (multipartTurn boundaryLength n p) [] =
          (.next q, (scripted answer (multipartTurn boundaryLength len p) []).2 ++ extra) ∧
        n ≤ q.i ∧ ∀ e ∈ extra, HeaderEmit e := by
  have before : decide (p.i = len - 1) = false := decide_eq_false (by omega)
  unfold multipartTurn
  rw [scripted_call, scripted_call, List.nil_append, before]
  by_cases last : p.i = n - 1
  · rw [decide_eq_true last]
    -- Both logs start with the read of this byte.
    have apart (isLast : Bool) := scripted_append answer
      (multipartSwitch boundaryLength p (answer (.buf p.i)) isLast)
      [⟨.buf p.i, answer (.buf p.i)⟩] []
    simp only [List.append_nil] at apart
    rw [apart true, apart false]
    rcases multipartSwitch_cut (c := answer (.buf p.i)) quietly with same | ⟨q, extra, cut, at_, header⟩
    · rw [same]
      exact .inl rfl
    · rw [cut]
      exact .inr ⟨q, extra, by simp, by omega, header⟩
  · rw [decide_eq_false last]
    exact .inl rfl

omit quietly in
theorem multipartLoop_done {turns : Nat} (done : n ≤ p.i) (calls : List (Event Multipart)) :
    (scripted answer (multipartLoop boundaryLength n turns p) calls).2 = calls := by
  cases turns with
  | zero => rfl
  | succ turns =>
      unfold multipartLoop
      rw [if_neg (by omega)]
      rfl

theorem multipartLoop_cut {turns turns' : Nat} (less : n < len) (enough : turns ≤ turns')
    (calls : List (Event Multipart)) :
    CutShort (scripted answer (multipartLoop boundaryLength n turns p) calls).2
      (scripted answer (multipartLoop boundaryLength len turns' p) calls).2 := by
  induction turns generalizing turns' p calls with
  | zero => exact .of_front (scripted_extends _ _ _)
  | succ turns ih =>
      by_cases done : n ≤ p.i
      · rw [multipartLoop_done done]
        exact .of_front (scripted_extends _ _ _)
      obtain ⟨turns', rfl⟩ : ∃ t, turns' = t + 1 := ⟨turns' - 1, by omega⟩
      unfold multipartLoop
      rw [if_pos (by omega), if_pos (by omega), scripted_bind, scripted_bind]
      have apart (len : Nat) := scripted_append answer (multipartTurn boundaryLength len p) calls []
      simp only [List.append_nil] at apart
      rw [apart n, apart len]
      have turn : scripted answer (multipartTurn boundaryLength n p) [] =
          scripted answer (multipartTurn boundaryLength len p) [] ∨ _ :=
        multipartTurn_cut quietly (not_le.mp done) less
      rcases turn with same | ⟨q, extra, cut, past, header⟩
      · rw [same]
        dsimp only
        cases (scripted answer (multipartTurn boundaryLength len p) []).1 with
        | next q => exact ih (by omega) _
        | returned k => exact .of_front List.prefix_rfl
      · rw [cut]
        dsimp only
        rw [multipartLoop_done past]
        rw [← List.append_assoc]
        exact .of_scripted header

end Lockstep

/-! ## What the runs find -/

section Items
variable {P buf : Bytes} {n : Nat}

theorem slice_take {first last : Nat} (inside : last ≤ n) :
    slice (buf.take n) first last = slice buf first last := by
  rw [slice, slice, List.drop_take, List.take_take, min_eq_left (by omega)]

theorem quietCalls_take (nonempty : P ≠ []) (less : n < buf.length) :
    CutShort (quietCalls P (buf.take n)) (quietCalls P buf) := by
  have length : (buf.take n).length = n := List.length_take_of_le less.le
  obtain ⟨front, logged⟩ := quietCalls_logged nonempty (buf.take n)
  have same : quietCalls P (buf.take n) =
      (scripted (quietAnswer P buf) (xMultipartParserExecute P.length n) []).2 := by
    have made : quietCalls P (buf.take n) =
        (scripted (quietAnswer P (buf.take n)) (xMultipartParserExecute P.length n) []).2 := by
      rw [quietCalls, length]
    rw [made]
    refine (congrArg Prod.snd (scripted_congr ?_)).symm
    rw [← made]
    rintro ⟨op, r⟩ member
    have fine := logged.fine _ member
    cases op with
    | buf i =>
        have inside : i < n := by
          rw [← length]
          exact fine
        show buf.getD i 0 = (buf.take n).getD i 0
        rw [List.getD_eq_getElem?_getD, List.getD_eq_getElem?_getD, List.getElem?_take_of_lt inside]
    | boundary i => rfl
    | notify cb => rfl
    | emit cb first last => rfl
  rw [same]
  refine multipartLoop_cut (fun _ _ _ => rfl) less ?_ []
  unfold multipartTurns
  omega

theorem items_take (nonempty : P ≠ []) (less : n < buf.length) :
    ∃ (same more : List (Event Multipart)) (values : List Bytes), quietCalls P buf = same ++ more ∧
      items P (buf.take n) =
        (deliveries buf same).map Prod.fst ++ values.map Item.headerValue ∧
      ∀ first last r, (⟨.emit .chunkData first last, r⟩ : Event Multipart) ∈ same →
        last + P.length + 3 < n := by
  have length : (buf.take n).length = n := List.length_take_of_le less.le
  obtain ⟨front, logged⟩ := quietCalls_logged nonempty (buf.take n)
  obtain ⟨same, extra, more, log, full, header⟩ := quietCalls_take nonempty less
  rw [log] at logged
  have found : ∀ e ∈ same, (delivered (buf.take n) e).map Prod.fst =
      (delivered buf e).map Prod.fst := by
    rintro ⟨op, r⟩ member
    have fine := logged.fine _ (List.mem_append_left _ member)
    cases op with
    | emit cb first last =>
        have inside : last ≤ n := by
          rw [← length]
          exact fine.2.1
        cases cb <;> simp [delivered, slice_take inside]
    | buf _ | boundary _ | notify _ => rfl
  have values : ∃ values : List Bytes, (deliveries (buf.take n) extra).map Prod.fst =
      values.map Item.headerValue := by
    clear log logged
    induction extra with
    | nil => exact ⟨[], rfl⟩
    | cons e extra ih =>
        obtain ⟨values, rest⟩ := ih fun e member => header e (List.mem_cons_of_mem _ member)
        obtain ⟨cb, first, last, r, rfl, notChunk⟩ := header e List.mem_cons_self
        cases cb with
        | headerField => exact ⟨values, rest⟩
        | headerValue =>
            refine ⟨slice (buf.take n) first last :: values, ?_⟩
            rw [List.map_cons, ← rest]
            rfl
        | chunkData => exact absurd rfl notChunk
  obtain ⟨values, rest⟩ := values
  refine ⟨same, more, values, full, ?_, ?_⟩
  · rw [items, log, deliveries_append, List.map_append, rest, deliveries, deliveries,
      List.map_filterMap, List.map_filterMap, List.filterMap_congr found]
  · intro first last r member
    have fine := logged.fine _ (List.mem_append_left _ member)
    rw [← length]
    exact fine.2.2.2

end Items

/-! ## What the runs save -/

section Saves
variable {api : Api} {alloc : Nat → Bool} {s : Intake}

theorem Intake.next_saved (item : Item) : s.saved <+: (s.next api alloc item).saved := by
  cases item with
  | headerValue value => exact List.prefix_rfl
  | chunkData content =>
      unfold Intake.next
      dsimp only
      split_ifs
      · exact List.prefix_rfl
      · exact List.prefix_rfl
      · exact List.prefix_append _ _
      · exact List.prefix_append _ _
      · exact List.prefix_rfl

theorem foldl_saved (items : List Item) :
    s.saved <+: (items.foldl (Intake.next api alloc) s).saved := by
  induction items generalizing s with
  | nil => exact List.prefix_rfl
  | cons item items ih => exact (Intake.next_saved item).trans ih

theorem foldl_values (values : List Bytes) :
    ((values.map Item.headerValue).foldl (Intake.next api alloc) s).saved = s.saved := by
  induction values generalizing s with
  | nil => rfl
  | cons value values ih => exact ih

theorem foldl_front {items items' : List Item} (h : items <+: items') :
    (items.foldl (Intake.next api alloc) s).saved <+:
      (items'.foldl (Intake.next api alloc) s).saved := by
  obtain ⟨more, rfl⟩ := h
  rw [List.foldl_append]
  exact foldl_saved more

end Saves

/-! ## The parts of a body that is cut off -/

section Parts
variable {P : Bytes}

def closedBody (parts : List (Part P)) : Bytes :=
  P ++ parts.flatMap fun part => crlf ++ (part.encode ++ delimiter P)

theorem encodeBody_append (parts parts' : List (Part P)) (epilogue : Bytes) :
    encodeBody (parts ++ parts') epilogue = closedBody parts ++ encodeParts epilogue parts' := by
  unfold encodeBody closedBody
  rw [List.append_assoc]
  congr 1
  induction parts with
  | nil => rfl
  | cons part parts ih => simp [encodeParts, ih]

theorem partItems_split (before : List (Part P)) (part : Part P) (after : List (Part P))
    (epilogue : Bytes) :
    ∃ front rest, partItems epilogue (before ++ part :: after) =
        front ++ (.chunkData part.content, delimiter P ++ encodeParts epilogue after) :: rest ∧
      front.map Prod.fst = before.flatMap Part.contents ++
        (part.headers.map PartHeader.value).map Item.headerValue := by
  induction before with
  | nil =>
      refine ⟨_, _, List.append_assoc _ [_] _, ?_⟩
      rw [headerItems_fst, List.map_map]
      rfl
  | cons first before ih =>
      obtain ⟨front, rest, split_, same⟩ := ih
      refine ⟨first.items (delimiter P ++ encodeParts epilogue (before ++ part :: after)) ++ front,
        rest, ?_, ?_⟩
      · rw [List.cons_append, partItems, split_, List.append_assoc]
      · rw [List.map_append, same, List.flatMap_cons, ← List.append_assoc, Part.items,
          List.map_append, headerItems_fst]
        rfl

def Part.found (part : Part P) : FoundPart := ⟨part.headers.map PartHeader.value, part.content⟩

theorem foundParts_headers (headers : List Bytes) (values : List Bytes) (items : List Item) :
    foundParts values (headers.map Item.headerValue ++ items) =
      foundParts (values ++ headers) items := by
  induction headers generalizing values with
  | nil => rw [List.append_nil]; rfl
  | cons value headers ih =>
      rw [List.map_cons, List.cons_append, foundParts, ih, List.append_assoc]
      rfl

theorem foundParts_contents (parts : List (Part P)) :
    foundParts [] (parts.flatMap Part.contents) = parts.map Part.found := by
  induction parts with
  | nil => rfl
  | cons part parts ih =>
      have headers : part.contents =
          (part.headers.map PartHeader.value).map Item.headerValue ++ [.chunkData part.content] := by
        rw [List.map_map]
        rfl
      rw [List.flatMap_cons, headers, List.append_assoc, foundParts_headers, List.singleton_append,
        foundParts, ih]
      rfl

theorem deliveries_encodeBody (line : cr ∉ P) (nonempty : P ≠ []) {parts : List (Part P)}
    (some_ : parts ≠ []) (epilogue : Bytes) :
    deliveries (encodeBody parts epilogue) (quietCalls P (encodeBody parts epilogue)) =
      partItems epilogue parts :=
  (scripted_post (M := quiet P (encodeBody parts epilogue)) (fun _ _ _ => rfl) quietAnswer_legal
    (multipart_items line nonempty parts some_ epilogue)).2

theorem deliveries_before (line : cr ∉ P) (nonempty : P ≠ []) (before : List (Part P))
    (part : Part P) (after : List (Part P)) (epilogue : Bytes) {n : Nat}
    (cut : n < (closedBody (before ++ [part])).length) {same more : List (Event Multipart)}
    (full : quietCalls P (encodeBody (before ++ part :: after) epilogue) = same ++ more)
    (inside : ∀ first last r, (⟨.emit .chunkData first last, r⟩ : Event Multipart) ∈ same →
      last + P.length + 3 < n) :
    (deliveries (encodeBody (before ++ part :: after) epilogue) same).map Prod.fst <+:
      before.flatMap Part.contents ++
        (part.headers.map PartHeader.value).map Item.headerValue := by
  obtain ⟨front, rest, split_, fst⟩ := partItems_split before part after epilogue
  have some_ : before ++ part :: after ≠ [] := by simp
  have all := deliveries_encodeBody line nonempty some_ epilogue
  have length : (encodeBody (before ++ part :: after) epilogue).length =
      (closedBody (before ++ [part])).length + (encodeParts epilogue after).length := by
    rw [List.append_cons, encodeBody_append, List.length_append]
  generalize encodeBody (before ++ part :: after) epilogue = body at *
  rw [full, deliveries_append, split_] at all
  rw [← fst]
  refine List.IsPrefix.map _ (List.prefix_of_prefix_length_le ⟨_, all⟩ (List.prefix_append _ _) ?_)
  -- Otherwise the content of the part would be among the deliveries.
  by_contra long
  have member : (.chunkData part.content, delimiter P ++ encodeParts epilogue after) ∈
      deliveries body same := by
    have here := congrArg (fun l => l[front.length]?) all
    simp only [List.getElem?_append_right le_rfl, Nat.sub_self, List.getElem?_cons_zero] at here
    rw [List.getElem?_append_left (by omega)] at here
    exact List.mem_of_getElem? here
  obtain ⟨⟨op, r⟩, made, handed⟩ := List.mem_filterMap.mp member
  cases op with
  | emit cb first last =>
      cases cb with
      | headerField => cases handed
      | headerValue =>
          simp [delivered] at handed
      | chunkData =>
          have rest_ : body.drop last = delimiter P ++ encodeParts epilogue after := by
            simp only [delivered, Option.some.injEq, Prod.mk.injEq] at handed
            exact handed.2
          have := inside first last r made
          have := congrArg List.length rest_
          simp only [List.length_drop, delimiter, List.length_append, List.length_cons] at this
          omega
  | buf _ | boundary _ | notify _ => cases handed

end Parts

theorem runMultipart_fold {settings : HttpSettings} {api : Api} {alloc : Nat → Bool}
    {P buf mem : Bytes} {n : Nat} (nonempty : P ≠ []) (small : buf.length < 2 ^ 64)
    (holds : mem.take n = buf) (length : buf.length = n) :
    (serving alloc).wp (runMultipart settings api P n ⟨mem, 0, 0, 0, []⟩)
      (fun _ log => savedImages log =
        ((items P buf).foldl (Intake.next api alloc) ⟨false, 0, []⟩).saved) [] := by
  subst length
  refine Machine.wp_mono (runMultipart_wp nonempty small holds) ?_
  rintro r log ⟨saved, -⟩
  exact saved

/-- A body that was cut off makes the upload save a first part of what the whole body makes it save,
and of the parts whose delimiter it still has. -/
theorem upload_truncated (settings : HttpSettings) (api : Api) (alloc : Nat → Bool)
    (boundary : Bytes) (line : cr ∉ boundary) (parts : List (Part (minus :: minus :: boundary)))
    (nonempty : parts ≠ []) (epilogue : Bytes) (n : Nat) (mem mem' : Bytes)
    (small : (encodeBody parts epilogue).length < 2 ^ 64)
    (le : n ≤ (encodeBody parts epilogue).length)
    (holds : mem.take n = (encodeBody parts epilogue).take n)
    (holds' : mem'.take (encodeBody parts epilogue).length = encodeBody parts epilogue) :
    let P := minus :: minus :: boundary
    (serving alloc).wp (runMultipart settings api P n ⟨mem, 0, 0, 0, []⟩)
      (fun _ log => (serving alloc).wp
        (runMultipart settings api P (encodeBody parts epilogue).length ⟨mem', 0, 0, 0, []⟩)
        (fun _ log' => savedImages log <+: savedImages log' ∧
          savedImages log' = (savedParts api alloc 0 (parts.map Part.found)).map FoundPart.content ∧
          ∀ before part after, parts = before ++ part :: after →
            n < (closedBody (before ++ [part])).length →
            savedImages log <+:
              (savedParts api alloc 0 (before.map Part.found)).map FoundPart.content) []) [] := by
  intro P
  have plain : cr ∉ P := by
    have dash : cr ≠ minus := by decide
    simp [P, line, dash]
  have some_ : P ≠ [] := List.cons_ne_nil _ _
  have found : items P (encodeBody parts epilogue) = parts.flatMap Part.contents := by
    rw [items, deliveries_encodeBody plain some_ nonempty, partItems_fst]
  have length : ((encodeBody parts epilogue).take n).length = n := List.length_take_of_le le
  -- What some of the parts save, when the parser finds all of them.
  have fold (front after : List (Part P)) (all : parts = front ++ after) :
      ((front.flatMap Part.contents).foldl (Intake.next api alloc) ⟨false, 0, []⟩).saved =
        (savedParts api alloc 0 (front.map Part.found)).map FoundPart.content := by
    have values : ∀ value, .headerValue value ∈ front.flatMap Part.contents →
        value.length < 2 ^ 64 := by
      intro value member
      have here : .headerValue value ∈ items P (encodeBody parts epilogue) := by
        rw [found, all, List.flatMap_append]
        exact List.mem_append_left _ member
      have := items_small value here
      omega
    rw [foldl_next fresh_intake values, foundParts_contents]
    rfl
  refine Machine.wp_mono (runMultipart_fold some_ (by omega) holds length) ?_
  intro _ log saved
  refine Machine.wp_mono (runMultipart_fold some_ small holds' rfl) ?_
  intro _ log' saved'
  rw [saved, saved', found]
  refine ⟨?_, fold parts [] (List.append_nil _).symm, ?_⟩
  · rcases le.lt_or_eq with less | rfl
    · obtain ⟨same, more, values, full, cut, -⟩ := items_take some_ less
      rw [cut, List.foldl_append, foldl_values, ← found, items, full, deliveries_append,
        List.map_append]
      exact foldl_front (List.prefix_append _ _)
    · rw [List.take_length, found]
  · rintro before part after rfl cut
    have less : n < (encodeBody (before ++ part :: after) epilogue).length := by
      rw [List.append_cons, encodeBody_append, List.length_append]
      omega
    obtain ⟨same, more, values, full, cut', inside⟩ := items_take some_ less
    have front := deliveries_before plain some_ before part after epilogue cut full inside
    rw [cut', List.foldl_append, foldl_values, ← fold before (part :: after) rfl]
    refine (foldl_front front).trans ?_
    rw [List.foldl_append, foldl_values]

theorem upload_truncated_small :
    (serving fun _ => true).wp
      (runMultipart uploadSettings .up (ascii "--b") 20
        ⟨(encodeBody [smallPart] []).take 20, 0, 0, 0, []⟩)
      (fun _ log => (serving fun _ => true).wp
        (runMultipart uploadSettings .up (ascii "--b") (encodeBody [smallPart] []).length
          ⟨encodeBody [smallPart] [], 0, 0, 0, []⟩)
        (fun _ log' => savedImages log <+: savedImages log' ∧
          savedImages log' = (savedParts .up (fun _ => true) 0 ([smallPart].map Part.found)).map
            FoundPart.content ∧
          ∀ before part after, [smallPart] = before ++ part :: after →
            20 < (closedBody (before ++ [part])).length →
            savedImages log <+: (savedParts .up (fun _ => true) 0 (before.map Part.found)).map
              FoundPart.content) []) [] :=
  upload_truncated uploadSettings .up (fun _ => true) (ascii "b") (by decide) [smallPart]
    (by decide) [] 20 _ _ (by decide +kernel) (by decide +kernel) (by decide +kernel)
    (by decide +kernel)

end Ximg
