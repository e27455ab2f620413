import Ximg.MultipartBounds

/-!
# Parsing what was encoded

A multipart body is encoded from a list of parts. The parser hands the value of each header and the
content of each part to its callbacks, in order.
-/

namespace Ximg
open Text Calls

inductive Item where
  | headerValue (value : Bytes)
  | chunkData (content : Bytes)
  deriving DecidableEq

def slice (buf : Bytes) (first last : Nat) : Bytes := (buf.drop first).take (last - first)

def delivered (buf : Bytes) (e : Event Multipart) : Option (Item × Bytes) :=
  match e.1 with
  | .emit .headerValue first last => some (.headerValue (slice buf first last), buf.drop last)
  | .emit .chunkData first last => some (.chunkData (slice buf first last), buf.drop last)
  | _ => none

def deliveries (buf : Bytes) (log : List (Event Multipart)) : List (Item × Bytes) :=
  log.filterMap (delivered buf)

/-! ## The encoding -/

def crlf : Bytes := [cr, lf]

structure PartHeader where
  name : Bytes
  spaces : Nat
  value : Bytes
  named : name ≠ []
  letters : ∀ c ∈ name, IsLetter c ∨ c = minus
  line : cr ∉ value
  trimmed : value.head? ≠ some space

structure Part (P : Bytes) where
  headers : List PartHeader
  content : Bytes
  whole : ¬delimiter P <:+: content

section Encoding
variable {P : Bytes}

def PartHeader.tail (header : PartHeader) : Bytes :=
  List.replicate header.spaces space ++ (header.value ++ crlf)

def PartHeader.encode (header : PartHeader) : Bytes := header.name ++ colon :: header.tail

def encodeHeaders (headers : List PartHeader) : Bytes := headers.flatMap PartHeader.encode

def Part.encode (part : Part P) : Bytes := encodeHeaders part.headers ++ (crlf ++ part.content)

def encodeParts (epilogue : Bytes) : List (Part P) → Bytes
  | [] => minus :: minus :: epilogue
  | part :: parts => crlf ++ (part.encode ++ (delimiter P ++ encodeParts epilogue parts))

def encodeBody (parts : List (Part P)) (epilogue : Bytes) : Bytes :=
  P ++ encodeParts epilogue parts

def headerItems : List PartHeader → Bytes → List (Item × Bytes)
  | [], _ => []
  | header :: headers, rest =>
      (.headerValue header.value, crlf ++ (encodeHeaders headers ++ rest)) ::
        headerItems headers rest

def Part.items (part : Part P) (rest : Bytes) : List (Item × Bytes) :=
  headerItems part.headers (crlf ++ (part.content ++ rest)) ++ [(.chunkData part.content, rest)]

def partItems (epilogue : Bytes) : List (Part P) → List (Item × Bytes)
  | [] => []
  | part :: parts =>
      part.items (delimiter P ++ encodeParts epilogue parts) ++ partItems epilogue parts

end Encoding

/-! ## Reading on -/

section Reading
variable {P buf : Bytes} {total : List (Item × Bytes)} {log : List (Event Multipart)}

@[simp] theorem deliveries_append (log log' : List (Event Multipart)) :
    deliveries buf (log ++ log') = deliveries buf log ++ deliveries buf log' :=
  List.filterMap_append ..

abbrev quiet (P buf : Bytes) : Machine Multipart (List (Event Multipart)) := parsing P buf (· = 0)

def Complete (buf : Bytes) (total : List (Item × Bytes)) (r : Option Nat)
    (log : List (Event Multipart)) : Prop :=
  r = some buf.length ∧ deliveries buf log = total

def Delivers (P buf : Bytes) (total : List (Item × Bytes)) (p : MultipartLoop)
    (D : List (Item × Bytes)) : Prop :=
  ∀ turns log, turnsLeft buf.length p < turns → deliveries buf log = D →
    (quiet P buf).wp (multipartLoop P.length buf.length turns p) (Complete buf total) log

def NextPost (P buf : Bytes) (total : List (Item × Bytes)) (bound : Nat) (t : Turn)
    (log : List (Event Multipart)) : Prop :=
  ∃ p, t = .next p ∧ turnsLeft buf.length p < bound ∧ Delivers P buf total p (deliveries buf log)

variable {p : MultipartLoop} {c : UInt8} {rest : Bytes} {D : List (Item × Bytes)}

theorem here_inside {i : Nat} (here : buf.drop i = c :: rest) : i < buf.length := by
  by_contra outside
  rw [List.drop_eq_nil_of_le (by omega)] at here
  cases here

theorem here_next {i : Nat} (here : buf.drop i = c :: rest) : buf.drop (i + 1) = rest := by
  rw [← List.drop_drop, here, List.drop_one, List.tail_cons]

theorem here_get {i : Nat} (here : buf.drop i = c :: rest) : buf[i]? = some c := by
  rw [← Nat.add_zero i, ← List.getElem?_drop, here, List.getElem?_cons_zero]

theorem here_last {i : Nat} (here : buf.drop i = c :: rest) (more : rest ≠ []) :
    i ≠ buf.length - 1 := by
  have length := congrArg List.length here
  have := List.length_pos_iff.mpr more
  rw [List.length_drop, List.length_cons] at length
  omega

theorem delivers_any (here : buf.drop p.i = c :: rest)
    (turn : ∀ isLast log, (rest ≠ [] → isLast = false) → deliveries buf log = D →
      (quiet P buf).wp (multipartSwitch P.length p c isLast)
        (NextPost P buf total (turnsLeft buf.length p)) log) :
    Delivers P buf total p D := by
  intro turns log enough same
  cases turns with
  | zero => omega
  | succ turns =>
      unfold multipartLoop
      rw [if_pos (here_inside here), Machine.wp_bind]
      intro b legal
      obtain rfl : b = c := legal c (here_get here)
      have read : deliveries buf (log ++ [⟨.buf p.i, b⟩]) = D := by
        rw [deliveries_append, same]
        exact List.append_nil D
      refine Machine.wp_mono (turn _ _ (fun more => decide_eq_false (here_last here more)) read) ?_
      rintro t log' ⟨p', rfl, less, rest⟩
      exact rest turns log' (by omega) rfl

theorem delivers_turn (here : buf.drop p.i = c :: rest) (more : rest ≠ [])
    (turn : ∀ log, deliveries buf log = D → (quiet P buf).wp (multipartSwitch P.length p c false)
      (NextPost P buf total (turnsLeft buf.length p)) log) :
    Delivers P buf total p D := by
  apply delivers_any here
  intro isLast log notLast same
  rw [notLast more]
  exact turn log same

theorem turnsLeft_advance {i : Nat} (inside : p.i < buf.length) (same : i = p.i + 1)
    (state : XState) (index mark dmark dbmark : Nat) :
    turnsLeft buf.length ⟨state, index, i, mark, dmark, dbmark⟩ < turnsLeft buf.length p := by
  have le := stay_le ⟨state, index, i, mark, dmark, dbmark⟩
  simp only [turnsLeft]
  omega

theorem quiet_advance {q : MultipartLoop} (inside : p.i < buf.length) (same : q.i = p.i)
    (next : Delivers P buf total { q with i := p.i + 1 } D) (delivered : deliveries buf log = D) :
    (quiet P buf).wp (advance q) (NextPost P buf total (turnsLeft buf.length p)) log := by
  rw [← same] at next
  rw [← delivered] at next
  exact ⟨_, rfl, turnsLeft_advance inside (by rw [same]) _ _ _ _ _, next⟩

theorem quiet_notify {q : MultipartLoop} {cb : NotifyCb} {k : Prog Multipart Turn}
    {Q : Turn → List (Event Multipart) → Prop}
    (next : (quiet P buf).wp k Q (log ++ [⟨.notify cb, 0⟩])) :
    (quiet P buf).wp (xNotifyCb q cb k) Q log := by
  rintro r rfl
  exact next

theorem quiet_emit {q : MultipartLoop} {cb : DataCb} {first last : Nat} {k : Prog Multipart Turn}
    {Q : Turn → List (Event Multipart) → Prop}
    (next : (quiet P buf).wp k Q (log ++ [⟨.emit cb first last, 0⟩])) :
    (quiet P buf).wp (xEmitDataCb q cb first last k) Q log := by
  rintro r rfl
  exact next

theorem quiet_boundary {i : Nat} {k : UInt8 → Prog Multipart Turn}
    {Q : Turn → List (Event Multipart) → Prop} {b : UInt8} (found : P[i]? = some b)
    (next : (quiet P buf).wp (k b) Q (log ++ [⟨.boundary i, b⟩])) :
    (quiet P buf).wp (.call (.boundary i) k) Q log := by
  intro b' legal
  obtain rfl : b' = b := legal b found
  exact next

theorem slice_self (i : Nat) : slice buf i i = [] := by simp [slice]

theorem slice_snoc {m i : Nat} (le : m ≤ i) (here : buf.drop i = c :: rest) :
    slice buf m (i + 1) = slice buf m i ++ [c] := by
  have at_ : (buf.drop m)[i - m]? = some c := by
    rw [List.getElem?_drop, Nat.add_sub_cancel' le, here_get here]
  rw [slice, slice, Nat.sub_add_comm le, List.take_add_one, at_]
  rfl

def Reads (P buf : Bytes) (total : List (Item × Bytes)) (state : XState) (rest : Bytes)
    (D : List (Item × Bytes)) : Prop :=
  ∀ p, p.xState = state → buf.drop p.i = rest → Delivers P buf total p D

/-! ### Headers -/

theorem reads_lineEnd (more : rest ≠ []) (next : Reads P buf total .headerFieldStart rest D) :
    Reads P buf total .headerValueAlmostDone (lf :: rest) D := by
  intro p state here
  apply delivers_turn here more
  intro log same
  simp only [multipartSwitch, state]
  exact quiet_advance (here_inside here) rfl (next _ rfl (here_next here)) same

theorem quiet_valueEnd {value : Bytes} {q : MultipartLoop} (same : q.i = p.i)
    (sofar : slice buf q.mark p.i = value) (here : buf.drop p.i = crlf ++ rest) (more : rest ≠ [])
    (next : Reads P buf total .headerFieldStart rest (D ++ [(.headerValue value, crlf ++ rest)]))
    (delivered : deliveries buf log = D) :
    (quiet P buf).wp (headerValue q cr false)
      (NextPost P buf total (turnsLeft buf.length p)) log := by
  rw [headerValue, if_pos rfl, same]
  apply quiet_emit
  rw [headerValueLast, if_neg Bool.false_ne_true]
  have after := here_next (show buf.drop p.i = cr :: (lf :: rest) from here)
  have passed : deliveries buf (log ++ [⟨.emit .headerValue q.mark p.i, 0⟩]) =
      D ++ [(.headerValue value, crlf ++ rest)] := by
    rw [deliveries_append, delivered, ← sofar, ← here]
    rfl
  exact quiet_advance (here_inside here) rfl (reads_lineEnd more next _ rfl after) passed

theorem delivers_value (todo : Bytes) {value : Bytes} (reading : p.xState = .headerValue)
    (le : p.mark ≤ p.i) (sofar : slice buf p.mark p.i ++ todo = value) (line : cr ∉ todo)
    (here : buf.drop p.i = todo ++ (crlf ++ rest)) (more : rest ≠ [])
    (next : Reads P buf total .headerFieldStart rest (D ++ [(.headerValue value, crlf ++ rest)])) :
    Delivers P buf total p D := by
  induction todo generalizing p with
  | nil =>
      rw [List.append_nil] at sofar
      apply delivers_turn (show buf.drop p.i = cr :: (lf :: rest) from here) (List.cons_ne_nil _ _)
      intro log same
      simp only [multipartSwitch, reading]
      exact quiet_valueEnd rfl sofar here more next same
  | cons c todo ih =>
      rw [List.cons_append] at here
      have other : c ≠ cr := fun same => line (same ▸ List.mem_cons_self)
      apply delivers_turn here (by simp [crlf])
      intro log same
      simp only [multipartSwitch, reading, headerValue, if_neg other, headerValueLast,
        Bool.false_eq_true, if_false]
      refine quiet_advance (here_inside here) rfl ?_ same
      refine ih reading (le.trans (Nat.le_succ _)) ?_ (fun member => line ?_) (here_next here)
      · show slice buf p.mark (p.i + 1) ++ todo = value
        rw [slice_snoc le here, List.append_assoc]
        exact sofar
      · exact List.mem_cons_of_mem _ member

theorem reads_value {value : Bytes} (line : cr ∉ value) (trimmed : value.head? ≠ some space)
    (more : rest ≠ [])
    (next : Reads P buf total .headerFieldStart rest (D ++ [(.headerValue value, crlf ++ rest)])) :
    Reads P buf total .headerValueStart (value ++ (crlf ++ rest)) D := by
  intro p state here
  cases value with
  | nil =>
      apply delivers_turn (show buf.drop p.i = cr :: (lf :: rest) from here) (List.cons_ne_nil _ _)
      intro log same
      have notSpace : cr ≠ 32 := by decide
      simp only [multipartSwitch, state, if_neg notSpace]
      exact quiet_valueEnd rfl (slice_self _) here more next same
  | cons c value =>
      rw [List.cons_append] at here
      have other : c ≠ cr := fun same => line (same ▸ List.mem_cons_self)
      have first : c ≠ 32 := fun same => trimmed (congrArg some same)
      apply delivers_turn here (by simp [crlf])
      intro log same
      simp only [multipartSwitch, state, if_neg first, headerValue, if_neg other, headerValueLast,
        Bool.false_eq_true, if_false]
      refine quiet_advance (here_inside here) rfl ?_ same
      refine delivers_value value rfl (Nat.le_succ _) ?_ (fun member => line ?_)
        (here_next here) more next
      · show slice buf p.i (p.i + 1) ++ value = c :: value
        rw [slice_snoc le_rfl here, slice_self]
        rfl
      · exact List.mem_cons_of_mem _ member

theorem reads_tail (header : PartHeader) (more : rest ≠ [])
    (next : Reads P buf total .headerFieldStart rest
      (D ++ [(.headerValue header.value, crlf ++ rest)])) :
    Reads P buf total .headerValueStart (header.tail ++ rest) D := by
  rw [PartHeader.tail, List.append_assoc, List.append_assoc]
  generalize header.spaces = spaces
  induction spaces with
  | zero => exact reads_value header.line header.trimmed more next
  | succ spaces ih =>
      intro p state here
      rw [List.replicate_succ, List.cons_append] at here
      apply delivers_turn here (by simp [crlf])
      intro log same
      simp only [multipartSwitch, state]
      exact quiet_advance (here_inside here) rfl (ih _ state (here_next here)) same

theorem quiet_colon (here : buf.drop p.i = colon :: rest)
    (next : Reads P buf total .headerValueStart rest D) (delivered : deliveries buf log = D) :
    (quiet P buf).wp (headerField p colon false)
      (NextPost P buf total (turnsLeft buf.length p)) log := by
  rw [headerField, if_neg (by decide), if_neg (by decide), if_pos (by rfl)]
  apply quiet_emit
  have passed : deliveries buf (log ++ [⟨.emit .headerField p.mark p.i, 0⟩]) = D := by
    rw [deliveries_append, delivered]
    exact List.append_nil D
  exact quiet_advance (here_inside here) rfl (next _ rfl (here_next here)) passed

theorem quiet_nameChar {q : MultipartLoop} (inside : p.i < buf.length) (same : q.i = p.i)
    (letter : IsLetter c ∨ c = minus)
    (next : Delivers P buf total { q with i := p.i + 1 } D) (delivered : deliveries buf log = D) :
    (quiet P buf).wp (headerField q c false)
      (NextPost P buf total (turnsLeft buf.length p)) log := by
  have onward := quiet_advance inside same next delivered
  rw [headerField]
  rcases letter with letter | rfl
  · have notCr : c ≠ cr := by
      rintro rfl
      exact absurd letter (by decide)
    have notColon : c ≠ 58 := by
      rintro rfl
      exact absurd letter (by decide)
    rw [if_neg notCr, if_neg notColon, if_neg (not_not.mpr letter), if_neg Bool.false_ne_true,
      ite_self]
    exact onward
  · rw [if_neg (by decide), if_pos rfl]
    exact onward

theorem reads_name {name : Bytes} (letters : ∀ c ∈ name, IsLetter c ∨ c = minus)
    (more : rest ≠ []) (next : Reads P buf total .headerValueStart rest D) :
    Reads P buf total .headerField (name ++ colon :: rest) D := by
  induction name with
  | nil =>
      intro p state here
      rw [List.nil_append] at here
      apply delivers_turn here more
      intro log same
      simp only [multipartSwitch, state]
      exact quiet_colon here next same
  | cons c name ih =>
      intro p state here
      rw [List.cons_append] at here
      apply delivers_turn here (by simp)
      intro log same
      simp only [multipartSwitch, state]
      refine quiet_nameChar (here_inside here) rfl (letters c List.mem_cons_self) ?_ same
      exact ih (fun c member => letters c (List.mem_cons_of_mem _ member)) _ state (here_next here)

theorem reads_header (header : PartHeader) (more : rest ≠ [])
    (next : Reads P buf total .headerFieldStart rest
      (D ++ [(.headerValue header.value, crlf ++ rest)])) :
    Reads P buf total .headerFieldStart (header.encode ++ rest) D := by
  intro p state here
  have tail := reads_tail header more next
  have tailMore : header.tail ++ rest ≠ [] := by simp [more]
  rw [PartHeader.encode, List.append_assoc, List.cons_append] at here
  cases name : header.name with
  | nil => exact absurd name header.named
  | cons c cs =>
      have letters := header.letters
      rw [name] at letters
      rw [name, List.cons_append] at here
      apply delivers_turn here (by simp)
      intro log same
      simp only [multipartSwitch, state]
      refine quiet_nameChar (here_inside here) rfl (letters c List.mem_cons_self) ?_ same
      exact reads_name (fun c member => letters c (List.mem_cons_of_mem _ member)) tailMore tail _
        rfl (here_next here)

theorem reads_headers (headers : List PartHeader) (more : rest ≠ [])
    (next : Reads P buf total .headerFieldStart rest (D ++ headerItems headers rest)) :
    Reads P buf total .headerFieldStart (encodeHeaders headers ++ rest) D := by
  induction headers generalizing D with
  | nil =>
      rw [headerItems, List.append_nil] at next
      exact next
  | cons header headers ih =>
      rw [encodeHeaders, List.flatMap_cons, List.append_assoc]
      apply reads_header header (by simp [more])
      apply ih
      rw [List.append_assoc]
      exact next

/-! ### The data of a part -/

def AfterPart (P buf : Bytes) (total : List (Item × Bytes)) (content rest : Bytes)
    (D : List (Item × Bytes)) : Prop :=
  ∀ p, p.xState = .partDataAlmostEnd → buf.drop p.i = rest →
    slice buf p.dmark p.dbmark = content → buf.drop p.dbmark = delimiter P ++ rest →
    Delivers P buf total p D

theorem slice_of_drop {m i : Nat} {t after : Bytes} (le : m ≤ i) (inside : i ≤ buf.length)
    (first : buf.drop m = t ++ after) (last : buf.drop i = after) : slice buf m i = t := by
  have length := congrArg List.length first
  have length' := congrArg List.length last
  rw [List.length_append, List.length_drop] at length
  rw [List.length_drop] at length'
  rw [slice, first]
  exact List.take_left' (by omega)

theorem quiet_again (back : stay p = 1)
    (next : Delivers P buf total { p with mark := p.i, xState := .partData } D)
    (delivered : deliveries buf log = D) :
    (quiet P buf).wp (again p) (NextPost P buf total (turnsLeft buf.length p)) log := by
  rw [← delivered] at next
  refine ⟨_, rfl, ?_, next⟩
  rw [turnsLeft, turnsLeft, back]
  exact Nat.lt_succ_self _

theorem delivers_match {F P₂ content : Bytes} (split : P = F ++ P₂) (nonempty : P₂ ≠ [])
    (comparing : p.xState = .partDataBoundary) (at_ : p.index = F.length)
    (here : buf.drop p.i = P₂ ++ rest) (more : rest ≠ [])
    (range : slice buf p.dmark p.dbmark = content)
    (after : buf.drop p.dbmark = delimiter P ++ rest)
    (next : AfterPart P buf total content rest D) : Delivers P buf total p D := by
  induction P₂ generalizing p F with
  | nil => exact absurd rfl nonempty
  | cons b P₂ ih =>
      have found : P[p.index]? = some b := by
        rw [at_, split, List.getElem?_append_right le_rfl, Nat.sub_self]
        rfl
      apply delivers_turn here (by simp [more])
      intro log same
      simp only [multipartSwitch, comparing]
      have compared : deliveries buf (log ++ [⟨.boundary p.index, b⟩]) = D := by
        rw [deliveries_append, same]
        exact List.append_nil D
      refine quiet_boundary found ?_
      rw [if_neg (not_not.mpr rfl)]
      cases P₂ with
      | nil =>
          rw [if_pos (by simp [split, at_])]
          refine quiet_notify (quiet_advance (D := D) (here_inside here) rfl ?_ ?_)
          · exact next _ rfl (here_next here) range after
          · rw [deliveries_append, compared]
            exact List.append_nil D
      | cons b' P₂ =>
          rw [if_neg (by simp [split, at_])]
          refine quiet_advance (here_inside here) rfl ?_ compared
          exact ih (F := F ++ [b]) (by rw [split, List.append_assoc]; rfl) (List.cons_ne_nil _ _)
            comparing (by simp [at_]) (here_next here) range after

theorem delivers_mismatch {F P₂ todo after : Bytes} (split : P = F ++ P₂) (line : cr ∉ P₂)
    (differ : ¬P₂ <+: todo) (comparing : p.xState = .partDataBoundary)
    (at_ : p.index = F.length) (here : buf.drop p.i = todo ++ cr :: after) (more : after ≠ [])
    (next : ∀ q left, q.xState = .partData → q.dmark = p.dmark → p.i ≤ q.i → left <:+ todo →
      buf.drop q.i = left ++ cr :: after → Delivers P buf total q D) :
    Delivers P buf total p D := by
  have back : stay p = 1 := by rw [stay, comparing]
  induction P₂ generalizing p F todo with
  | nil => exact absurd (List.nil_prefix) differ
  | cons b P₂ ih =>
      have found : P[p.index]? = some b := by
        rw [at_, split, List.getElem?_append_right le_rfl, Nat.sub_self]
        rfl
      have compared (log : List (Event Multipart)) (same : deliveries buf log = D) :
          deliveries buf (log ++ [⟨.boundary p.index, b⟩]) = D := by
        rw [deliveries_append, same]
        exact List.append_nil D
      cases todo with
      | nil =>
          rw [List.nil_append] at here
          have other : b ≠ cr := fun same => line (same ▸ List.mem_cons_self)
          apply delivers_turn here more
          intro log same
          simp only [multipartSwitch, comparing]
          refine quiet_boundary found ?_
          rw [if_pos other]
          refine quiet_again back ?_ (compared log same)
          exact next _ [] rfl rfl le_rfl List.nil_suffix here
      | cons c todo =>
          have here' := here
          rw [List.cons_append] at here'
          apply delivers_turn here' (by simp)
          intro log same
          simp only [multipartSwitch, comparing]
          refine quiet_boundary found ?_
          by_cases eq : b = c
          · subst eq
            have differ' : ¬P₂ <+: todo := fun prefix_ =>
              differ (List.prefix_cons_inj _ |>.mpr prefix_)
            have nonempty : P₂ ≠ [] := by
              rintro rfl
              exact differ' List.nil_prefix
            have short : ¬p.index + 1 = P.length := by
              have := List.length_pos_iff.mpr nonempty
              rw [split, List.length_append, List.length_cons]
              omega
            rw [if_neg (not_not.mpr rfl), if_neg short]
            refine quiet_advance (here_inside here') rfl ?_ (compared log same)
            refine ih (F := F ++ [b]) (by rw [split, List.append_assoc]; rfl)
              (fun member => line (List.mem_cons_of_mem _ member)) differ' comparing
              (by simp [at_]) (here_next here') ?_ (by rw [stay, comparing])
            intro q left data dmark le suffix_ here
            exact next q left data dmark (Nat.le_of_succ_le le)
              (suffix_.trans (List.suffix_cons _ _)) here
          · rw [if_pos eq]
            refine quiet_again back ?_ (compared log same)
            exact next _ (c :: todo) rfl rfl le_rfl List.suffix_rfl here

def Onward (P buf : Bytes) (total : List (Item × Bytes)) (d : Nat) (todo rest : Bytes)
    (D : List (Item × Bytes)) (le : Bytes → Prop) : Prop :=
  ∀ left, le left → left <:+ todo → ∀ p, p.xState = .partData → p.dmark = d → d ≤ p.i →
    buf.drop p.i = left ++ (delimiter P ++ rest) → Delivers P buf total p D

theorem quiet_data {q : MultipartLoop} {content todo after : Bytes} {d : Nat} (line : cr ∉ P)
    (nonempty : P ≠ []) (more : rest ≠ []) (start : buf.drop d = content ++ (delimiter P ++ rest))
    (next : AfterPart P buf total content rest D) (whole : ¬delimiter P <:+: todo)
    (onward : Onward P buf total d todo rest D fun left => left.length < todo.length)
    (same : q.i = p.i) (reading : q.xState = .partData) (mark : q.dmark = d) (le : d ≤ p.i)
    (here : buf.drop p.i = todo ++ (delimiter P ++ rest)) (head : buf.drop p.i = c :: after)
    (delivered : deliveries buf log = D) :
    (quiet P buf).wp (partData q c) (NextPost P buf total (turnsLeft buf.length p)) log := by
  have second := here_next head
  have inside := here_inside head
  unfold partData
  cases todo with
  | nil =>
      -- the delimiter itself
      rw [head, List.nil_append] at here
      obtain ⟨rfl, rest_⟩ := List.cons.inj here
      rw [rest_] at second
      have second : buf.drop (p.i + 1) = lf :: (P ++ rest) := second
      have here : buf.drop p.i = delimiter P ++ rest := by rw [head, rest_]; rfl
      have range : slice buf d p.i = content := slice_of_drop le inside.le start here
      rw [if_pos rfl, same]
      refine quiet_advance inside rfl ?_ delivered
      apply delivers_turn second (by simp [more])
      intro log same
      simp only [multipartSwitch, if_true]
      refine quiet_advance (here_inside second) rfl ?_ same
      refine delivers_match (F := []) rfl nonempty rfl rfl (here_next second) more ?_ here next
      rw [← mark] at range
      exact range
  | cons c' todo =>
      rw [head, List.cons_append] at here
      obtain ⟨rfl, rest_⟩ := List.cons.inj here
      rw [rest_] at second
      by_cases isCr : c = cr
      · subst isCr
        rw [if_pos rfl, same]
        refine quiet_advance inside rfl ?_ delivered
        cases todo with
        | nil =>
            have second' : buf.drop (p.i + 1) = cr :: (lf :: (P ++ rest)) := second
            apply delivers_turn second' (List.cons_ne_nil _ _)
            intro log same
            have other : cr ≠ lf := by decide
            simp only [multipartSwitch, if_neg other]
            refine quiet_again rfl ?_ same
            exact onward [] (Nat.zero_lt_one) List.nil_suffix _ rfl mark (Nat.le_succ_of_le le)
              second
        | cons c todo =>
            have second' := second
            rw [List.cons_append] at second'
            apply delivers_turn second' (by simp [delimiter])
            intro log same
            simp only [multipartSwitch]
            by_cases isLf : c = lf
            · subst isLf
              rw [if_pos rfl]
              refine quiet_advance (here_inside second') rfl ?_ same
              have differ : ¬P <+: todo := by
                rintro ⟨after, rfl⟩
                exact whole ⟨[], after, rfl⟩
              refine delivers_mismatch (F := []) rfl line differ rfl rfl (here_next second')
                (by simp) ?_
              intro q left data dmark le' suffix_ here
              have step : left <:+ cr :: lf :: todo :=
                (suffix_.trans (List.suffix_cons lf todo)).trans (List.suffix_cons cr _)
              have bounded := suffix_.length_le
              change p.i + 1 + 1 ≤ q.i at le'
              refine onward left ?_ step q data (dmark.trans mark) (by omega) here
              simp only [List.length_cons]
              omega
            · rw [if_neg isLf]
              refine quiet_again rfl ?_ same
              exact onward (c :: todo) (Nat.lt_succ_self _) (List.suffix_cons _ _) _ rfl mark
                (Nat.le_succ_of_le le) second
      · rw [if_neg isCr]
        refine quiet_advance inside same ?_ delivered
        exact onward todo (Nat.lt_succ_self _) (List.suffix_cons _ _) _ reading mark
          (Nat.le_succ_of_le le) second

theorem delivers_data {content todo : Bytes} {d : Nat} (line : cr ∉ P) (nonempty : P ≠ [])
    (more : rest ≠ []) (start : buf.drop d = content ++ (delimiter P ++ rest))
    (next : AfterPart P buf total content rest D) (whole : ¬delimiter P <:+: todo) :
    Onward P buf total d todo rest D fun _ => True := by
  intro left _ suffix_
  induction length : left.length using Nat.strong_induction_on generalizing left with
  | _ n ih =>
  intro p reading mark le here
  have onward : Onward P buf total d left rest D fun left' => left'.length < left.length := by
    intro left' shorter suffix'
    exact ih left'.length (length ▸ shorter) left' (suffix'.trans suffix_) rfl
  have whole : ¬delimiter P <:+: left := fun found => whole (found.trans suffix_.isInfix)
  obtain ⟨c, after, head, moreAfter⟩ : ∃ c after, buf.drop p.i = c :: after ∧ after ≠ [] := by
    cases left with
    | nil => exact ⟨_, _, here, by simp⟩
    | cons c left => exact ⟨_, _, here, by simp [delimiter]⟩
  apply delivers_turn head moreAfter
  intro log same
  simp only [multipartSwitch, reading]
  exact quiet_data line nonempty more start next whole onward rfl reading mark le here head same

theorem reads_part (part : Part P) (line : cr ∉ P) (nonempty : P ≠ []) (more : rest ≠ [])
    (next : AfterPart P buf total part.content rest
      (D ++ headerItems part.headers (crlf ++ (part.content ++ (delimiter P ++ rest))))) :
    Reads P buf total .headerFieldStart (part.encode ++ (delimiter P ++ rest)) D := by
  rw [Part.encode, List.append_assoc, List.append_assoc]
  apply reads_headers part.headers (by simp [crlf])
  intro p state here
  have first : buf.drop p.i = cr :: lf :: (part.content ++ (delimiter P ++ rest)) := here
  have second := here_next first
  have third := here_next second
  apply delivers_turn first (List.cons_ne_nil _ _)
  intro log same
  simp only [multipartSwitch, state, headerField, if_true]
  refine quiet_advance (here_inside first) rfl ?_ same
  apply delivers_turn second (by simp [delimiter])
  intro log same
  simp only [multipartSwitch, ne_eq, not_true_eq_false, if_false]
  refine quiet_advance (here_inside second) rfl ?_ same
  have onward := delivers_data line nonempty more third next part.whole
  obtain ⟨c, after, head, moreAfter⟩ :
      ∃ c after, buf.drop (p.i + 1 + 1) = c :: after ∧ after ≠ [] := by
    cases content : part.content with
    | nil => exact ⟨_, _, by rw [third, content]; rfl, List.cons_ne_nil _ _⟩
    | cons c cs => exact ⟨_, _, by rw [third, content]; rfl, by simp [delimiter]⟩
  apply delivers_turn head moreAfter
  intro log same
  simp only [multipartSwitch]
  refine quiet_notify (quiet_data line nonempty more third next part.whole
    (fun left _ => onward left trivial) rfl rfl rfl le_rfl third head ?_)
  rw [deliveries_append, same]
  exact List.append_nil _

/-! ### The end -/

theorem delivers_finished (done : p.xState = .finished) (all : D = total) :
    Delivers P buf total p D := by
  intro turns log enough same
  induction turns generalizing p log with
  | zero => omega
  | succ turns ih =>
      unfold multipartLoop
      split
      · rename_i inside
        rw [Machine.wp_bind]
        intro c _
        simp only [multipartSwitch, done]
        show (quiet P buf).wp (multipartLoop P.length buf.length turns { p with i := p.i + 1 }) _
          (log ++ [⟨.buf p.i, c⟩])
        refine ih (p := { p with i := p.i + 1 }) done _ ?_ ?_
        · have := turnsLeft_advance inside rfl p.xState p.index p.mark p.dmark p.dbmark
          exact Nat.lt_of_lt_of_le this (Nat.le_of_lt_succ enough)
        · rw [deliveries_append, same]
          exact List.append_nil D
      · exact ⟨rfl, same.trans all⟩

theorem afterParts (epilogue : Bytes) (line : cr ∉ P) (nonempty : P ≠ []) (parts : List (Part P))
    (content : Bytes)
    (all : D ++ ((.chunkData content, delimiter P ++ encodeParts epilogue parts) ::
      partItems epilogue parts) = total) :
    AfterPart P buf total content (encodeParts epilogue parts) D := by
  have more (parts : List (Part P)) : encodeParts epilogue parts ≠ [] := by
    cases parts <;> simp [encodeParts, crlf]
  induction parts generalizing D content with
  | nil =>
      intro p state here range after
      apply delivers_turn here (List.cons_ne_nil _ _)
      intro log same
      simp only [multipartSwitch, state, if_true]
      refine quiet_advance (here_inside here) rfl ?_ same
      apply delivers_any (here_next here)
      intro isLast log _ same
      simp only [multipartSwitch, partDataFinalHyphen, if_true]
      refine quiet_emit (quiet_notify (quiet_advance (here_inside (here_next here)) rfl ?_ rfl))
      apply delivers_finished rfl
      rw [deliveries_append, deliveries_append, same, ← all, ← range, ← after]
      simp [deliveries, delivered, partItems]
  | cons part parts ih =>
      intro p state here range after
      have first : buf.drop p.i =
          cr :: lf :: (part.encode ++ (delimiter P ++ encodeParts epilogue parts)) := here
      have second := here_next first
      apply delivers_turn first (List.cons_ne_nil _ _)
      intro log same
      have other : cr ≠ minus := by decide
      simp only [multipartSwitch, state, if_neg other, if_true]
      refine quiet_advance (here_inside first) rfl ?_ same
      apply delivers_turn second (by simp [delimiter])
      intro log same
      simp only [multipartSwitch, partDataEnd, if_true]
      refine quiet_emit (quiet_notify (quiet_advance (here_inside second) rfl ?_ rfl))
      refine reads_part part line nonempty (more parts) (ih part.content ?_) _ rfl (here_next second)
      rw [deliveries_append, deliveries_append, same, ← all, ← range, ← after]
      simp [deliveries, delivered, partItems, Part.items]

/-! ### The beginning -/

theorem quiet_startBoundary {q : MultipartLoop} {F P₂ : Bytes} (split : P = F ++ c :: P₂)
    (at_ : q.index = F.length) (inside : p.i < buf.length) (same : q.i = p.i)
    (next : Delivers P buf total { q with index := q.index + 1, i := p.i + 1 } D)
    (delivered : deliveries buf log = D) :
    (quiet P buf).wp (startBoundary P.length q c)
      (NextPost P buf total (turnsLeft buf.length p)) log := by
  have length := congrArg List.length split
  rw [List.length_append, List.length_cons] at length
  have found : P[q.index]? = some c := by
    rw [at_, split, List.getElem?_append_right le_rfl, Nat.sub_self]
    rfl
  rw [startBoundary, if_neg (by omega), if_neg (by omega)]
  refine quiet_boundary found ?_
  rw [if_neg (not_not.mpr rfl)]
  refine quiet_advance inside same next ?_
  rw [deliveries_append, delivered]
  exact List.append_nil D

theorem delivers_startBoundary {F P₂ : Bytes} (split : P = F ++ P₂) (more : rest ≠ [])
    (starting : p.xState = .startBoundary) (at_ : p.index = F.length)
    (here : buf.drop p.i = P₂ ++ (crlf ++ rest))
    (next : Reads P buf total .headerFieldStart rest D) : Delivers P buf total p D := by
  induction P₂ generalizing p F with
  | nil =>
      rw [List.append_nil] at split
      have first : buf.drop p.i = cr :: lf :: rest := here
      have second := here_next first
      apply delivers_turn first (List.cons_ne_nil _ _)
      intro log same
      simp only [multipartSwitch, starting, startBoundary, at_, split, ne_eq, not_true_eq_false,
        if_true, if_false]
      rw [← split]
      refine quiet_advance (here_inside first) rfl ?_ same
      apply delivers_turn second more
      intro log same
      simp only [multipartSwitch, startBoundary, split, Nat.succ_ne_self, ne_eq, not_true_eq_false,
        if_true, if_false]
      rw [← split]
      refine quiet_notify (quiet_advance (D := D) (here_inside second) rfl ?_ ?_)
      · exact next _ rfl (here_next second)
      · rw [deliveries_append, same]
        exact List.append_nil D
  | cons c P₂ ih =>
      rw [List.cons_append] at here
      apply delivers_turn here (by simp [crlf])
      intro log same
      simp only [multipartSwitch, starting]
      refine quiet_startBoundary split at_ (here_inside here) rfl ?_ same
      exact ih (F := F ++ [c]) (by rw [split, List.append_assoc]; rfl) starting (by simp [at_])
        (here_next here)

end Reading

theorem multipart_items {P : Bytes} (line : cr ∉ P) (nonempty : P ≠ []) (parts : List (Part P))
    (some_ : parts ≠ []) (epilogue : Bytes) :
    (quiet P (encodeBody parts epilogue)).wp
      (xMultipartParserExecute P.length (encodeBody parts epilogue).length)
      (Complete (encodeBody parts epilogue) (partItems epilogue parts)) [] := by
  generalize body : encodeBody parts epilogue = buf
  have more : encodeParts epilogue parts.tail ≠ [] := by
    cases parts.tail <;> simp [encodeParts, crlf]
  suffices reads : Delivers P buf (partItems epilogue parts) xMultipartParserInit [] by
    apply reads _ _ _ rfl
    simp [turnsLeft, multipartTurns, stay, xMultipartParserInit]
  cases parts with
  | nil => exact absurd rfl some_
  | cons part parts =>
      have headers : Reads P buf (partItems epilogue (part :: parts)) .headerFieldStart
          (part.encode ++ (delimiter P ++ encodeParts epilogue parts)) [] := by
        apply reads_part part line nonempty more
        apply afterParts epilogue line nonempty parts
        simp [partItems, Part.items]
      obtain ⟨c, P', rfl⟩ := List.exists_cons_of_ne_nil nonempty
      have here : buf.drop 0 = c :: (P' ++ (crlf ++
          (part.encode ++ (delimiter (c :: P') ++ encodeParts epilogue parts)))) := by
        rw [← body]
        rfl
      apply delivers_turn here (by simp [crlf])
      intro log same
      simp only [multipartSwitch, xMultipartParserInit]
      refine quiet_startBoundary (F := []) rfl rfl (here_inside here) rfl ?_ same
      exact delivers_startBoundary (F := [c]) rfl (by simp [delimiter]) rfl rfl (here_next here)
        headers

/-! ## The round trip -/

def Part.contents {P : Bytes} (part : Part P) : List Item :=
  part.headers.map (fun header => .headerValue header.value) ++ [.chunkData part.content]

theorem headerItems_fst (headers : List PartHeader) (rest : Bytes) :
    (headerItems headers rest).map Prod.fst =
      headers.map fun header => .headerValue header.value := by
  induction headers with
  | nil => rfl
  | cons header headers ih => rw [headerItems, List.map_cons, ih, List.map_cons]

theorem partItems_fst {P : Bytes} (epilogue : Bytes) (parts : List (Part P)) :
    (partItems epilogue parts).map Prod.fst = parts.flatMap Part.contents := by
  induction parts with
  | nil => rfl
  | cons part parts ih =>
      rw [partItems, List.map_append, ih, List.flatMap_cons, Part.items, List.map_append,
        headerItems_fst, Part.contents]
      rfl

/-- The parser reads an encoded body to its end, and delivers the headers and the contents of its
parts. -/
theorem multipart_round_trip (boundary : Bytes) (line : cr ∉ boundary)
    (parts : List (Part (minus :: minus :: boundary))) (nonempty : parts ≠ []) (epilogue : Bytes) :
    let P := minus :: minus :: boundary
    let body := encodeBody parts epilogue
    (parsing P body (· = 0)).wp (xMultipartParserExecute P.length body.length)
      (fun r log => r = some body.length ∧
        (deliveries body log).map Prod.fst = parts.flatMap Part.contents) [] := by
  intro P body
  have plain : cr ∉ P := by
    have dash : cr ≠ minus := by decide
    simp [P, line, dash]
  refine Machine.wp_mono (multipart_items plain (List.cons_ne_nil _ _) parts nonempty epilogue) ?_
  rintro r log ⟨result, items⟩
  exact ⟨result, by rw [items, partItems_fst]⟩

def smallHeader : PartHeader :=
  ⟨ascii "a", 1, ascii "b", by decide, by decide +kernel, by decide, by decide +kernel⟩

def smallPart : Part (ascii "--b") := ⟨[smallHeader], ascii "\r\n--c", by decide⟩

theorem multipart_round_trip_small :
    (parsing (ascii "--b") (encodeBody [smallPart] []) (· = 0)).wp
      (xMultipartParserExecute (ascii "--b").length (encodeBody [smallPart] []).length)
      (fun r log => r = some (encodeBody [smallPart] []).length ∧
        (deliveries (encodeBody [smallPart] []) log).map Prod.fst =
          [smallPart].flatMap Part.contents) [] :=
  multipart_round_trip (ascii "b") (by decide) [smallPart] (by decide) []

end Ximg
