import Ximg.Httpd
import Ximg.MultipartRoundTrip

/-!
# What an upload saves

The parser is run with the callbacks of an upload, which write into the buffer that it reads. The
images that are saved are determined by the items that the parser finds in the buffer as it was.
-/

namespace Ximg
open Text Calls

/-! ## Running a handler -/

def mallocs (log : List (Event Http)) : Nat := log.countP fun e => e.1 matches .malloc

def savedImage (e : Event Http) : Option Bytes :=
  match e.1 with
  | .saveImg buff => some buff
  | _ => none

def savedImages (log : List (Event Http)) : List Bytes := log.filterMap savedImage

/-- The environment of the handlers: it says for each allocation of a record whether it succeeds,
and may answer every other call in any way that the call allows. -/
def serving (alloc : Nat → Bool) : Machine Http (List (Event Http)) where
  Legal log op r := match op, r with
    | .zimgAccessInet conf addr, r => r = zimgAccessInet conf addr
    | .mallocBuff size, r => ∀ block, r = some block → size ≤ block.length
    | .malloc, r => r = alloc (mallocs log)
    | _, _ => True
  effect log op r := log ++ [⟨op, r⟩]

/-! ## Names in header values -/

def refused (value : Bytes) : Bool :=
  match strnstr value 0 "filename=" value.length with
  | none => false
  | some found =>
      value[found + 9]? = some quote ∧
        (checkQuoted ⟨value, 0, 0, 0, []⟩ (found + 10) 0 value.length).checkName = -1

theorem strnstrLoop_shift (c : UInt8) (rest s : Bytes) (slen p : Nat) :
    strnstrLoop c rest s slen p = (strnstrLoop c rest s slen 0).map (p + ·) := by
  induction s generalizing slen p with
  | nil => rfl
  | cons sc s ih =>
      simp only [strnstrLoop]
      rw [ih _ (p + 1), ih _ (0 + 1)]
      split_ifs <;> simp [Option.map_map, Function.comp_def, Nat.add_assoc]

theorem strnstrLoop_append (c : UInt8) (rest v t : Bytes) (p : Nat) :
    strnstrLoop c rest (v ++ t) v.length p = strnstrLoop c rest v v.length p := by
  induction v generalizing p with
  | nil => cases t <;> simp [strnstrLoop]
  | cons sc v ih =>
      simp only [List.cons_append, List.length_cons, strnstrLoop, Nat.add_sub_cancel, ih]
      have found : ¬rest.length > v.length → (rest <+: v ++ t ↔ rest <+: v) := by
        intro short
        exact ⟨fun h => List.prefix_of_prefix_length_le h (List.prefix_append v t) (by omega),
          fun h => h.trans (List.prefix_append v t)⟩
      split_ifs <;> simp_all

theorem strnstrLoop_bound {c : UInt8} {rest s : Bytes} {slen p n : Nat}
    (found : strnstrLoop c rest s slen p = some n) : n + rest.length + 1 ≤ p + slen := by
  induction s generalizing slen p with
  | nil => cases found
  | cons sc s ih =>
      simp only [strnstrLoop] at found
      split_ifs at found
      · have := ih found
        omega
      · cases found
        omega
      · have := ih found
        omega

theorem strnstr_middle (pre v t : Bytes) (find : String) :
    strnstr (pre ++ (v ++ t)) pre.length find v.length =
      (strnstr v 0 find v.length).map (pre.length + ·) := by
  unfold strnstr
  rw [List.drop_left]
  cases ascii find with
  | nil => rfl
  | cons c rest =>
      dsimp only
      rw [strnstrLoop_shift, strnstrLoop_append]
      rfl

theorem strnstr_bound {v : Bytes} {found : Nat}
    (h : strnstr v 0 "filename=" v.length = some found) : found + 9 ≤ v.length := by
  have split_ : ascii "filename=" = 102 :: ascii "ilename=" := by decide
  rw [strnstr, split_] at h
  have := strnstrLoop_bound h
  have length : (ascii "ilename=").length = 8 := by decide
  omega

theorem takeWhile_before {l : Bytes} (zero : 0 ∈ l) (t : Bytes) :
    (l ++ t).takeWhile (· ≠ 0) = l.takeWhile (· ≠ 0) := by
  induction l with
  | nil => cases zero
  | cons c l ih =>
      rw [List.cons_append, List.takeWhile_cons, List.takeWhile_cons]
      split
      · rename_i other
        rcases List.mem_cons.mp zero with rfl | zero
        · simp at other
        · rw [ih zero]
      · rfl

theorem cString_middle (pre v t : Bytes) {p n : Nat} (le : p ≤ n) (zero : v[n]? = some 0) :
    cString (pre ++ (v ++ t)) (pre.length + p) = cString v p := by
  have inside : n < v.length := (List.getElem?_eq_some_iff.mp zero).1
  have member : (0 : UInt8) ∈ v.drop p := by
    rw [List.mem_iff_getElem?]
    exact ⟨n - p, by rw [List.getElem?_drop, Nat.add_sub_cancel' le, zero]⟩
  rw [cString, cString, List.drop_length_add_append, List.drop_append_of_le_length (by omega),
    takeWhile_before member]

theorem checkQuoted_middle (pre v t : Bytes) (mpArg : MpArg) (mem : mpArg.mem = pre ++ (v ++ t))
    {filename : Nat} (inside : filename ≤ v.length) (small : v.length < 2 ^ 64) :
    ∃ v', v'.length = v.length ∧
      (checkQuoted mpArg (pre.length + filename) pre.length v.length).mem = pre ++ (v' ++ t) ∧
      (checkQuoted mpArg (pre.length + filename) pre.length v.length).checkName =
        if (checkQuoted ⟨v, 0, 0, 0, []⟩ filename 0 v.length).checkName = -1 then -1
        else mpArg.checkName := by
  have room : wrap ((v.length : Int) - (((pre.length + filename : Nat) : Int) - pre.length)) =
      v.length - filename := by
    unfold wrap
    omega
  have room' : wrap ((v.length : Int) - ((filename : Int) - (0 : Nat))) = v.length - filename := by
    unfold wrap
    omega
  have search : strnchr ((pre ++ (v ++ t)).drop (pre.length + filename)) quote
      (v.length - filename) = strnchr (v.drop filename) quote (v.length - filename) := by
    rw [strnchr, strnchr, List.drop_length_add_append, List.drop_append_of_le_length inside,
      List.take_append_of_le_length (by rw [List.length_drop])]
  unfold checkQuoted
  rw [mem, room, room', search]
  cases found : strnchr (v.drop filename) quote (v.length - filename) with
  | none => exact ⟨v, rfl, rfl, by simp⟩
  | some n =>
      have bound : filename + n < v.length := by
        rw [strnchr, List.take_of_length_le (by rw [List.length_drop])] at found
        have := List.findIdx?_eq_some_iff_getElem.mp found
        obtain ⟨bound, -⟩ := this
        rw [List.length_drop] at bound
        omega
      have cut : (pre ++ (v ++ t)).set (pre.length + filename + n) 0 =
          pre ++ (v.set (filename + n) 0 ++ t) := by
        rw [List.set_append_right _ _ (by omega), Nat.add_assoc, Nat.add_sub_cancel_left,
          List.set_append_left _ _ bound]
      have name : cString (pre ++ (v.set (filename + n) 0 ++ t)) (pre.length + filename) =
          cString (v.set (filename + n) 0) filename :=
        cString_middle pre _ t (Nat.le_add_right _ n) (by simp [bound])
      refine ⟨v.set (filename + n) 0, by simp, ?_, ?_⟩
      · dsimp only
        rw [cut, name]
        split <;> rfl
      · dsimp only
        rw [cut, name]
        split <;> simp

/-! ## The callbacks -/

section Callbacks
variable {settings : HttpSettings} {api : Api} {alloc : Nat → Bool} {log : List (Event Http)}

def Same (log log' : List (Event Http)) : Prop :=
  savedImages log' = savedImages log ∧ mallocs log' = mallocs log

theorem Same.refl (log : List (Event Http)) : Same log log := ⟨rfl, rfl⟩

theorem same_printf (log : List (Event Http)) (text : Bytes) :
    Same log (log ++ [⟨.evbufferAddPrintf text, ()⟩]) := by
  constructor
  · simp [savedImages, savedImage]
  · simp [mallocs]

theorem report_wp {r : Report} {mpArg : MpArg} {Q : MpArg → List (Event Http) → Prop}
    (next : ∀ list log', Same log log' → Q { mpArg with list := list } log') :
    (serving alloc).wp (report settings api r mpArg) Q log := by
  cases api with
  | upload => exact fun _ _ => next mpArg.list _ (same_printf log _)
  | up => exact next _ log (Same.refl log)

theorem reportRefused_wp {mpArg : MpArg} {filename : Bytes}
    {Q : Int32 × MpArg → List (Event Http) → Prop}
    (next : ∀ list log', Same log log' → Q (0, { mpArg with list := list }) log') :
    (serving alloc).wp
      (if filename ≠ [] ∧ mpArg.checkName = -1 then do
        return (0, ← report settings api (.refused filename) mpArg)
      else return (0, mpArg)) Q log := by
  split
  · rw [Machine.wp_bind]
    exact report_wp fun list log' same => next list log' same
  · exact next mpArg.list log (Same.refl log)

theorem headerValueCb_saves (mpArg : MpArg) (start length : Nat) :
    (serving alloc).wp (headerValueCb settings api mpArg start length)
      (fun r log' => r.1 = 0 ∧ Same log log') log := by
  unfold headerValueCb
  split
  · exact ⟨rfl, Same.refl log⟩
  · exact reportRefused_wp fun list log' same => ⟨rfl, same⟩

theorem headerValueCb_wp (settings : HttpSettings) (api : Api) (alloc : Nat → Bool)
    (log : List (Event Http)) {mpArg : MpArg} {pre v t : Bytes} (mem : mpArg.mem = pre ++ (v ++ t))
    (ends : t.head? ≠ some quote) (small : v.length < 2 ^ 64) :
    (serving alloc).wp (headerValueCb settings api mpArg pre.length v.length)
      (fun r log' => r.1 = 0 ∧ (∃ v', v'.length = v.length ∧ r.2.mem = pre ++ (v' ++ t)) ∧
        r.2.checkName = (if refused v then -1 else mpArg.checkName) ∧ Same log log') log := by
  unfold headerValueCb refused
  rw [mem, strnstr_middle]
  cases found : strnstr v 0 "filename=" v.length with
  | none => exact ⟨rfl, ⟨v, rfl, mem⟩, by simp, Same.refl log⟩
  | some n =>
      have bound := strnstr_bound found
      have first : (pre ++ (v ++ t))[pre.length + n + 9]? = some quote ↔
          v[n + 9]? = some quote := by
        rw [Nat.add_assoc, List.getElem?_append_right (Nat.le_add_right _ _),
          Nat.add_sub_cancel_left]
        rcases Nat.lt_or_ge (n + 9) v.length with inside | outside
        · rw [List.getElem?_append_left inside]
        · rw [List.getElem?_append_right outside, List.getElem?_eq_none outside]
          have zero : n + 9 - v.length = 0 := by omega
          rw [zero, ← List.head?_eq_getElem?]
          simp [ends]
      by_cases quoted : v[n + 9]? = some quote
      · have quoted' := first.mpr quoted
        have inside : n + 9 < v.length := (List.getElem?_eq_some_iff.mp quoted).1
        obtain ⟨v', length, mem', check⟩ :=
          checkQuoted_middle pre v t mpArg mem (show n + 10 ≤ v.length from inside) small
        dsimp only [Option.map_some]
        simp only [quoted', if_true]
        refine reportRefused_wp fun list log' same => ⟨rfl, ⟨v', length, mem'⟩, ?_, same⟩
        simp only [quoted, true_and, decide_eq_true_eq]
        exact check
      · have quoted' := mt first.mp quoted
        dsimp only [Option.map_some]
        simp only [quoted', if_false]
        refine reportRefused_wp fun list log' same => ⟨rfl, ⟨v, rfl, mem⟩, ?_, same⟩
        simp [quoted]

structure Intake where
  check : Bool
  asked : Nat
  saved : List Bytes

def Intake.next (api : Api) (alloc : Nat → Bool) (s : Intake) : Item → Intake
  | .headerValue value => { s with check := s.check || refused value }
  | .chunkData content =>
      if s.check then { s with check := false }
      else if content = [] then s
      else if api = .upload then { s with saved := s.saved ++ [content] }
      else if alloc s.asked then
        { s with asked := s.asked + 1, saved := s.saved ++ [content] }
      else { s with asked := s.asked + 1 }

structure Intake.Shows (s : Intake) (checkName : Int) (log : List (Event Http)) : Prop where
  saved : savedImages log = s.saved
  asked : mallocs log = s.asked
  check : checkName = if s.check then -1 else 0

theorem Same.shows {s : Intake} {checkName : Int} {log' : List (Event Http)}
    (same : Same log log') (shows_ : s.Shows checkName log) : s.Shows checkName log' :=
  ⟨same.1.trans shows_.saved, same.2.trans shows_.asked, shows_.check⟩

theorem save_wp {s : Intake} (mpArg : MpArg) {content : Bytes} {length : Nat}
    (shows_ : s.Shows mpArg.checkName log) :
    (serving alloc).wp (.call (.saveImg content) fun r =>
        if r.1 = -1 then do return (0, ← report settings api .failed mpArg)
        else do
          return (0, ← report settings api (.saved r.2 length)
            { mpArg with succno := mpArg.succno + 1 }))
      (fun r log' => r.1 = (0 : Int32) ∧ r.2.mem = mpArg.mem ∧
        Intake.Shows { s with saved := s.saved ++ [content] } r.2.checkName log') log := by
  intro r _
  have shows' : Intake.Shows { s with saved := s.saved ++ [content] } mpArg.checkName
      (log ++ [⟨.saveImg content, r⟩]) := by
    refine ⟨?_, ?_, shows_.check⟩
    · rw [savedImages, List.filterMap_append, ← savedImages, shows_.saved]
      rfl
    · rw [mallocs, List.countP_append, ← mallocs, shows_.asked]
      rfl
  show (serving alloc).wp (if r.1 = -1 then _ else _) _ (log ++ [⟨.saveImg content, r⟩])
  split
  · rw [Machine.wp_bind]
    refine report_wp ?_
    intro list log' same
    exact ⟨rfl, rfl, same.shows shows'⟩
  · rw [Machine.wp_bind]
    refine report_wp ?_
    intro list log' same
    exact ⟨rfl, rfl, same.shows shows'⟩

theorem chunkDataCb_wp {s : Intake} {mpArg : MpArg} {start length : Nat} {content : Bytes}
    (shows_ : s.Shows mpArg.checkName log) (here : (mpArg.mem.drop start).take length = content)
    (whole : content.length = length) :
    (serving alloc).wp (chunkDataCb settings api mpArg start length)
      (fun r log' => r.1 = 0 ∧ r.2.mem = mpArg.mem ∧
        (s.next api alloc (.chunkData content)).Shows r.2.checkName log') log := by
  have checked : mpArg.checkName = -1 ↔ s.check = true := by
    rw [shows_.check]
    cases s.check <;> decide
  have empty : length < 1 ↔ content = [] := by
    rw [← List.length_eq_zero_iff]
    omega
  unfold chunkDataCb Intake.next
  dsimp only
  rw [here]
  by_cases check : s.check = true
  · rw [if_pos (checked.mpr check), if_pos check]
    exact ⟨rfl, rfl, shows_.saved, shows_.asked, rfl⟩
  rw [if_neg (mt checked.mp check), if_neg check]
  by_cases none : content = []
  · rw [if_pos (empty.mpr none), if_pos none]
    exact ⟨rfl, rfl, shows_⟩
  rw [if_neg (mt empty.mp none), if_neg none]
  cases api with
  | upload => exact save_wp { mpArg with partno := mpArg.partno + 1 } shows_
  | up =>
      intro r legal
      have shows' : Intake.Shows { s with asked := s.asked + 1 } mpArg.checkName
          (log ++ [⟨.malloc, r⟩]) := by
        refine ⟨?_, ?_, shows_.check⟩
        · rw [savedImages, List.filterMap_append, ← savedImages, shows_.saved]
          exact List.append_nil _
        · rw [mallocs, List.countP_append, ← mallocs, shows_.asked]
          rfl
      have answer : r = alloc s.asked := by
        rw [← shows_.asked]
        exact legal
      rw [if_neg (show Api.up ≠ .upload by decide), ← answer]
      cases r with
      | false => exact ⟨rfl, rfl, shows'⟩
      | true =>
          exact save_wp (s := { s with asked := s.asked + 1 })
            { mpArg with partno := mpArg.partno + 1 } shows'

/-! ## The parser with its callbacks -/

def quietAnswer (P buf : Bytes) : (op : MultipartOp) → op.Res
  | .buf i => buf.getD i 0
  | .boundary i => P.getD i 0
  | .notify _ | .emit _ _ _ => (0 : Int32)

def quietCalls (P buf : Bytes) : List (Event Multipart) :=
  (scripted (quietAnswer P buf) (xMultipartParserExecute P.length buf.length) []).2

def items (P buf : Bytes) : List Item := (deliveries buf (quietCalls P buf)).map Prod.fst

theorem quietAnswer_legal {P buf : Bytes} (calls : List (Event Multipart)) (op : MultipartOp) :
    (quiet P buf).Legal calls op (quietAnswer P buf op) := by
  cases op with
  | buf i =>
      intro b here
      show buf.getD i 0 = b
      rw [List.getD_eq_getElem?_getD, here, Option.getD_some]
  | boundary i =>
      intro b here
      show P.getD i 0 = b
      rw [List.getD_eq_getElem?_getD, here, Option.getD_some]
  | notify cb => rfl
  | emit cb first last => rfl

theorem quietCalls_logged {P : Bytes} (nonempty : P ≠ []) (buf : Bytes) :
    ∃ front, Logged P buf (quietCalls P buf) front := by
  obtain ⟨-, -, -, logged⟩ := scripted_post (M := quiet P buf) (fun _ _ _ => rfl)
    quietAnswer_legal (xMultipartParserExecute_wp nonempty)
  exact logged

def CutOff (buf : Bytes) (calls : List (Event Multipart)) : Prop :=
  ∃ first r, (⟨.emit .headerValue first buf.length, r⟩ : Event Multipart) ∈ calls

def Unread (buf : Bytes) (calls : List (Event Multipart)) (mem : Bytes) : Prop :=
  ∀ i b, buf[i]? = some b →
    (∀ cb first last r, (⟨.emit cb first last, r⟩ : Event Multipart) ∈ calls → last ≤ i) →
    mem[i]? = some b

def taken (api : Api) (alloc : Nat → Bool) (buf : Bytes) (s₀ : Intake)
    (calls : List (Event Multipart)) : Intake :=
  ((deliveries buf calls).map Prod.fst).foldl (Intake.next api alloc) s₀

/-- What the run has done agrees with what the parser found. A cut off value may be followed by
anything in memory, and nothing is read or saved after it. -/
structure Faithful (api : Api) (alloc : Nat → Bool) (buf : Bytes) (s₀ : Intake)
    (calls : List (Event Multipart)) (mpArg : MpArg) (log : List (Event Http)) : Prop where
  saved : savedImages log = (taken api alloc buf s₀ calls).saved
  asked : mallocs log = (taken api alloc buf s₀ calls).asked
  whole : ¬CutOff buf calls →
    (mpArg.checkName = if (taken api alloc buf s₀ calls).check then -1 else 0) ∧
      Unread buf calls mpArg.mem

section Run
variable {P buf mem : Bytes} {s₀ : Intake} {calls : List (Event Multipart)} {mpArg : MpArg}

theorem CutOff.mono {e : Event Multipart} (cutOff : CutOff buf calls) :
    CutOff buf (calls ++ [e]) := by
  obtain ⟨first, r, member⟩ := cutOff
  exact ⟨first, r, List.mem_append_left _ member⟩

theorem Unread.mono {e : Event Multipart} (unread : Unread buf calls mem) :
    Unread buf (calls ++ [e]) mem := by
  intro i b here later
  apply unread i b here
  intro cb first last r member
  exact later cb first last r (List.mem_append_left _ member)

theorem Unread.slice (unread : Unread buf calls mem) {first last : Nat} (inside : last ≤ buf.length)
    (later : ∀ cb first' last' r,
      (⟨.emit cb first' last', r⟩ : Event Multipart) ∈ calls → last' ≤ first) :
    Ximg.slice mem first last = Ximg.slice buf first last := by
  apply List.ext_getElem?
  intro k
  simp only [Ximg.slice, List.getElem?_take, List.getElem?_drop]
  split
  · have here : first + k < buf.length := by omega
    rw [List.getElem?_eq_getElem here]
    apply unread _ _ (List.getElem?_eq_getElem here)
    intro cb first' last' r member
    exact (later cb first' last' r member).trans (Nat.le_add_right _ _)
  · rfl

theorem taken_append (api : Api) (alloc : Nat → Bool) (buf : Bytes) (s₀ : Intake)
    (calls : List (Event Multipart)) (e : Event Multipart) : taken api alloc buf s₀ (calls ++ [e]) =
    match delivered buf e with
    | none => taken api alloc buf s₀ calls
    | some d => (taken api alloc buf s₀ calls).next api alloc d.1 := by
  unfold taken
  rw [deliveries_append, List.map_append, List.foldl_append]
  cases found : delivered buf e <;> simp [deliveries, found]

theorem Faithful.idle (follows : Faithful api alloc buf s₀ calls mpArg log) {e : Event Multipart}
    (none : delivered buf e = .none) : Faithful api alloc buf s₀ (calls ++ [e]) mpArg log := by
  have same : taken api alloc buf s₀ (calls ++ [e]) = taken api alloc buf s₀ calls := by
    rw [taken_append, none]
  constructor
  · rw [same]
    exact follows.saved
  · rw [same]
    exact follows.asked
  · intro whole
    obtain ⟨check, unread⟩ := follows.whole (mt CutOff.mono whole)
    rw [same]
    exact ⟨check, unread.mono⟩

theorem later_of_before {e : Event Multipart} {first : Nat}
    (before : ∀ e' ∈ calls, Before buf e' e)
    (behind : ∀ cb first' last' r, Before buf ⟨.emit cb first' last', r⟩ e → last' ≤ first)
    (inside : first < buf.length) :
    ¬CutOff buf calls ∧ ∀ cb first' last' r,
      (⟨.emit cb first' last', r⟩ : Event Multipart) ∈ calls → last' ≤ first := by
  constructor
  · rintro ⟨first', r, member⟩
    have := behind _ _ _ _ (before _ member)
    omega
  · intro cb first' last' r member
    exact behind _ _ _ _ (before _ member)

theorem Faithful.read (follows : Faithful api alloc buf s₀ calls mpArg log) {i : Nat} {c : UInt8}
    (inside : i < buf.length) (before : ∀ e' ∈ calls, Before buf e' ⟨.buf i, c⟩) :
    mpArg.mem.getD i 0 = buf.getD i 0 := by
  obtain ⟨whole, later⟩ := later_of_before before (fun _ _ _ _ h => h) inside
  rw [List.getD_eq_getElem?_getD, List.getD_eq_getElem?_getD, List.getElem?_eq_getElem inside,
    (follows.whole whole).2 i _ (List.getElem?_eq_getElem inside) later]

theorem Faithful.chunk (follows : Faithful api alloc buf s₀ calls mpArg log) {first last : Nat}
    (small : buf.length < 2 ^ 64) (fine : Fine P buf ⟨.emit .chunkData first last, (0 : Int32)⟩)
    (before : ∀ e' ∈ calls, Before buf e' ⟨.emit .chunkData first last, (0 : Int32)⟩) :
    (serving alloc).wp (chunkDataCb settings api mpArg first (wrap ((last : Int) - first)))
      (fun r log' => r.1 = 0 ∧ Faithful api alloc buf s₀
        (calls ++ [⟨.emit .chunkData first last, (0 : Int32)⟩]) r.2 log') log := by
  obtain ⟨sorted, inside, -, delimited⟩ := fine
  obtain ⟨whole, later⟩ := later_of_before before (fun _ _ _ _ h => h) (by omega)
  obtain ⟨check, unread⟩ := follows.whole whole
  rw [wrap_sub (by omega) sorted]
  have length : (slice buf first last).length = last - first := by
    rw [slice, List.length_take, List.length_drop]
    omega
  refine Machine.wp_mono (chunkDataCb_wp ⟨follows.saved, follows.asked, check⟩
    (unread.slice inside later) length) ?_
  rintro r log' ⟨zero, mem, shows_⟩
  refine ⟨zero, ?_⟩
  have next := taken_append api alloc buf s₀ calls
    ⟨.emit .chunkData first last, (0 : Int32)⟩
  constructor
  · rw [next]
    exact shows_.saved
  · rw [next]
    exact shows_.asked
  · intro _
    rw [next, mem]
    exact ⟨shows_.check, unread.mono⟩

theorem Faithful.cutOff (follows : Faithful api alloc buf s₀ calls mpArg log) {first length : Nat} :
    (serving alloc).wp (headerValueCb settings api mpArg first length)
      (fun r log' => r.1 = 0 ∧ Faithful api alloc buf s₀
        (calls ++ [⟨.emit .headerValue first buf.length, (0 : Int32)⟩]) r.2 log') log := by
  refine Machine.wp_mono (headerValueCb_saves mpArg first length) ?_
  rintro r log' ⟨zero, saved, asked⟩
  refine ⟨zero, ?_, ?_, ?_⟩
  · rw [saved, taken_append]
    exact follows.saved
  · rw [asked, taken_append]
    exact follows.asked
  · intro whole
    exact absurd ⟨first, 0, List.mem_append_right _ (List.mem_singleton_self _)⟩ whole

theorem Faithful.value (follows : Faithful api alloc buf s₀ calls mpArg log) {first last : Nat}
    (small : buf.length < 2 ^ 64) (more : last < buf.length)
    (fine : Fine P buf ⟨.emit .headerValue first last, (0 : Int32)⟩)
    (before : ∀ e' ∈ calls, Before buf e' ⟨.emit .headerValue first last, (0 : Int32)⟩) :
    (serving alloc).wp (headerValueCb settings api mpArg first (wrap ((last : Int) - first)))
      (fun r log' => r.1 = 0 ∧ Faithful api alloc buf s₀
        (calls ++ [⟨.emit .headerValue first last, (0 : Int32)⟩]) r.2 log') log := by
  obtain ⟨sorted, inside, ends⟩ := fine
  obtain ⟨whole, later⟩ := later_of_before before
    (fun _ _ _ _ h => h.resolve_right (by omega)) (by omega : first < buf.length)
  obtain ⟨check, unread⟩ := follows.whole whole
  have after : mpArg.mem[last]? = some cr := by
    apply unread last cr (ends more)
    intro cb first' last' r member
    exact (later cb first' last' r member).trans sorted
  have room : last < mpArg.mem.length := (List.getElem?_eq_some_iff.mp after).1
  have value := unread.slice inside later
  have mem : mpArg.mem = mpArg.mem.take first ++ (slice buf first last ++ mpArg.mem.drop last) := by
    have rest : mpArg.mem.drop last = (mpArg.mem.drop first).drop (last - first) := by
      rw [List.drop_drop]
      congr 1
      omega
    rw [← value, slice, rest, List.take_append_drop, List.take_append_drop]
  have pre : (mpArg.mem.take first).length = first := by
    rw [List.length_take]
    omega
  have length : (slice buf first last).length = last - first := by
    rw [slice, List.length_take, List.length_drop]
    omega
  have spec := headerValueCb_wp settings api alloc log
    mem (by rw [List.head?_drop, after]; decide) (by omega)
  rw [pre, length] at spec
  rw [wrap_sub (by omega) sorted]
  refine Machine.wp_mono spec ?_
  rintro r log' ⟨zero, ⟨v', same, mem'⟩, check', saved, asked⟩
  have next := taken_append api alloc buf s₀ calls
    ⟨.emit .headerValue first last, (0 : Int32)⟩
  refine ⟨zero, ?_, ?_, ?_⟩
  · rw [saved, next]
    exact follows.saved
  · rw [asked, next]
    exact follows.asked
  · intro _
    constructor
    · rw [next, check', check]
      show _ = if ((taken api alloc buf s₀ calls).check || refused (slice buf first last)) = true
        then _ else _
      cases refused (slice buf first last) <;> simp
    · intro i b here later'
      have behind : last ≤ i :=
        later' _ _ _ _ (List.mem_append_right _ (List.mem_singleton_self _))
      have kept := unread i b here fun cb first' last' r member =>
        later' cb first' last' r (List.mem_append_left _ member)
      rw [mem, List.getElem?_append_right (by omega), List.getElem?_append_right (by omega),
        length] at kept
      rwa [mem', List.getElem?_append_right (by omega), List.getElem?_append_right (by omega), same]

theorem multipartCallbacks_wp (follows : Faithful api alloc buf s₀ calls mpArg log)
    (small : buf.length < 2 ^ 64) (op : MultipartOp)
    (fine : Fine P buf ⟨op, quietAnswer P buf op⟩)
    (before : ∀ e' ∈ calls, Before buf e' ⟨op, quietAnswer P buf op⟩) :
    (serving alloc).wp (multipartCallbacks settings api P op mpArg)
      (fun r log' => r.1 = quietAnswer P buf op ∧ Faithful api alloc buf s₀
        (calls ++ [⟨op, quietAnswer P buf op⟩]) r.2 log') log := by
  cases op with
  | buf i => exact ⟨follows.read fine before, follows.idle rfl⟩
  | boundary i => exact ⟨rfl, follows.idle rfl⟩
  | notify cb => exact ⟨rfl, follows.idle rfl⟩
  | emit cb first last =>
      cases cb with
      | headerField => exact ⟨rfl, follows.idle rfl⟩
      | chunkData => exact follows.chunk small fine before
      | headerValue =>
          rcases Nat.lt_or_ge last buf.length with more | ends
          · exact follows.value small more fine before
          · obtain rfl : last = buf.length := le_antisymm fine.2.1 ends
            exact follows.cutOff

theorem Faithful.initial (holds : mem.take buf.length = buf) :
    Faithful api alloc buf ⟨false, mallocs log, savedImages log⟩ [] ⟨mem, 0, 0, 0, []⟩ log := by
  refine ⟨rfl, rfl, fun _ => ⟨rfl, ?_⟩⟩
  intro i b here _
  have inside : i < buf.length := (List.getElem?_eq_some_iff.mp here).1
  rw [← holds, List.getElem?_take_of_lt inside] at here
  exact here

theorem runMultipart_keeps {I : MpArg → List (Event Http) → Prop} (nonempty : P ≠ [])
    (small : buf.length < 2 ^ 64) (holds : mem.take buf.length = buf)
    (initial : I ⟨mem, 0, 0, 0, []⟩ log)
    (step : ∀ op mpArg log', Fine P buf ⟨op, quietAnswer P buf op⟩ → I mpArg log' →
      (serving alloc).wp (multipartCallbacks settings api P op mpArg) (fun r log' => I r.2 log')
        log') :
    (serving alloc).wp (runMultipart settings api P buf.length ⟨mem, 0, 0, 0, []⟩)
      (fun r log' =>
        let s := (items P buf).foldl (Intake.next api alloc)
          ⟨false, mallocs log, savedImages log⟩
        (savedImages log' = s.saved ∧ mallocs log' = s.asked) ∧ I r.2 log') log := by
  obtain ⟨front, logged⟩ := quietCalls_logged nonempty buf
  refine Machine.wp_mono (wp_interpret (R := fun calls mpArg log' =>
    Faithful api alloc buf ⟨false, mallocs log, savedImages log⟩ calls mpArg log' ∧ I mpArg log') ?_
    ⟨Faithful.initial holds, initial⟩ : (serving alloc).wp _ (fun r log' => r.1 =
    (scripted (quietAnswer P buf) (xMultipartParserExecute P.length buf.length) []).1 ∧ _) log) ?_
  · rintro calls op mpArg log' made ⟨follows, kept⟩
    have fine := logged.fine _ (made.subset (List.mem_append_right _ (List.mem_singleton_self _)))
    have before : ∀ e' ∈ calls, Before buf e' ⟨op, quietAnswer P buf op⟩ := by
      have ordered := logged.ordered.sublist made.sublist
      rw [List.pairwise_append] at ordered
      intro e' member
      exact ordered.2.2 e' member _ (List.mem_singleton_self _)
    refine Machine.wp_mono (Machine.wp_and (multipartCallbacks_wp follows small op fine before)
      (step op mpArg log' fine kept)) ?_
    rintro r log'' ⟨⟨answer, follows'⟩, kept'⟩
    exact ⟨answer, follows', kept'⟩
  · rintro r log' ⟨-, follows, kept⟩
    exact ⟨⟨follows.saved, follows.asked⟩, kept⟩

theorem runMultipart_wp (nonempty : P ≠ []) (small : buf.length < 2 ^ 64)
    (holds : mem.take buf.length = buf) :
    (serving alloc).wp (runMultipart settings api P buf.length ⟨mem, 0, 0, 0, []⟩)
      (fun _ log' =>
        let s := (items P buf).foldl (Intake.next api alloc)
          ⟨false, mallocs log, savedImages log⟩
        savedImages log' = s.saved ∧ mallocs log' = s.asked) log := by
  refine Machine.wp_mono (runMultipart_keeps (I := fun _ _ => True) nonempty small holds trivial
    fun _ _ _ _ _ => Machine.wp_true _ _) ?_
  exact fun r log' kept => kept.1

end Run
end Callbacks
end Ximg
