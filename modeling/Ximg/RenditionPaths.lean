import Ximg.Keys
import Ximg.HandlerSpecs

/-!
# Files of renditions

The path of a rendition spells the image and what was asked for: different renditions have
different files. A slash in the query makes the path lead elsewhere.
-/

namespace Ximg
open Text Vfs Calls

variable (settings : Settings)

/-! ## The texts that are printed -/

def wholeText (md5 : Bytes) : Bytes :=
  settings.imgPath.bytes ++ ascii "/" ++ decimalNat (strHash md5) ++ ascii "/" ++
    decimalNat (strHash (md5.drop 3)) ++ ascii "/" ++ md5

def nameFront (req : ZimgReq) : Bytes :=
  let d (i : Int32) : Bytes := decimal i.toInt
  d req.width ++ ascii "*" ++ d req.height ++ ascii "_p" ++ d req.proportion ++ ascii "_g" ++
    d req.gray ++ ascii "_" ++ d req.x ++ ascii "*" ++ d req.y ++ ascii "_r" ++ d req.rotate ++
    ascii "_q" ++ d req.quality ++ ascii "."

theorem wholePath_text (md5 : Bytes) :
    wholePath settings md5 = snprintf 512 (wholeText settings md5) := rfl

theorem rspName_text (req : ZimgReq) :
    rspName req = snprintf 128 (nameFront req ++ req.fmt.bytes) := rfl

theorem wholeText_eq (h : Md5) : wholeText settings h.bytes = pathTo settings (levels h) := by
  have slashes : ascii "/" = [slash] := rfl
  simp [wholeText, pathTo, levels, lvl1, lvl2, slashes]

structure UncutImage (h : Md5) : Prop where
  whole : (wholeText settings h.bytes).length < 512
  orig : (wholePath settings h.bytes ++ ascii "/0*0").length < 512

structure Uncut (req : ZimgReq) : Prop extends UncutImage settings req.md5 where
  name : scriptType settings req = none → (nameFront req ++ req.fmt.bytes).length < 128
  rsp : (wholePath settings req.md5.bytes ++ slash :: rspFile settings req).length < 512

def PlainQuery (req : ZimgReq) : Prop :=
  (∀ type ∈ req.type, slash ∉ type.bytes) ∧ slash ∉ req.fmt.bytes

/-! ## Reading a path back -/

theorem last_slash {front front' name name' : Bytes}
    (same : front ++ slash :: name = front' ++ slash :: name') (plain : slash ∉ name)
    (plain' : slash ∉ name') : front = front' ∧ name = name' := by
  have back := congrArg List.reverse same
  simp only [List.reverse_append, List.reverse_cons, List.append_assoc, List.singleton_append]
    at back
  have halves := split_unique back (by simpa using plain) (by simpa using plain')
  exact ⟨List.reverse_injective halves.2, List.reverse_injective halves.1⟩

theorem decimal_plain (i : Int) {c : UInt8} (sign : c ≠ minus) (digit : ¬IsDigit c) :
    c ∉ decimal i := by
  intro member
  rcases decimal_chars i c member with same | same
  · exact sign same
  · exact digit same

theorem number_read {i j : Int32} {c : UInt8} {s s' : Bytes} (sign : c ≠ minus)
    (digit : ¬IsDigit c) (same : decimal i.toInt ++ c :: s = decimal j.toInt ++ c :: s') :
    i = j ∧ s = s' := by
  obtain ⟨numbers, rest⟩ := split_unique same (decimal_plain _ sign digit)
    (decimal_plain _ sign digit)
  exact ⟨Int32.toInt_inj.mp (decimal_inj numbers), rest⟩

def star : UInt8 := 42

def underscore : UInt8 := 95

theorem nameFront_eq (req : ZimgReq) (f : Bytes) :
    nameFront req ++ f =
      decimal req.width.toInt ++ star :: (decimal req.height.toInt ++ underscore :: 112 ::
        (decimal req.proportion.toInt ++ underscore :: 103 :: (decimal req.gray.toInt ++
          underscore :: (decimal req.x.toInt ++ star :: (decimal req.y.toInt ++
            underscore :: 114 :: (decimal req.rotate.toInt ++ underscore :: 113 ::
              (decimal req.quality.toInt ++ dot :: f))))))) := by
  have texts : ascii "*" = [star] ∧ ascii "_p" = [underscore, 112] ∧
      ascii "_g" = [underscore, 103] ∧ ascii "_" = [underscore] ∧
      ascii "_r" = [underscore, 114] ∧ ascii "_q" = [underscore, 113] ∧ ascii "." = [dot] := by
    decide
  obtain ⟨one, two, three, four, five, six, seven⟩ := texts
  simp only [nameFront, one, two, three, four, five, six, seven, List.append_assoc,
    List.cons_append, List.nil_append]

theorem name_read {req req' : ZimgReq} {f f' : Bytes}
    (same : nameFront req ++ f = nameFront req' ++ f') : req.numbers = req'.numbers ∧ f = f' := by
  have starred : star ≠ minus ∧ ¬IsDigit star := by decide
  have scored : underscore ≠ minus ∧ ¬IsDigit underscore := by decide
  have dotted : dot ≠ minus ∧ ¬IsDigit dot := by decide
  rw [nameFront_eq, nameFront_eq] at same
  obtain ⟨width, same⟩ := number_read starred.1 starred.2 same
  obtain ⟨height, same⟩ := number_read scored.1 scored.2 same
  obtain ⟨proportion, same⟩ := number_read scored.1 scored.2 (List.cons.inj same).2
  obtain ⟨gray, same⟩ := number_read scored.1 scored.2 (List.cons.inj same).2
  obtain ⟨x, same⟩ := number_read starred.1 starred.2 same
  obtain ⟨y, same⟩ := number_read scored.1 scored.2 same
  obtain ⟨rotate, same⟩ := number_read scored.1 scored.2 (List.cons.inj same).2
  obtain ⟨quality, same⟩ := number_read dotted.1 dotted.2 (List.cons.inj same).2
  refine ⟨?_, same⟩
  rw [ZimgReq.numbers, ZimgReq.numbers, width, height, proportion, gray, x, y, rotate, quality]

/-! ## Which file is read -/

variable {settings}

theorem wholePath_uncut {h : Md5} (uncut : UncutImage settings h) :
    wholePath settings h.bytes = pathTo settings (levels h) := by
  rw [wholePath_text, snprintf, cut_eq_self uncut.whole, wholeText_eq]

theorem origPath_uncut {h : Md5} (uncut : UncutImage settings h) :
    origPath settings h.bytes = wholePath settings h.bytes ++ slash :: ascii "0*0" :=
  cut_eq_self uncut.orig

theorem rspPath_uncut {req : ZimgReq} (uncut : Uncut settings req) :
    rspPath settings req = wholePath settings req.md5.bytes ++ slash :: rspFile settings req := by
  rw [rspPath_eq, cut_eq_self uncut.rsp]

theorem wholePath_inj {h k : Md5} (uncut : UncutImage settings h) (uncut' : UncutImage settings k)
    (same : wholePath settings h.bytes = wholePath settings k.bytes) : h = k := by
  rw [wholePath_uncut uncut, wholePath_uncut uncut'] at same
  exact Md5.ext_bytes (last_slash same h.isName.2.2.2 k.isName.2.2.2).2

theorem nameFront_plain (req : ZimgReq) : slash ∉ nameFront req := by
  have number (i : Int) : 47 ∉ decimal i := decimal_plain i (by decide) (by decide)
  rw [← List.append_nil (nameFront req), nameFront_eq]
  simp [star, underscore, slash, dot, number]

theorem rspFile_cases {req : ZimgReq} (uncut : Uncut settings req) :
    (∃ type, scriptType settings req = some type ∧
      requested settings req = .script type.bytes ∧
      rspFile settings req = ascii "t_" ++ type.bytes) ∨
    (requested settings req = .original ∧ rspFile settings req = ascii "0*0") ∨
    (requested settings req = .arguments req.numbers req.fmt.bytes ∧
      rspFile settings req = nameFront req ++ req.fmt.bytes) := by
  obtain ⟨type, script, made⟩ | ⟨script, original, made⟩ | ⟨script, changed, made⟩ :=
    requested_cases settings req
  · exact .inl ⟨type, script, made, by rw [rspFile, script]⟩
  · refine .inr (.inl ⟨made, ?_⟩)
    rw [rspFile, script]
    exact if_pos original
  · refine .inr (.inr ⟨made, ?_⟩)
    rw [rspFile, script]
    dsimp only
    rw [if_neg changed, rspName_text, snprintf, cut_eq_self (uncut.name script)]

theorem rspFile_plain {req : ZimgReq} (uncut : Uncut settings req) (plain : PlainQuery req) :
    slash ∉ rspFile settings req := by
  obtain ⟨type, script, -, file⟩ | ⟨-, file⟩ | ⟨-, file⟩ := rspFile_cases uncut
  · have given : type ∈ req.type := by
      unfold scriptType at script
      split at script
      · exact script
      · cases script
    rw [file, List.mem_append, not_or]
    exact ⟨by decide, plain.1 type given⟩
  · rw [file]
    decide
  · rw [file, List.mem_append, not_or]
    exact ⟨nameFront_plain req, plain.2⟩

theorem script_other {req : ZimgReq} {type f : Bytes} :
    ascii "t_" ++ type ≠ nameFront req ++ f := by
  intro same
  obtain ⟨c, s, text, -⟩ := decimal_head req.width.toInt
  have letter : c = 116 := by
    rw [nameFront_eq, text] at same
    exact (List.cons.inj same).1.symm
  have number := decimal_chars req.width.toInt c (text ▸ List.mem_cons_self)
  rw [letter] at number
  revert number
  decide

theorem original_other {req : ZimgReq} {f : Bytes} : ascii "0*0" ≠ nameFront req ++ f := by
  intro same
  have size := congrArg List.length same
  have room : (ascii "0*0").length = 3 := rfl
  have width : 0 < (decimal req.width.toInt).length := List.length_pos_of_ne_nil (decimal_ne_nil _)
  rw [nameFront_eq, room] at size
  simp only [List.length_append, List.length_cons] at size
  omega

theorem rspFile_inj {req req' : ZimgReq} (uncut : Uncut settings req) (uncut' : Uncut settings req')
    (same : rspFile settings req = rspFile settings req') :
    requested settings req = requested settings req' := by
  obtain ⟨type, -, made, file⟩ | ⟨made, file⟩ | ⟨made, file⟩ := rspFile_cases uncut
  all_goals
    obtain ⟨type', -, made', file'⟩ | ⟨made', file'⟩ | ⟨made', file'⟩ := rspFile_cases uncut'
    all_goals rw [file, file'] at same
  · rw [made, made', List.append_cancel_left same]
  · cases same
  · exact absurd same script_other
  · cases same
  · rw [made, made']
  · exact absurd same original_other
  · exact absurd same.symm script_other
  · exact absurd same.symm original_other
  · obtain ⟨numbers, format⟩ := name_read same
    rw [made, made', numbers, format]

/-- The path of a rendition determines the image and what was asked for, and no rendition shares
the file of an original. -/
theorem renditions_distinct (req req' : ZimgReq) (uncut : Uncut settings req)
    (uncut' : Uncut settings req') (plain : PlainQuery req) (plain' : PlainQuery req') :
    (rspPath settings req = rspPath settings req' →
      req.md5 = req'.md5 ∧ requested settings req = requested settings req') ∧
    (requested settings req ≠ .original → ∀ h : Md5, UncutImage settings h →
      rspPath settings req ≠ origPath settings h.bytes) := by
  have file := rspFile_plain uncut plain
  constructor
  · intro same
    rw [rspPath_uncut uncut, rspPath_uncut uncut'] at same
    obtain ⟨whole, files⟩ := last_slash same file (rspFile_plain uncut' plain')
    exact ⟨wholePath_inj uncut.toUncutImage uncut'.toUncutImage whole,
      rspFile_inj uncut uncut' files⟩
  · intro other h image same
    rw [rspPath_uncut uncut, origPath_uncut image] at same
    have files := (last_slash same file (by decide)).2
    obtain ⟨type, -, -, text⟩ | ⟨made, -⟩ | ⟨-, text⟩ := rspFile_cases uncut
    · rw [text] at files
      cases files
    · exact other made
    · exact original_other (files.symm.trans text)

theorem smallImage_uncut : UncutImage (smallSettings 1 1) (md5Of (ascii "a")) :=
  ⟨by decide +kernel, by decide +kernel⟩

theorem renditions_distinct_small :
    let settings := smallSettings 1 1
    let req := smallReq (md5Of (ascii "a")) 5
    let req' := smallReq (md5Of (ascii "a")) 6
    (rspPath settings req = rspPath settings req' →
      req.md5 = req'.md5 ∧ requested settings req = requested settings req') ∧
    (requested settings req ≠ .original → ∀ h : Md5, UncutImage settings h →
      rspPath settings req ≠ origPath settings h.bytes) := by
  have uncut (width : Int32) (short : (nameFront (smallReq (md5Of (ascii "a")) width) ++
      ascii "none").length < 128) (file : (wholePath (smallSettings 1 1) (md5Of (ascii "a")).bytes ++
      slash :: rspFile (smallSettings 1 1) (smallReq (md5Of (ascii "a")) width)).length < 512) :
      Uncut (smallSettings 1 1) (smallReq (md5Of (ascii "a")) width) :=
    { smallImage_uncut with name := fun _ => short, rsp := file }
  exact renditions_distinct _ _ (uncut 5 (by decide +kernel) (by decide +kernel))
    (uncut 6 (by decide +kernel) (by decide +kernel))
    ⟨fun _ member => (by cases member), by decide⟩ ⟨fun _ member => (by cases member), by decide⟩

/-! ## Where the file lies -/

def InDirectory (settings : Settings) (h : Md5) (path : Bytes) : Prop :=
  ∃ name, IsName name ∧ path = wholePath settings h.bytes ++ slash :: name

/-- The directory's path leaves room for a name, and what is kept of the query's type, or of its
format, has no slash. -/
def StaysInside (settings : Settings) (req : ZimgReq) : Prop :=
  pathLen settings (levels req.md5) ≤ 509 ∧
    match scriptType settings req with
    | some type => slash ∉ type.bytes.take (508 - pathLen settings (levels req.md5))
    | none => req.original ∨ slash ∉ req.fmt.bytes.take
        (min 127 (510 - pathLen settings (levels req.md5)) - (nameFront req).length)

theorem wholePath_room {h : Md5} (room : pathLen settings (levels h) ≤ 511) :
    wholePath settings h.bytes = pathTo settings (levels h) := by
  rw [wholePath_eq, cut_eq_self]
  rw [length_pathTo]
  omega

theorem rspPath_room {req : ZimgReq} (room : pathLen settings (levels req.md5) ≤ 510) :
    rspPath settings req =
      wholePath settings req.md5.bytes ++ slash :: keptName settings req := by
  have split : 511 - pathLen settings (levels req.md5) =
      (510 - pathLen settings (levels req.md5)) + 1 := by omega
  rw [rspPath_eq, wholePath_room (by omega), cut, List.take_append, length_pathTo, keptName,
    List.take_of_length_le (by rw [length_pathTo]; omega), split, List.take_succ_cons]

theorem inDirectory_full {req : ZimgReq} (full : 509 < pathLen settings (levels req.md5)) :
    ¬InDirectory settings req.md5 (rspPath settings req) := by
  rintro ⟨name, isName, same⟩
  have size := congrArg List.length same
  have some : 0 < name.length := List.length_pos_of_ne_nil isName.1
  rw [rspPath_eq, wholePath_eq] at size
  simp only [cut, List.length_take, List.length_append, List.length_cons, length_pathTo] at size
  omega

theorem keptName_isName {req : ZimgReq} (room : pathLen settings (levels req.md5) ≤ 509) :
    IsName (keptName settings req) ↔ slash ∉ keptName settings req := by
  obtain ⟨c, s, file, noDot, -⟩ := rspFile_head settings req
  have split : 510 - pathLen settings (levels req.md5) =
      (509 - pathLen settings (levels req.md5)) + 1 := by omega
  rw [keptName, file, split, List.take_succ_cons]
  exact ⟨fun isName => isName.2.2.2, fun plain => isName_of_head noDot plain⟩

theorem keptName_plain (req : ZimgReq) :
    slash ∉ keptName settings req ↔
      match scriptType settings req with
      | some type => slash ∉ type.bytes.take (508 - pathLen settings (levels req.md5))
      | none => req.original ∨ slash ∉ req.fmt.bytes.take
          (min 127 (510 - pathLen settings (levels req.md5)) - (nameFront req).length) := by
  have front (n : Nat) {text : Bytes} (plain : slash ∉ text) (more : Bytes) :
      slash ∉ (text ++ more).take n ↔ slash ∉ more.take (n - text.length) := by
    rw [List.take_append, List.mem_append, not_or]
    exact and_iff_right fun member => plain (List.mem_of_mem_take member)
  unfold keptName rspFile
  cases scriptType settings req with
  | some type =>
      dsimp only
      rw [front _ (by decide), show (ascii "t_").length = 2 from rfl, Nat.sub_sub,
        Nat.add_comm, ← Nat.sub_sub]
  | none =>
      dsimp only
      split
      · rename_i original
        exact iff_of_true (fun member => absurd (List.mem_of_mem_take member) (by decide))
          (.inl original)
      · rename_i changed
        rw [rspName_text, snprintf, cut, List.take_take, front _ (nameFront_plain req), min_comm]
        exact (or_iff_right changed).symm

theorem rspPath_inside (settings : Settings) (req : ZimgReq) :
    InDirectory settings req.md5 (rspPath settings req) ↔ StaysInside settings req := by
  by_cases room : pathLen settings (levels req.md5) ≤ 509
  · rw [StaysInside, and_iff_right room, ← keptName_plain, ← keptName_isName room,
      rspPath_room (by omega), InDirectory]
    constructor
    · rintro ⟨name, isName, same⟩
      rw [(List.cons.inj (List.append_cancel_left same)).2]
      exact isName
    · exact fun isName => ⟨_, isName, rfl⟩
  · exact iff_of_false (inDirectory_full (by omega)) fun stays => room stays.1

def fetched (log : List (Event Http)) : List ZimgReq :=
  log.filterMap fun e => match e.1 with
    | .getImg zreq => some zreq
    | _ => none

section Handlers
variable (inetAton : Bytes → Option UInt32) (settings : HttpSettings) (thrArg : ThrArg)
  (req : EvhtpRequest) (saddr : UInt32)

def FetchesQuery : HttpOp → Prop
  | .getImg zreq => ∃ named args, FromQuery req args ∧
      zreq = zimgReq settings thrArg ⟨uriMd5 req, named⟩ args
  | _ => True

variable {settings thrArg req} in
theorem fetches_query {op : HttpOp} (h : Fetches settings thrArg req op) :
    FetchesQuery settings thrArg req op := by
  cases op with
  | getImg zreq => exact h
  | _ => trivial

theorem checkAccess_query (conf : Option ZimgAccessConf) (addr : UInt32) :
    (checkAccess conf addr).Uses (FetchesQuery settings thrArg req) := by
  cases conf with
  | none => trivial
  | some conf =>
      refine ⟨trivial, fun acs => ?_⟩
      show Prog.Uses (S := Http) (FetchesQuery settings thrArg req) (if acs = ZIMG_FORBIDDEN then _
        else _)
      split_ifs <;> trivial

theorem getRequestCb_query (get : req.methodName = "GET") :
    (getRequestCb inetAton settings thrArg req saddr).Uses
      (FetchesQuery settings thrArg req) := by
  have notPost : req.methodName ≠ "POST" := by
    rw [get]
    decide
  have reply {p : Prog Http Unit} (uses : p.Uses Idle) :
      p.Uses (FetchesQuery settings thrArg req) :=
    uses.mono fun _ idle => fetches_query (idle_fetches idle)
  unfold getRequestCb
  dsimp only
  rw [if_neg notPost, if_neg (not_not.mpr get)]
  refine (checkAccess_query settings thrArg req _ _).bind fun access => ?_
  cases access with
  | ok =>
      have allowed := (getAllowed_fetches settings thrArg req).mono fun _ => fetches_query
      exact allowed.bind fun _ => trivial
  | forbidden => exact (reply (replyForbidden_idle settings)).bind fun _ => trivial
  | error => exact (reply (replyNotFound_idle settings)).bind fun _ => trivial

/-- Every request that a `GET` makes of `get_img` takes its type and format from the query, and its
path is a name in the image's directory exactly when what is kept of them has no slash. -/
theorem rendition_confined (alloc : Nat → Bool) (get : req.methodName = "GET") :
    (serving alloc).wp (getRequestCb inetAton settings thrArg req saddr)
      (fun _ log => ∀ zreq ∈ fetched log,
        (∃ named args, FromQuery req args ∧
          zreq = zimgReq settings thrArg ⟨uriMd5 req, named⟩ args) ∧
        (InDirectory settings.toSettings zreq.md5 (rspPath settings.toSettings zreq) ↔
          StaysInside settings.toSettings zreq)) [] := by
  refine Machine.wp_mono (adds_uses (getRequestCb_query inetAton settings thrArg req saddr get)) ?_
  rintro _ _ ⟨more, rfl, within⟩ zreq member
  refine ⟨?_, rspPath_inside settings.toSettings zreq⟩
  obtain ⟨⟨op, r⟩, found, same⟩ := List.mem_filterMap.mp member
  cases op with
  | getImg zreq' =>
      obtain rfl : zreq' = zreq := Option.some.inj same
      exact within _ found
  | _ => cases same

end Handlers

def pageThread : ThrArg := ⟨false, false, false, true⟩

def upwardRequest : EvhtpRequest where
  method := 0
  uriPathFull := ⟨ascii "/00000000000000000000000000000000", by decide⟩
  uriQuery := some [⟨⟨ascii "w", by decide⟩, ⟨ascii "5", by decide⟩⟩,
    ⟨⟨ascii "f", by decide⟩, ⟨ascii "/../x", by decide⟩⟩]
  headersIn := []
  bufferIn := []

def upwardReq : ZimgReq :=
  zimgReq uploadSettings pageThread ⟨uriMd5 upwardRequest, by decide +kernel⟩
    ⟨5, 0, 1, 0, -1, -1, 0, 0, some ⟨ascii "/../x", by decide⟩, none, 0⟩

theorem upwardRequest_allowed :
    getAllowed uploadSettings pageThread upwardRequest =
      getImage uploadSettings pageThread upwardRequest := by
  unfold getAllowed
  dsimp only
  rw [if_neg (by decide +kernel), if_neg (by decide +kernel), if_neg (by decide +kernel)]

theorem upwardReq_fetched {Q : UInt32 → List (Event Http) → Prop}
    (h : (serving fun _ => true).wp
      (getRequestCb (fun _ => none) uploadSettings pageThread upwardRequest 0) Q []) :
    ∃ a log, Q a log ∧ upwardReq ∈ fetched log := by
  have named : IsMd5 (uriMd5 upwardRequest) := by decide +kernel
  unfold getRequestCb at h
  dsimp only at h
  rw [if_neg (by decide +kernel), if_neg (by decide +kernel)] at h
  have access : checkAccess uploadSettings.downAccess
      (forwarded (fun _ => none) upwardRequest 0) = .ret .ok := rfl
  rw [access, Prog.ret_bind] at h
  dsimp only at h
  rw [upwardRequest_allowed] at h
  simp only [getImage, dif_pos named] at h
  have run := h true rfl true rfl true rfl (0 : Int) trivial () trivial () trivial () trivial
  exact ⟨_, _, run, List.mem_singleton_self _⟩

theorem rendition_confined_small :
    (serving fun _ => true).wp
      (getRequestCb (fun _ => none) uploadSettings pageThread upwardRequest 0)
      (fun _ log => ∀ zreq ∈ fetched log,
        (∃ named args, FromQuery upwardRequest args ∧
          zreq = zimgReq uploadSettings pageThread ⟨uriMd5 upwardRequest, named⟩ args) ∧
        (InDirectory uploadSettings.toSettings zreq.md5 (rspPath uploadSettings.toSettings zreq) ↔
          StaysInside uploadSettings.toSettings zreq)) [] :=
  rendition_confined _ _ _ _ _ _ (by decide)

theorem format_escapes :
    ¬(serving fun _ => true).wp
      (getRequestCb (fun _ => none) uploadSettings pageThread upwardRequest 0)
      (fun _ log => ∀ zreq ∈ fetched log,
        InDirectory uploadSettings.toSettings zreq.md5 (rspPath uploadSettings.toSettings zreq))
      [] := by
  intro h
  obtain ⟨_, log, inside, member⟩ := upwardReq_fetched h
  obtain ⟨-, original | plain⟩ := (rspPath_inside _ _).mp (inside upwardReq member)
  · exact absurd original (by decide)
  · exact absurd plain (by decide +kernel)

end Ximg
