import Ximg.UploadFilter
import Ximg.Xhttpd

/-!
# What the handlers do

For each handler: the address that it leaves behind, the access rules that it consults, and what
holds when it saves an image.
-/

namespace Ximg
open Text Calls

/-! ## The calls that a program adds -/

def consultation (e : Event Http) : Option (ZimgAccessConf × UInt32) :=
  match e.1 with
  | .zimgAccessInet conf addr => some (conf, addr)
  | _ => none

def consulted (log : List (Event Http)) : List (ZimgAccessConf × UInt32) :=
  log.filterMap consultation

def Adds (alloc : Nat → Bool) {α : Type} (p : Prog Http α)
    (Q : α → List (Event Http) → Prop) (log : List (Event Http)) : Prop :=
  (serving alloc).wp p (fun a log' => ∃ more, log' = log ++ more ∧ Q a more) log

section Adds
variable {alloc : Nat → Bool} {α β : Type} {log : List (Event Http)}

theorem Adds.ret {a : α} {Q : α → List (Event Http) → Prop} (h : Q a []) :
    Adds alloc (.ret a) Q log := ⟨[], (List.append_nil _).symm, h⟩

theorem Adds.mono {p : Prog Http α} {Q Q' : α → List (Event Http) → Prop} (h : Adds alloc p Q log)
    (implies : ∀ a more, Q a more → Q' a more) : Adds alloc p Q' log := by
  refine Machine.wp_mono h ?_
  rintro a log' ⟨more, same, holds⟩
  exact ⟨more, same, implies a more holds⟩

theorem Adds.bind {p : Prog Http α} {f : α → Prog Http β} {Q : α → List (Event Http) → Prop}
    {Q' : β → List (Event Http) → Prop} (first : Adds alloc p Q log)
    (rest : ∀ a more, Q a more → ∀ log, Adds alloc (f a) (fun b more' => Q' b (more ++ more')) log) :
    Adds alloc (p >>= f) Q' log := by
  unfold Adds
  rw [Machine.wp_bind]
  refine Machine.wp_mono first ?_
  rintro a log' ⟨more, rfl, holds⟩
  refine Machine.wp_mono (rest a more holds (log ++ more)) ?_
  rintro b log' ⟨more', rfl, holds'⟩
  exact ⟨more ++ more', List.append_assoc _ _ _, holds'⟩

theorem Adds.call {op : HttpOp} {k : op.Res → Prog Http β} {Q : β → List (Event Http) → Prop}
    (rest : ∀ r, (serving alloc).Legal log op r →
      Adds alloc (k r) (fun b more => Q b (⟨op, r⟩ :: more)) (log ++ [⟨op, r⟩])) :
    Adds alloc (.call op k) Q log := by
  intro r legal
  refine Machine.wp_mono (rest r legal) ?_
  rintro b log' ⟨more, rfl, holds⟩
  exact ⟨⟨op, r⟩ :: more, List.append_assoc _ [_] _, holds⟩

theorem Adds.and {p : Prog Http α} {Q Q' : α → List (Event Http) → Prop} (h : Adds alloc p Q log)
    (h' : Adds alloc p Q' log) : Adds alloc p (fun a more => Q a more ∧ Q' a more) log := by
  refine Machine.wp_mono (Machine.wp_and h h') ?_
  rintro a log' ⟨⟨more, rfl, holds⟩, more', same, holds'⟩
  exact ⟨more, rfl, holds, List.append_cancel_left same ▸ holds'⟩

theorem adds_uses {allowed : HttpOp → Prop} {p : Prog Http α} (uses : p.Uses allowed) :
    Adds alloc p (fun _ more => ∀ e ∈ more, allowed e.1) log := by
  refine Machine.wp_of_uses (R := fun log' => ∃ more, log' = log ++ more ∧ ∀ e ∈ more, allowed e.1)
    uses ?_ ⟨[], (List.append_nil _).symm, by simp⟩
  rintro _ op r ok ⟨more, rfl, within⟩ -
  refine ⟨more ++ [⟨op, r⟩], List.append_assoc _ _ _, ?_⟩
  intro e member
  rcases List.mem_append.mp member with member | member
  · exact within e member
  · rw [List.mem_singleton.mp member]
    exact ok

end Adds

/-! ## Calls that neither ask nor save -/

def Unasked : HttpOp → Prop
  | .zimgAccessInet _ _ | .multipartParserInit _ | .fault => False
  | _ => True

def Unsaving : HttpOp → Prop
  | .zimgAccessInet _ _ | .multipartParserInit _ | .fault | .saveImg _ => False
  | _ => True

def Idle : HttpOp → Prop
  | .zimgAccessInet _ _ | .multipartParserInit _ | .fault | .saveImg _ | .getImg _ | .adminImg _ _
  | .infoImg _ => False
  | _ => True

def Saving : HttpOp → Prop
  | .malloc | .saveImg _ | .evbufferAddPrintf _ => True
  | _ => False

theorem saving_unasked {op : HttpOp} (h : Saving op) : Unasked op := by
  cases op with
  | malloc | saveImg _ | evbufferAddPrintf _ => trivial
  | _ => exact h.elim

theorem consulted_unasked {more : List (Event Http)} (h : ∀ e ∈ more, Unasked e.1) :
    consulted more = [] := by
  rw [consulted, List.filterMap_eq_nil_iff]
  rintro ⟨op, r⟩ member
  have := h _ member
  cases op with
  | zimgAccessInet conf addr => exact this.elim
  | _ => rfl

theorem savedImages_unsaving {more : List (Event Http)} (h : ∀ e ∈ more, Unsaving e.1) :
    savedImages more = [] := by
  rw [savedImages, List.filterMap_eq_nil_iff]
  rintro ⟨op, r⟩ member
  have := h _ member
  cases op with
  | saveImg buff => exact this.elim
  | _ => rfl

theorem unsaving_unasked {op : HttpOp} (h : Unsaving op) : Unasked op := by
  cases op with
  | zimgAccessInet _ _ | multipartParserInit _ | fault | saveImg _ => exact h.elim
  | _ => trivial

theorem idle_unsaving {op : HttpOp} (h : Idle op) : Unsaving op := by
  cases op with
  | zimgAccessInet _ _ | multipartParserInit _ | fault | saveImg _ => exact h.elim
  | _ => trivial

theorem idle_unasked {op : HttpOp} (h : Idle op) : Unasked op := unsaving_unasked (idle_unsaving h)

theorem mem_savedImages {buff : Bytes} {r : Int × Bytes} {log : List (Event Http)}
    (member : (⟨.saveImg buff, r⟩ : Event Http) ∈ log) : buff ∈ savedImages log :=
  List.mem_filterMap.mpr ⟨_, member, rfl⟩

def Still (more : List (Event Http)) : Prop := savedImages more = [] ∧ consulted more = []

theorem adds_unsaving {alloc : Nat → Bool} {α : Type} {p : Prog Http α} {log : List (Event Http)}
    (uses : p.Uses Unsaving) : Adds alloc p (fun _ more => Still more) log :=
  (adds_uses uses).mono fun _ _ within => ⟨savedImages_unsaving within,
    consulted_unasked fun e member => unsaving_unasked (within e member)⟩

theorem adds_idle {alloc : Nat → Bool} {α : Type} {p : Prog Http α} {log : List (Event Http)}
    (uses : p.Uses Idle) : Adds alloc p (fun _ more => Still more) log :=
  adds_unsaving (uses.mono fun _ => idle_unsaving)

/-! ### Replies -/

section Replies
variable (settings : HttpSettings) (thrArg : ThrArg) (req : EvhtpRequest)

theorem printf_idle (text : String) : (printf text).Uses Idle := ⟨trivial, fun _ => trivial⟩

theorem addHeader_idle (key : String) (value : Bytes) : (addHeader key value).Uses Idle :=
  ⟨trivial, fun _ => trivial⟩

theorem addJson_idle (text : Bytes) : (addJson text).Uses Idle :=
  ⟨trivial, fun _ => addHeader_idle _ _⟩

theorem sendReply_idle (code : Nat) : (http (.evhtpSendReply code)).Uses Idle :=
  ⟨trivial, fun _ => trivial⟩

theorem sendUpload_idle : (sendUpload settings).Uses Idle :=
  ⟨trivial, fun _ => sendReply_idle _⟩

theorem headersForM_idle (headers : List (CString × CString)) :
    (headers.forM fun header => http (.headersAddHeader header.1.bytes header.2.bytes)).Uses
      Idle := by
  induction headers with
  | nil => trivial
  | cons header headers ih => exact ⟨trivial, fun _ => ih⟩

theorem zimgHeadersAdd_idle : (zimgHeadersAdd settings).Uses Idle := by
  unfold zimgHeadersAdd
  split
  · trivial
  · exact headersForM_idle _

theorem replyPage_idle (text : String) (code : Nat) : (replyPage settings text code).Uses Idle :=
  ⟨trivial, fun _ => ⟨trivial, fun _ => ⟨trivial, fun _ => sendReply_idle _⟩⟩⟩

theorem replyForbidden_idle : (replyForbidden settings).Uses Idle := replyPage_idle settings _ _

theorem replyNotFound_idle : (replyNotFound settings).Uses Idle := replyPage_idle settings _ _

theorem sendFavicon_idle : (sendFavicon settings).Uses Idle :=
  ⟨trivial, fun _ => ⟨trivial, fun _ =>
    (zimgHeadersAdd_idle settings).bind fun _ => sendReply_idle _⟩⟩

theorem sendPage_idle (path : Bytes) (text : String) :
    (sendPage settings path text).Uses Idle := by
  refine ⟨trivial, fun opened => ?_⟩
  cases opened <;>
    exact ⟨trivial, fun _ => ⟨trivial, fun _ => ⟨trivial, fun _ => sendReply_idle _⟩⟩⟩

theorem sendImage_idle (getImgRst : Int) : (sendImage settings getImgRst).Uses Idle := by
  unfold sendImage
  split
  · exact replyNotFound_idle settings
  split
  · exact sendReply_idle _
  · exact ⟨trivial, fun _ => ⟨trivial, fun _ =>
      (zimgHeadersAdd_idle settings).bind fun _ => sendReply_idle _⟩⟩

/-! ### Images -/

def queried (key : String) : Option CString :=
  req.uriQuery.bind fun params => kvFind params key

structure FromQuery (args : ImgArgs) : Prop where
  type : ∀ type ∈ args.type, type ∈ queried req "t"
  fmt : ∀ fmt ∈ args.fmt, fmt ∈ queried req "f"

def NamedByQuery (md5 : Bytes) : Prop :=
  isMd5 md5 ≠ -1 ∧ ∃ strMd5 ∈ queried req "md5", md5 = strLcpy strMd5.bytes 33

def Fetches : HttpOp → Prop
  | .getImg zreq => ∃ named args, FromQuery req args ∧
      zreq = zimgReq settings thrArg ⟨uriMd5 req, named⟩ args
  | op => Idle op

def Names : HttpOp → Prop
  | .adminImg md5 _ | .infoImg md5 => NamedByQuery req md5
  | op => Idle op

section Kinds
variable {settings thrArg req} {op : HttpOp}

theorem idle_fetches (h : Idle op) : Fetches settings thrArg req op := by
  cases op with
  | getImg _ | adminImg _ _ | infoImg _ => exact h.elim
  | _ => exact h

theorem idle_names (h : Idle op) : Names req op := by
  cases op with
  | getImg _ | adminImg _ _ | infoImg _ => exact h.elim
  | _ => exact h

theorem fetches_unsaving (h : Fetches settings thrArg req op) : Unsaving op := by
  cases op with
  | getImg _ => trivial
  | _ => exact idle_unsaving h

theorem names_unsaving (h : Names req op) : Unsaving op := by
  cases op with
  | adminImg _ _ | infoImg _ => trivial
  | _ => exact idle_unsaving h

end Kinds

theorem kvCopy_yields (params : List EvhtpKv) (key : String) :
    (kvCopy params key).Yields Idle fun s => ∀ str ∈ s, str ∈ kvFind params key := by
  unfold kvCopy
  cases kvFind params key with
  | none => exact fun str member => member
  | some str =>
      refine ⟨trivial, fun allocated => ?_⟩
      cases allocated with
      | false => exact fun str member => by cases member
      | true => exact fun str member => member

theorem queryArgs_yields : (queryArgs settings req).Yields Idle (FromQuery req) := by
  unfold queryArgs
  cases query : req.uriQuery with
  | none => exact ⟨fun _ member => (by cases member), fun _ member => (by cases member)⟩
  | some params =>
      have asked (key : String) : queried req key = kvFind params key := by
        rw [queried, query]
        rfl
      -- A parameter is copied where it is not disabled.
      have copy (disable : Int32) (key : String) (k : Option CString → Prog Http ImgArgs)
          (rest : ∀ s, (∀ str ∈ s, str ∈ queried req key) → (k s).Yields Idle (FromQuery req)) :
          (if disable ≠ 1 then kvCopy params key >>= k else pure none >>= k).Yields Idle
            (FromQuery req) := by
        split
        · refine (kvCopy_yields params key).bind fun s from_ => rest s ?_
          rwa [asked]
        · exact rest none fun _ member => by cases member
      refine copy _ _ _ fun fmt fmtFrom => copy _ _ _ fun type typeFrom => ?_
      show FromQuery req (imgArgs settings params fmt type)
      unfold imgArgs
      split
      · exact ⟨typeFrom, fmtFrom⟩
      · exact ⟨typeFrom, fun _ member => by cases member⟩

theorem getImage_fetches :
    (getImage settings thrArg req).Uses (Fetches settings thrArg req) := by
  have missing := (replyNotFound_idle settings).mono fun _ => @idle_fetches settings thrArg req _
  refine ⟨trivial, fun allocated => ?_⟩
  cases allocated with
  | false => exact missing
  | true =>
      show Prog.Uses (S := Http) (Fetches settings thrArg req)
        (if named : IsMd5 (uriMd5 req) then _ else _)
      split
      · rename_i named
        refine ((queryArgs_yields settings req).mono fun _ => idle_fetches).uses fun args from_ => ?_
        refine ⟨trivial, fun allocated => ?_⟩
        cases allocated with
        | false => exact missing
        | true =>
            refine ⟨⟨named, args, from_, rfl⟩, fun result => ?_⟩
            exact (sendImage_idle settings result).mono fun _ => idle_fetches
      · exact missing

theorem getAllowed_fetches :
    (getAllowed settings thrArg req).Uses (Fetches settings thrArg req) := by
  unfold getAllowed
  dsimp only
  split_ifs
  · exact (sendPage_idle settings _ _).mono fun _ => idle_fetches
  · exact (sendFavicon_idle settings).mono fun _ => idle_fetches
  · exact (replyForbidden_idle settings).mono fun _ => idle_fetches
  · exact getImage_fetches settings thrArg req

theorem adminFailed_idle (md5 : Bytes) (t : Int32) (reason : String) :
    (adminFailed md5 t reason).Uses Idle :=
  ⟨trivial, fun _ => addHeader_idle _ _⟩

theorem adminCommand_names {md5 : Bytes} (named : NamedByQuery req md5) (t : Int32) :
    (adminCommand settings md5 t).Uses (Names req) := by
  refine ⟨named, fun result => ?_⟩
  show Prog.Uses (S := Http) (Names req) (if result = -1 then _ else _)
  have failed (reason : String) : Prog.Uses (S := Http) (Names req)
      (adminFailed md5 t reason >>= fun _ => sendUpload settings) :=
    ((adminFailed_idle _ _ _).bind fun _ => sendUpload_idle settings).mono fun _ => idle_names
  split_ifs
  · exact failed _
  · exact failed _
  · exact (sendUpload_idle settings).mono fun _ => idle_names

theorem adminAllowed_names :
    (adminAllowed settings req).Uses (Names req) := by
  have missing := (replyNotFound_idle settings).mono fun _ => @idle_names req _
  unfold adminAllowed
  split
  · exact (sendFavicon_idle settings).mono fun _ => idle_names
  split
  · exact (sendPage_idle settings _ _).mono fun _ => idle_names
  rename_i params query
  split
  · exact missing
  rename_i strMd5 found
  dsimp only
  split
  · exact missing
  · rename_i named
    refine adminCommand_names settings req ⟨named, strMd5, ?_, rfl⟩ _
    rw [queried, query]
    exact found

theorem infoImage_names : (infoImage req).Uses (Names req) := by
  unfold infoImage
  split
  · trivial
  split
  · trivial
  rename_i params query
  split
  · trivial
  rename_i strMd5 found
  dsimp only
  split
  · trivial
  rename_i named
  have by_query : NamedByQuery req (strLcpy strMd5.bytes 33) := by
    refine ⟨named, strMd5, ?_, rfl⟩
    rw [queried, query]
    exact found
  refine ⟨by_query, fun result => ?_⟩
  show Prog.Uses (S := Http) (Names req) (if result = 0 then _ else _)
  split_ifs <;> trivial

theorem multipartReply_idle (api : Api) (mpArg : MpArg) : (multipartReply api mpArg).Uses Idle := by
  cases api with
  | upload =>
      unfold multipartReply
      dsimp only
      split
      · exact ⟨trivial, fun _ => ⟨trivial, fun _ => addHeader_idle _ _⟩⟩
      · exact ⟨trivial, fun _ => addHeader_idle _ _⟩
  | up => exact addJson_idle _

end Replies

/-! ## Uploads -/

section Uploads
variable {alloc : Nat → Bool} {log : List (Event Http)} (inetAton : Bytes → Option UInt32)
  (settings : HttpSettings) (req : EvhtpRequest)

theorem report_saving (api : Api) (r : Report) (mpArg : MpArg) :
    (report settings api r mpArg).Uses Saving := by
  cases api with
  | upload => exact ⟨trivial, fun _ => trivial⟩
  | up => trivial

theorem headerValueCb_saving (api : Api) (mpArg : MpArg) (start length : Nat) :
    (headerValueCb settings api mpArg start length).Uses Saving := by
  have refuse (mpArg : MpArg) (filename : Bytes) : Prog.Uses (S := Http) Saving
      (if filename ≠ [] ∧ mpArg.checkName = -1 then do
        return ((0 : Int32), ← report settings api (.refused filename) mpArg)
      else return (0, mpArg)) := by
    split
    · exact (report_saving settings _ _ _).bind fun _ => trivial
    · trivial
  unfold headerValueCb
  split
  · trivial
  · exact refuse _ _

theorem chunkDataCb_saving (api : Api) (mpArg : MpArg) (start length : Nat) :
    (chunkDataCb settings api mpArg start length).Uses Saving := by
  have save (mpArg mpArg' : MpArg) (buff : Bytes) : Prog.Uses (S := Http) Saving
      (.call (.saveImg buff) fun r =>
        if r.1 = -1 then do return ((0 : Int32), ← report settings api .failed mpArg)
        else do return ((0 : Int32), ← report settings api (.saved r.2 length) mpArg')) := by
    refine ⟨trivial, fun r => ?_⟩
    dsimp only
    split
    · exact (report_saving settings _ _ _).bind fun _ => trivial
    · exact (report_saving settings _ _ _).bind fun _ => trivial
  unfold chunkDataCb
  dsimp only
  split
  · trivial
  split
  · trivial
  split
  · refine ⟨trivial, fun allocated => ?_⟩
    cases allocated with
    | false => trivial
    | true => exact save _ _ _
  · exact save _ _ _

theorem runMultipart_saving (api : Api) (P : Bytes) (postSize : Nat) (mpArg : MpArg) :
    (runMultipart settings api P postSize mpArg).Uses Saving := by
  refine Prog.Uses.interpret ?_ _ _
  intro op mpArg
  cases op with
  | emit cb first last =>
      cases cb with
      | headerField => trivial
      | headerValue => exact headerValueCb_saving settings _ _ _ _
      | chunkData => exact chunkDataCb_saving settings _ _ _ _
  | buf _ | boundary _ | notify _ => trivial

theorem runMultipart_unasked (api : Api) (P : Bytes) (postSize : Nat) (mpArg : MpArg) :
    (runMultipart settings api P postSize mpArg).Uses Unasked :=
  (runMultipart_saving settings api P postSize mpArg).mono fun _ => saving_unasked

def Sized (size : Nat) (more : List (Event Http)) : Prop :=
  consulted more = [] ∧ ∀ image ∈ savedImages more, 1 ≤ image.length ∧ image.length ≤ size

theorem Still.sized {more : List (Event Http)} (still : Still more) (size : Nat) :
    Sized size more := by
  refine ⟨still.2, ?_⟩
  intro image member
  rw [still.1] at member
  cases member

theorem Sized.append {size : Nat} {more more' : List (Event Http)} (sized : Sized size more)
    (sized' : Sized size more') : Sized size (more ++ more') := by
  constructor
  · rw [consulted, List.filterMap_append, ← consulted, ← consulted, sized.1, sized'.1]
    rfl
  · intro image member
    rw [savedImages, List.filterMap_append] at member
    rcases List.mem_append.mp member with member | member
    · exact sized.2 image member
    · exact sized'.2 image member

theorem chunk_small {P buf : Bytes} {content : Bytes}
    (member : .chunkData content ∈ items P buf) : content.length ≤ buf.length := by
  obtain ⟨⟨item, rest⟩, found, same⟩ := List.mem_map.mp member
  obtain ⟨⟨op, r⟩, -, handed⟩ := List.mem_filterMap.mp found
  cases op with
  | emit cb first last =>
      cases cb <;> cases handed
      · cases same
      · cases same
        simp only [slice, List.length_take, List.length_drop]
        omega
  | buf _ | boundary _ | notify _ => cases handed

theorem foundParts_chunk {values : List Bytes} {items : List Item} :
    ∀ part ∈ foundParts values items, .chunkData part.content ∈ items := by
  induction items generalizing values with
  | nil => simp [foundParts]
  | cons item items ih =>
      intro part member
      cases item with
      | headerValue value => exact List.mem_cons_of_mem _ (ih part member)
      | chunkData content =>
          rcases List.mem_cons.mp member with rfl | member
          · exact List.mem_cons_self
          · exact List.mem_cons_of_mem _ (ih part member)

theorem runMultipart_sized {api : Api} {P mem : Bytes} {postSize : Nat} (nonempty : P ≠ [])
    (small : postSize < 2 ^ 64) (room : postSize ≤ mem.length) :
    Adds alloc (runMultipart settings api P postSize ⟨mem, 0, 0, 0, []⟩)
      (fun _ more => Sized postSize more) log := by
  have length : (mem.take postSize).length = postSize := List.length_take_of_le room
  have saves : (serving alloc).wp (runMultipart settings api P (mem.take postSize).length _) _ log :=
    runMultipart_saves nonempty (by omega) (by rw [length])
  rw [length] at saves
  refine Machine.wp_mono (Machine.wp_and saves (adds_uses (runMultipart_unasked settings api P
    postSize ⟨mem, 0, 0, 0, []⟩))) ?_
  rintro r log' ⟨saved, more, rfl, within⟩
  refine ⟨more, rfl, consulted_unasked within, ?_⟩
  intro image member
  rw [savedImages, List.filterMap_append, ← savedImages, ← savedImages] at saved
  rw [List.append_cancel_left saved] at member
  obtain ⟨part, kept, rfl⟩ := List.mem_map.mp member
  obtain ⟨found, unskipped⟩ := savedParts_skipped part kept
  have bound := chunk_small (foundParts_chunk part found)
  rw [length] at bound
  refine ⟨List.length_pos_iff.mpr ?_, bound⟩
  exact fun empty => unskipped (.inl empty)

theorem adds_sized {α β : Type} {size : Nat} {p : Prog Http α} {f : α → Prog Http β}
    (first : ∀ log, Adds alloc p (fun _ more => Sized size more) log)
    (rest : ∀ a log, Adds alloc (f a) (fun _ more => Sized size more) log) :
    Adds alloc (p >>= f) (fun _ more => Sized size more) log :=
  (first log).bind fun a _ sized log => (rest a log).mono fun _ _ sized' => sized.append sized'

theorem idle_sized {α : Type} {p : Prog Http α} (uses : p.Uses Idle) (size : Nat)
    (log : List (Event Http)) : Adds alloc p (fun _ more => Sized size more) log :=
  (adds_idle uses).mono fun _ _ still => still.sized size

theorem return_sized {α : Type} (a : α) (size : Nat) (log : List (Event Http)) :
    Adds alloc (.ret a) (fun _ more => Sized size more) log :=
  Adds.ret ⟨rfl, by simp [savedImages]⟩

theorem malloc_idle : (http .malloc).Uses Idle := ⟨trivial, fun _ => trivial⟩

theorem multipartParserInit_sized (boundaryPattern : Bytes) (size : Nat)
    (log : List (Event Http)) : Adds alloc (http (.multipartParserInit boundaryPattern))
      (fun _ more => Sized size more) log := by
  refine Adds.call fun r _ => Adds.ret ⟨rfl, ?_⟩
  intro image member
  cases member

theorem saveImg_sized {image : Bytes} (nonempty : image ≠ []) (log : List (Event Http)) :
    Adds alloc (http (.saveImg image)) (fun _ more => Sized image.length more) log := by
  refine Adds.call fun r _ => Adds.ret ⟨rfl, ?_⟩
  intro image' member
  rw [List.mem_singleton.mp member]
  exact ⟨List.length_pos_iff.mpr nonempty, le_rfl⟩

theorem binaryParse_sized (api : Api) (contentType : Bytes) {buff : Bytes} {postSize : Nat}
    (pos : 0 < postSize) (room : postSize ≤ buff.length) (log : List (Event Http)) :
    Adds alloc (binaryParse api contentType buff postSize) (fun _ more => Sized postSize more)
      log := by
  have length : (buff.take postSize).length = postSize := List.length_take_of_le room
  unfold binaryParse
  split
  · exact return_sized _ _ _
  refine adds_sized (p := http (.saveImg (buff.take postSize))) ?_ ?_
  · intro log
    have nonempty : buff.take postSize ≠ [] := List.length_pos_iff.mp (by omega)
    have sized : Adds alloc _ _ log := saveImg_sized nonempty log
    rwa [length] at sized
  · intro r log
    dsimp only
    split
    · exact return_sized _ _ _
    · cases api <;> exact adds_sized (idle_sized (addJson_idle _) _) fun _ _ => return_sized _ _ _

def parseWith (api : Api) (buff : Bytes) (postSize : Nat) (boundary : Bytes) :
    Prog Http (Option Nat) := do
  let boundaryPattern := minus :: minus :: boundary
  if (← http .malloc) = false then return some 0
  if (← http (.multipartParserInit boundaryPattern)) = false then return some 0
  if (← http .malloc) = false then return some 0
  let (_, mpArg) ← runMultipart settings api boundaryPattern postSize ⟨buff, 0, 0, 0, []⟩
  multipartReply api mpArg
  return none

def parseFound (api : Api) (buff : Bytes) (postSize : Nat) : Extraction → Prog Http (Option Nat)
  | .missing => return some 6
  | .invalid => .call .fault Empty.elim
  | .found boundary => parseWith settings api buff postSize boundary

theorem multipartParse_eq (api : Api) (contentType buff : Bytes) (postSize : Nat) :
    multipartParse settings api contentType buff postSize =
      (if api = .upload then
        printf "<html>\n<head>\n<title>Upload Result</title>\n</head>\n<body>\n"
      else return ()) >>= fun _ =>
        parseFound settings api buff postSize (multipartBoundary contentType) := by
  unfold multipartParse
  cases multipartBoundary contentType <;> cases api <;> rfl

theorem opening_idle (api : Api) : Prog.Uses (S := Http) Idle (if api = .upload then
    printf "<html>\n<head>\n<title>Upload Result</title>\n</head>\n<body>\n"
    else return ()) := by
  split
  · exact printf_idle _
  · trivial

theorem parseWith_sized (api : Api) {buff : Bytes} {postSize : Nat} (small : postSize < 2 ^ 64)
    (room : postSize ≤ buff.length) (boundary : Bytes) (log : List (Event Http)) :
    Adds alloc (parseWith settings api buff postSize boundary)
      (fun _ more => Sized postSize more) log := by
  unfold parseWith
  refine adds_sized (idle_sized malloc_idle _) fun allocated log => ?_
  split
  · exact return_sized _ _ _
  refine adds_sized (multipartParserInit_sized _ _) fun allocated log => ?_
  split
  · exact return_sized _ _ _
  refine adds_sized (idle_sized malloc_idle _) fun allocated log => ?_
  split
  · exact return_sized _ _ _
  refine adds_sized (fun log => runMultipart_sized settings (List.cons_ne_nil _ _) small room)
    fun r log => ?_
  exact adds_sized (idle_sized (multipartReply_idle _ _) _) fun _ _ => return_sized _ _ _

theorem multipartParse_sized (api : Api) (contentType : Bytes) {buff : Bytes} {postSize : Nat}
    (small : postSize < 2 ^ 64) (room : postSize ≤ buff.length) (log : List (Event Http)) :
    Adds alloc (multipartParse settings api contentType buff postSize)
      (fun _ more => Sized postSize more) log := by
  rw [multipartParse_eq]
  refine adds_sized (idle_sized (opening_idle api) _) fun _ log => ?_
  cases multipartBoundary contentType with
  | missing => exact return_sized _ _ _
  | invalid => exact Adds.call fun r _ => r.elim
  | found boundary => exact parseWith_sized settings api small room boundary log

theorem uploadParse_sized (api : Api) (contentType : Bytes) {buff : Bytes} {postSize : Nat}
    (pos : 0 < postSize) (small : postSize < 2 ^ 64) (room : postSize ≤ buff.length)
    (log : List (Event Http)) :
    Adds alloc (uploadParse settings api contentType buff postSize)
      (fun _ more => Sized postSize more) log := by
  unfold uploadParse
  split
  · refine adds_sized (binaryParse_sized api contentType pos room) fun r log => ?_
    cases r <;> exact return_sized _ _ _
  · refine adds_sized (multipartParse_sized settings api contentType small room) fun r log => ?_
    cases r <;> exact return_sized _ _ _

/-! ### The gate -/

theorem intLength_le (length : Nat) : intLength length ≤ length := by
  have bound : (Int32.ofNat length).toInt ≤ length := by
    have size : Int32.size = 4294967296 := rfl
    rw [Int32.toInt_ofNat', Int.bmod_def, size]
    split <;> omega
  unfold intLength
  omega

theorem removeLoop_length (body : Bytes) (buff : HeapBuffer) :
    buff.mem.length ≤ (removeLoop body buff).mem.length := by
  induction body, buff using removeLoop.induct with
  | case1 body buff more ih =>
      rw [removeLoop, dif_pos more]
      refine le_trans ?_ ih
      have le := intLength_le body.length
      simp only [evbufferRemove, List.length_append, List.length_take, List.length_drop]
      omega
  | case2 body buff done =>
      rw [removeLoop, dif_neg done]

theorem contentLength_bounds {postSize : Nat} (accepted : contentLength settings req = .ok postSize) :
    0 < postSize ∧ (postSize : Int) ≤ settings.maxSize.toInt := by
  unfold contentLength at accepted
  split at accepted
  · cases accepted
  · dsimp only at accepted
    split at accepted
    · cases accepted
    rename_i positive
    split at accepted
    · cases accepted
    rename_i sized
    cases accepted
    rw [Int32.le_iff_toInt_le, Int32.toInt_zero, not_le] at positive
    rw [gt_iff_lt, Int32.lt_iff_toInt_lt, not_lt] at sized
    omega

structure Passes (saddr : UInt32) (before : List (Event Http)) (image : Bytes) : Prop where
  post : req.methodName = "POST"
  access : settings.upAccess = none ∨ ∃ conf, settings.upAccess = some conf ∧
    (⟨.zimgAccessInet conf saddr, ZIMG_OK⟩ : Event Http) ∈ before
  nonempty : 1 ≤ image.length
  small : (image.length : Int) ≤ settings.maxSize.toInt

def Gated (saddr : UInt32) (log : List (Event Http)) : Prop :=
  ∀ before image r after, log = before ++ ⟨.saveImg image, r⟩ :: after →
    Passes settings req saddr before image

variable {settings req} {saddr : UInt32}

theorem Passes.mono {before before' : List (Event Http)} {image : Bytes}
    (passes : Passes settings req saddr before image) (sub : before ⊆ before') :
    Passes settings req saddr before' image := by
  refine ⟨passes.post, passes.access.imp_right ?_, passes.nonempty, passes.small⟩
  rintro ⟨conf, some_, asked⟩
  exact ⟨conf, some_, sub asked⟩

theorem gated_unsaved {log : List (Event Http)} (unsaved : savedImages log = []) :
    Gated settings req saddr log := by
  rintro before image r after rfl
  have member : image ∈ savedImages (before ++ ⟨.saveImg image, r⟩ :: after) :=
    mem_savedImages (List.mem_append_right _ List.mem_cons_self)
  rw [unsaved] at member
  cases member

theorem gated_append {front more : List (Event Http)} (gated : Gated settings req saddr front)
    (passes : ∀ image ∈ savedImages more, Passes settings req saddr front image) :
    Gated settings req saddr (front ++ more) := by
  intro before image r after split_
  have behind (middle : List (Event Http)) (rest : more = middle ++ ⟨.saveImg image, r⟩ :: after) :
      Passes settings req saddr (front ++ middle) image := by
    have member : image ∈ savedImages more := by
      rw [rest]
      exact mem_savedImages (List.mem_append_right _ List.mem_cons_self)
    exact (passes image member).mono (List.subset_append_left _ _)
  rcases List.append_eq_append_iff.mp split_ with ⟨middle, rfl, rest⟩ | ⟨middle, rfl, rest⟩
  · exact behind middle rest
  · cases middle with
    | nil => simpa using behind [] rest.symm
    | cons e middle =>
        cases rest
        exact gated before image r middle rfl

theorem gated_still {front more : List (Event Http)} (gated : Gated settings req saddr front)
    (still : Still more) : Gated settings req saddr (front ++ more) :=
  gated_append gated (by simp [still.1])

theorem zimgAccessInet_cases (conf : ZimgAccessConf) (addr : UInt32) :
    zimgAccessInet conf addr = ZIMG_FORBIDDEN ∨ zimgAccessInet conf addr = ZIMG_OK := by
  unfold zimgAccessInet
  split
  · exact .inr rfl
  generalize conf.rules = rules
  induction rules with
  | nil => exact .inl rfl
  | cons rule rules ih =>
      unfold accessWalk
      split
      · split
        · exact .inl rfl
        · exact .inr rfl
      · exact ih

theorem checkAccess_adds (conf : Option ZimgAccessConf) (log : List (Event Http)) :
    Adds alloc (checkAccess conf saddr)
      (fun r more => savedImages more = [] ∧ consulted more = (conf.map (·, saddr)).toList ∧
        (r = .ok → conf = none ∨ ∃ c, conf = some c ∧
          (⟨.zimgAccessInet c saddr, ZIMG_OK⟩ : Event Http) ∈ more)) log := by
  cases conf with
  | none => exact Adds.ret ⟨rfl, rfl, fun _ => .inl rfl⟩
  | some conf =>
      refine Adds.call fun acs legal => ?_
      obtain rfl : acs = zimgAccessInet conf saddr := legal
      rcases zimgAccessInet_cases conf saddr with forbidden | ok
      · rw [forbidden]
        exact Adds.ret ⟨rfl, rfl, fun ok => by cases ok⟩
      · rw [ok]
        exact Adds.ret ⟨rfl, rfl, fun _ => .inr ⟨conf, rfl, List.mem_singleton_self _⟩⟩

theorem consulted_append (log log' : List (Event Http)) :
    consulted (log ++ log') = consulted log ++ consulted log' := List.filterMap_append ..

def UploadAdds (settings : HttpSettings) (req : EvhtpRequest) (saddr : UInt32)
    (more : List (Event Http)) : Prop :=
  consulted more =
      ((if req.methodName = "POST" then settings.upAccess else none).map (·, saddr)).toList ∧
    Gated settings req saddr more

theorem UploadAdds.still {more more' : List (Event Http)}
    (upload : UploadAdds settings req saddr more) (still : Still more') :
    UploadAdds settings req saddr (more ++ more') := by
  refine ⟨?_, gated_still upload.2 still⟩
  rw [consulted_append, upload.1, still.2, List.append_nil]

theorem uploadBody_adds (api : Api) (log : List (Event Http)) :
    Adds alloc (uploadBody settings req api saddr)
      (fun _ more => UploadAdds settings req saddr more) log := by
  unfold uploadBody
  split
  · rename_i other
    refine Adds.ret ⟨?_, gated_unsaved rfl⟩
    rw [if_neg other]
    rfl
  rename_i post
  rw [not_not] at post
  refine (checkAccess_adds settings.upAccess log).bind ?_
  rintro access front ⟨unsaved, asked, opens⟩ log
  -- What happens behind the check saves nothing, or images that fit.
  have done {a : UploadEnd} {log : List (Event Http)} : Adds alloc (.ret a)
      (fun _ more => UploadAdds settings req saddr (front ++ more)) log := by
    refine Adds.ret ⟨?_, ?_⟩
    · rw [List.append_nil, if_pos post]
      exact asked
    · rw [List.append_nil]
      exact gated_unsaved unsaved
  cases access with
  | forbidden => exact done
  | error => exact done
  | ok =>
      dsimp only
      cases accepted : contentLength settings req with
      | error errNo => exact done
      | ok postSize =>
          dsimp only
          cases req.headerFind "Content-Type" with
          | none => exact done
          | some contentType =>
              refine Adds.call fun block legal => ?_
              cases block with
              | none =>
                  refine Adds.ret ⟨?_, ?_⟩
                  · rw [consulted_append, if_pos post, asked]
                    exact List.append_nil _
                  · exact gated_append (gated_unsaved unsaved) (by simp [savedImages, savedImage])
              | some block =>
                  obtain ⟨pos, small⟩ := contentLength_bounds settings req accepted
                  have bound := contentLength_lt accepted
                  have room : postSize ≤ (removeLoop req.bufferIn ⟨block, 0⟩).mem.length :=
                    le_trans (legal block rfl) (removeLoop_length req.bufferIn ⟨block, 0⟩)
                  have sized (log : List (Event Http)) : Adds alloc
                      (if req.bufferIn.length = 0 then return .err 4 true else
                        uploadParse settings api contentType (removeLoop req.bufferIn ⟨block, 0⟩).mem
                          postSize) (fun _ more => Sized postSize more) log := by
                    split
                    · exact return_sized _ _ _
                    · exact uploadParse_sized settings api contentType pos (by omega) room log
                  refine (sized _).mono ?_
                  intro _ more sized
                  constructor
                  · rw [consulted_append, if_pos post, asked]
                    show _ ++ consulted more = _
                    rw [sized.1, List.append_nil]
                  · refine gated_append (gated_unsaved unsaved) ?_
                    intro image member
                    obtain ⟨nonempty, size⟩ := sized.2 image member
                    refine ⟨post, opens rfl, nonempty, ?_⟩
                    omega

end Uploads

/-! ## The handlers -/

def Route.access (settings : HttpSettings) (req : EvhtpRequest) : Route → Option ZimgAccessConf
  | upload | up => if req.methodName = "POST" then settings.upAccess else none
  | admin =>
      if req.methodName = "POST" then settings.upAccess
      else if req.methodName = "GET" then settings.adminAccess else none
  | generic =>
      if req.methodName = "POST" then settings.upAccess
      else if req.methodName = "GET" then settings.downAccess else none
  | info | base64 => none

section Handlers
variable {alloc : Nat → Bool} {log : List (Event Http)} (inetAton : Bytes → Option UInt32)
  (settings : HttpSettings) (thrArg : ThrArg) (req : EvhtpRequest) (saddr : UInt32)

theorem forwarded_forwarded :
    forwarded inetAton req (forwarded inetAton req saddr) = forwarded inetAton req saddr := by
  unfold forwarded
  cases req.headerFind "X-Forwarded-For" with
  | none => rfl
  | some xffAddress => cases value : inetAton xffAddress <;> simp [value]

/-- What a handler may do: it leaves an address behind, consults rules about it, and lets images
pass the gate. -/
structure Handles (access : Option ZimgAccessConf) (addr saddr' : UInt32)
    (more : List (Event Http)) : Prop where
  leaves : saddr' = addr
  asks : consulted more = (access.map (·, addr)).toList
  gated : Gated settings req addr more

variable {settings req}

theorem unsaving_adds {access : Option ZimgAccessConf} {addr : UInt32} {front : List (Event Http)}
    {reply : Prog Http Unit} (asks : consulted front = (access.map (·, addr)).toList)
    (gated : Gated settings req addr front) (uses : reply.Uses Unsaving) :
    Adds alloc (do reply; return addr)
      (fun saddr' more => Handles settings req access addr saddr' (front ++ more)) log := by
  refine (adds_unsaving uses).bind fun _ more still log => Adds.ret ⟨rfl, ?_, ?_⟩
  · rw [List.append_nil, consulted_append, asks, still.2, List.append_nil]
  · rw [List.append_nil]
    exact gated_still gated still

theorem reply_adds {access : Option ZimgAccessConf} {addr : UInt32} {front : List (Event Http)}
    {reply : Prog Http Unit} (asks : consulted front = (access.map (·, addr)).toList)
    (gated : Gated settings req addr front) (uses : reply.Uses Idle) :
    Adds alloc (do reply; return addr)
      (fun saddr' more => Handles settings req access addr saddr' (front ++ more)) log :=
  unsaving_adds asks gated (uses.mono fun _ => idle_unsaving)

theorem postRequestCb_adds : Adds alloc (postRequestCb inetAton settings req saddr)
    (fun saddr' more => Handles settings req
      (if req.methodName = "POST" then settings.upAccess else none) (forwarded inetAton req saddr)
      saddr' more) log := by
  unfold postRequestCb
  refine (uploadBody_adds .upload log).bind ?_
  rintro r more ⟨asks, gated⟩ log
  cases r with
  | done => exact reply_adds asks gated (sendUpload_idle settings)
  | forbidden =>
      exact reply_adds asks gated ((addJson_idle _).bind fun _ => sendUpload_idle settings)
  | err errNo retJson =>
      cases retJson with
      | true =>
          exact reply_adds asks gated ((addJson_idle _).bind fun _ => sendUpload_idle settings)
      | false =>
          exact reply_adds asks gated ((printf_idle _).bind fun _ =>
            (addHeader_idle _ _).bind fun _ => sendUpload_idle settings)

theorem postUploadRequestCb_adds : Adds alloc (postUploadRequestCb inetAton settings req saddr)
    (fun saddr' more => Handles settings req
      (if req.methodName = "POST" then settings.upAccess else none) (forwarded inetAton req saddr)
      saddr' more) log := by
  unfold postUploadRequestCb
  refine (uploadBody_adds .up log).bind ?_
  rintro r more ⟨asks, gated⟩ log
  have json := (addJson_idle (result2json [])).bind fun _ => sendUpload_idle settings
  cases r with
  | done => exact reply_adds asks gated (sendUpload_idle settings)
  | forbidden => exact reply_adds asks gated json
  | err errNo retJson => exact reply_adds asks gated json

theorem gate_adds {conf : Option ZimgAccessConf} {allowed : Prog Http Unit}
    (unsaving : allowed.Uses Unsaving) :
    Adds alloc (do
      let saddr := forwarded inetAton req saddr
      if req.methodName = "POST" then postRequestCb inetAton settings req saddr
      else
        if req.methodName ≠ "GET" then replyNotFound settings
        else
          match ← checkAccess conf saddr with
          | .forbidden => replyForbidden settings
          | .error => replyNotFound settings
          | .ok => allowed
        return saddr)
      (fun saddr' more => Handles settings req
        (if req.methodName = "POST" then settings.upAccess
          else if req.methodName = "GET" then conf else none) (forwarded inetAton req saddr)
        saddr' more) log := by
  dsimp only
  split
  · rename_i isPost
    have made : Adds alloc
        (postRequestCb inetAton settings req (forwarded inetAton req saddr)) _ log :=
      postRequestCb_adds inetAton _
    rw [forwarded_forwarded, if_pos isPost] at made
    exact made
  split
  · have none : consulted [] = ((none : Option ZimgAccessConf).map
        (·, forwarded inetAton req saddr)).toList := rfl
    exact reply_adds none (gated_unsaved rfl) (replyNotFound_idle settings)
  · rename_i isGet
    rw [not_not] at isGet
    rw [if_pos isGet]
    refine (checkAccess_adds conf log).bind ?_
    rintro access front ⟨unsaved, asks, -⟩ log
    cases access with
    | ok => exact unsaving_adds asks (gated_unsaved unsaved) unsaving
    | forbidden => exact reply_adds asks (gated_unsaved unsaved) (replyForbidden_idle settings)
    | error => exact reply_adds asks (gated_unsaved unsaved) (replyNotFound_idle settings)

theorem infoRequestCb_adds : Adds alloc (infoRequestCb inetAton settings req saddr)
    (fun saddr' more => Handles settings req none (forwarded inetAton req saddr) saddr' more)
    log := by
  unfold infoRequestCb
  have unsaving := (infoImage_names req).mono fun _ => names_unsaving
  refine (adds_unsaving unsaving).bind fun r front still log => ?_
  have asks : consulted front = ((none : Option ZimgAccessConf).map
      (·, forwarded inetAton req saddr)).toList := still.2
  have gated : Gated settings req (forwarded inetAton req saddr) front := gated_unsaved still.1
  cases r with
  | none =>
      exact reply_adds asks gated ((addHeader_idle _ _).bind fun _ =>
        (addHeader_idle _ _).bind fun _ => sendReply_idle _)
  | some errNo =>
      exact reply_adds asks gated ((addJson_idle _).bind fun _ => sendUpload_idle settings)

theorem base64Save_unasked : (base64Save req).Uses Unasked := by
  unfold base64Save
  split
  · trivial
  split
  · trivial
  split
  · trivial
  refine ⟨trivial, fun block => ?_⟩
  cases block with
  | none => trivial
  | some block =>
      refine ⟨trivial, fun r => ?_⟩
      show Prog.Uses (S := Http) Unasked (if r.1 = -1 then _ else _)
      split <;> trivial

theorem base64RequestCb_adds : Adds alloc (base64RequestCb inetAton settings req saddr)
    (fun saddr' more => saddr' = forwarded inetAton req saddr ∧ consulted more = []) log := by
  unfold base64RequestCb
  refine (adds_uses base64Save_unasked).bind fun r front within log => ?_
  have reply (text : Bytes) (log : List (Event Http)) : Adds alloc
      (do addJson text; sendUpload settings; return forwarded inetAton req saddr)
      (fun saddr' more => saddr' = forwarded inetAton req saddr ∧ consulted (front ++ more) = [])
      log := by
    refine (adds_idle (addJson_idle text)).bind fun _ more still log => ?_
    refine (adds_idle (sendUpload_idle settings)).bind fun _ more' still' log => Adds.ret ⟨rfl, ?_⟩
    rw [List.append_nil, consulted_append, consulted_append, consulted_unasked within, still.2,
      still'.2]
    rfl
  cases r with
  | none => exact reply _ log
  | some saved => exact reply _ log

variable (settings req)

theorem handler_asks (route : Route) :
    Adds alloc (route.handler inetAton settings thrArg req saddr)
      (fun saddr' more => saddr' = forwarded inetAton req saddr ∧ consulted more =
        ((route.access settings req).map (·, forwarded inetAton req saddr)).toList) log := by
  cases route with
  | upload => exact (postRequestCb_adds inetAton saddr).mono fun _ _ h => ⟨h.leaves, h.asks⟩
  | admin =>
      exact (gate_adds inetAton saddr ((adminAllowed_names settings req).mono
        fun _ => names_unsaving)).mono
        fun _ _ h => ⟨h.leaves, h.asks⟩
  | info => exact (infoRequestCb_adds inetAton saddr).mono fun _ _ h => ⟨h.leaves, h.asks⟩
  | base64 => exact base64RequestCb_adds inetAton saddr
  | up => exact (postUploadRequestCb_adds inetAton saddr).mono fun _ _ h => ⟨h.leaves, h.asks⟩
  | generic =>
      exact (gate_adds inetAton saddr ((getAllowed_fetches settings thrArg req).mono
        fun _ => fetches_unsaving)).mono
        fun _ _ h => ⟨h.leaves, h.asks⟩

theorem handler_gated {route : Route} (other : route ≠ .base64) :
    Adds alloc (route.handler inetAton settings thrArg req saddr)
      (fun _ more => Gated settings req (forwarded inetAton req saddr) more) log := by
  cases route with
  | upload => exact (postRequestCb_adds inetAton saddr).mono fun _ _ h => h.gated
  | admin =>
      exact (gate_adds inetAton saddr ((adminAllowed_names settings req).mono
        fun _ => names_unsaving)).mono fun _ _ h => h.gated
  | info => exact (infoRequestCb_adds inetAton saddr).mono fun _ _ h => h.gated
  | base64 => exact absurd rfl other
  | up => exact (postUploadRequestCb_adds inetAton saddr).mono fun _ _ h => h.gated
  | generic =>
      exact (gate_adds inetAton saddr ((getAllowed_fetches settings thrArg req).mono
        fun _ => fetches_unsaving)).mono
        fun _ _ h => h.gated

end Handlers
end Ximg
