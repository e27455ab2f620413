import Ximg.BodyHandover
import Ximg.HandlerSpecs

/-!
# Identifiers of images

Which parameters and paths make the handlers act on an image of the store.
-/

namespace Ximg
open Text Calls

def ActsOn : HttpOp → Prop
  | .getImg _ | .adminImg _ _ | .infoImg _ => True
  | _ => False

/-! ## Uploads and replies -/

theorem saving_not_acts {op : HttpOp} (h : Saving op) : ¬ActsOn op := by
  cases op with
  | getImg _ | adminImg _ _ | infoImg _ => exact h.elim
  | _ => exact id

theorem idle_not_acts {op : HttpOp} (h : Idle op) : ¬ActsOn op := by
  cases op with
  | getImg _ | adminImg _ _ | infoImg _ => exact h.elim
  | _ => exact id

section Passive
variable (inetAton : Bytes → Option UInt32) (settings : HttpSettings) (thrArg : ThrArg)
  (req : EvhtpRequest) (saddr : UInt32)

def Passive {α : Type} (p : Prog Http α) : Prop := p.Uses fun op => ¬ActsOn op

theorem passive_idle {α : Type} {p : Prog Http α} (uses : p.Uses Idle) : Passive p :=
  uses.mono fun _ => idle_not_acts

theorem checkAccess_passive (conf : Option ZimgAccessConf) : Passive (checkAccess conf saddr) := by
  cases conf with
  | none => trivial
  | some conf =>
      refine ⟨id, fun acs => ?_⟩
      show Prog.Uses (S := Http) (fun op => ¬ActsOn op) (if acs = ZIMG_FORBIDDEN then _ else _)
      split_ifs <;> trivial

theorem parseWith_passive (api : Api) (buff : Bytes) (postSize : Nat) (boundary : Bytes) :
    Passive (parseWith settings api buff postSize boundary) := by
  unfold parseWith
  refine ⟨id, fun allocated => ?_⟩
  cases allocated with
  | false => trivial
  | true =>
  refine ⟨id, fun allocated => ?_⟩
  cases allocated with
  | false => trivial
  | true =>
  refine ⟨id, fun allocated => ?_⟩
  cases allocated with
  | false => trivial
  | true =>
      have run := (runMultipart_saving settings api (minus :: minus :: boundary) postSize
        ⟨buff, 0, 0, 0, []⟩).mono fun _ => saving_not_acts
      exact run.bind fun r => (passive_idle (multipartReply_idle api r.2)).bind fun _ => trivial

theorem multipartParse_passive (api : Api) (contentType buff : Bytes) (postSize : Nat) :
    Passive (multipartParse settings api contentType buff postSize) := by
  rw [multipartParse_eq]
  refine (passive_idle (opening_idle api)).bind fun _ => ?_
  cases multipartBoundary contentType with
  | missing => trivial
  | invalid => exact ⟨id, fun r => r.elim⟩
  | found boundary => exact parseWith_passive settings api buff postSize boundary

theorem binaryParse_passive (api : Api) (contentType buff : Bytes) (postSize : Nat) :
    Passive (binaryParse api contentType buff postSize) := by
  unfold binaryParse
  split
  · trivial
  refine ⟨id, fun r => ?_⟩
  show Passive (if r.1 = -1 then _ else _)
  split
  · trivial
  · cases api
    · exact (passive_idle (addJson_idle _)).bind fun _ => trivial
    · exact (passive_idle (addJson_idle _)).bind fun _ => trivial

theorem uploadParse_passive (api : Api) (contentType buff : Bytes) (postSize : Nat) :
    Passive (uploadParse settings api contentType buff postSize) := by
  unfold uploadParse
  split
  · refine (binaryParse_passive api contentType buff postSize).bind fun r => ?_
    cases r <;> trivial
  · refine (multipartParse_passive settings api contentType buff postSize).bind fun r => ?_
    cases r <;> trivial

theorem uploadBody_passive (api : Api) : Passive (uploadBody settings req api saddr) := by
  unfold uploadBody
  split
  · trivial
  refine (checkAccess_passive saddr settings.upAccess).bind fun access => ?_
  cases access with
  | forbidden => trivial
  | error => trivial
  | ok =>
      dsimp only
      cases contentLength settings req with
      | error errNo => trivial
      | ok postSize =>
          dsimp only
          cases req.headerFind "Content-Type" with
          | none => trivial
          | some contentType =>
              refine ⟨id, fun block => ?_⟩
              cases block with
              | none => trivial
              | some block =>
                  show Passive (if req.bufferIn.length = 0 then _ else _)
                  split
                  · trivial
                  · exact uploadParse_passive settings api contentType _ postSize

theorem postRequestCb_passive : Passive (postRequestCb inetAton settings req saddr) := by
  unfold postRequestCb
  refine (uploadBody_passive settings req _ .upload).bind fun r => ?_
  have send := sendUpload_idle settings
  cases r with
  | done => exact (passive_idle send).bind fun _ => trivial
  | forbidden =>
      exact (passive_idle ((addJson_idle _).bind fun _ => send)).bind fun _ => trivial
  | err errNo retJson =>
      cases retJson with
      | true => exact (passive_idle ((addJson_idle _).bind fun _ => send)).bind fun _ => trivial
      | false =>
          exact (passive_idle ((printf_idle _).bind fun _ =>
            (addHeader_idle _ _).bind fun _ => send)).bind fun _ => trivial

/-! ## Handlers with a gate -/

variable {settings req}

theorem gate_uses {ok : HttpOp → Prop} (passive : ∀ op, ¬ActsOn op → ok op)
    {conf : Option ZimgAccessConf} {allowed : Prog Http Unit} (uses : allowed.Uses ok) :
    Prog.Uses (S := Http) ok (do
      let saddr := forwarded inetAton req saddr
      if req.methodName = "POST" then postRequestCb inetAton settings req saddr
      else
        if req.methodName ≠ "GET" then replyNotFound settings
        else
          match ← checkAccess conf saddr with
          | .forbidden => replyForbidden settings
          | .error => replyNotFound settings
          | .ok => allowed
        return saddr) := by
  have reply {p : Prog Http Unit} (idle : p.Uses Idle) (addr : UInt32) :
      Prog.Uses (S := Http) ok (do p; return addr) :=
    ((passive_idle idle).mono passive).bind fun _ => trivial
  dsimp only
  split
  · exact (postRequestCb_passive inetAton settings req _).mono passive
  split
  · exact reply (replyNotFound_idle settings) _
  · refine ((checkAccess_passive _ conf).mono passive).bind fun access => ?_
    cases access with
    | ok => exact uses.bind fun _ => trivial
    | forbidden => exact reply (replyForbidden_idle settings) _
    | error => exact reply (replyNotFound_idle settings) _

theorem gate_mayCall {kind : HttpOp → Prop} (isGet : req.methodName = "GET")
    {allowed : Prog Http Unit} (reached : allowed.MayCall kind) :
    Prog.MayCall (S := Http) kind (do
      let saddr := forwarded inetAton req saddr
      if req.methodName = "POST" then postRequestCb inetAton settings req saddr
      else
        if req.methodName ≠ "GET" then replyNotFound settings
        else
          match ← checkAccess none saddr with
          | .forbidden => replyForbidden settings
          | .error => replyNotFound settings
          | .ok => allowed
        return saddr) := by
  have notPost : req.methodName ≠ "POST" := by
    rw [isGet]
    decide
  dsimp only
  rw [if_neg notPost, if_neg (not_not.mpr isGet)]
  exact reached.bind

end Passive

/-! ## What is accepted -/

def AdminAccepts (v : CString) : Prop :=
  ∃ inetAton settings req saddr, queried req "md5" = some v ∧
    (adminRequestCb inetAton settings req saddr).MayCall ActsOn

def InfoAccepts (v : CString) : Prop :=
  ∃ inetAton req settings saddr, queried req "md5" = some v ∧
    (infoRequestCb inetAton settings req saddr).MayCall ActsOn

def GetAccepts (v : CString) : Prop :=
  ∃ inetAton settings thrArg req saddr, req.uriPathFull.bytes = slash :: v.bytes ∧
    (getRequestCb inetAton settings thrArg req saddr).MayCall ActsOn

theorem isMd5_iff (s : Bytes) : isMd5 s ≠ -1 ↔ IsMd5 s := by
  unfold isMd5
  split <;> simp_all

theorem named_cut {req : EvhtpRequest} {v : CString} (asked : queried req "md5" = some v)
    {op : HttpOp} (names : Names req op) (acts : ActsOn op) : IsMd5 (v.bytes.take 32) := by
  have cut {md5 : Bytes} (named : NamedByQuery req md5) : IsMd5 (v.bytes.take 32) := by
    obtain ⟨valid, str, member, rfl⟩ := named
    rw [asked] at member
    cases member
    exact (isMd5_iff _).mp valid
  cases op with
  | adminImg md5 t => exact cut names
  | infoImg md5 => exact cut names
  | getImg zreq => exact names.elim
  | _ => exact acts.elim

def md5Request (v : CString) : EvhtpRequest where
  method := 0
  uriPathFull := ⟨ascii "/image", by decide⟩
  uriQuery := some [⟨⟨ascii "md5", by decide⟩, v⟩]
  headersIn := []
  bufferIn := []

theorem queried_md5Request (v : CString) : queried (md5Request v) "md5" = some v := rfl

theorem adminAccepts_iff (v : CString) : AdminAccepts v ↔ IsMd5 (v.bytes.take 32) := by
  constructor
  · rintro ⟨inetAton, settings, req, saddr, asked, reached⟩
    have uses : (adminRequestCb inetAton settings req saddr).Uses fun op =>
        ActsOn op → Names req op :=
      gate_uses inetAton saddr (fun op passive acts => absurd acts passive)
        ((adminAllowed_names settings req).mono fun _ names _ => names)
    obtain ⟨op, names, acts⟩ := uses.mayCall reached
    exact named_cut asked (names acts) acts
  · intro valid
    refine ⟨fun _ => none, uploadSettings, md5Request v, 0, queried_md5Request v, ?_⟩
    have isGet : (md5Request v).methodName = "GET" := rfl
    refine gate_mayCall _ _ isGet ?_
    have plain : ¬strstr (ascii "/image") "favicon.ico" = true := by decide +kernel
    have named : ¬isMd5 (strLcpy v.bytes 33) = -1 := (isMd5_iff _).mpr valid
    have path : (md5Request v).uriPathFull.bytes = ascii "/image" := rfl
    rw [adminAllowed, path, if_neg plain]
    show Prog.MayCall (S := Http) ActsOn (if isMd5 (strLcpy v.bytes 33) = -1 then _ else _)
    rw [if_neg named]
    exact .inl trivial

theorem infoAccepts_iff (v : CString) : InfoAccepts v ↔ IsMd5 (v.bytes.take 32) := by
  constructor
  · rintro ⟨inetAton, req, settings, saddr, asked, reached⟩
    have uses : (infoRequestCb inetAton settings req saddr).Uses (Names req) := by
      unfold infoRequestCb
      refine (infoImage_names req).bind fun r => ?_
      cases r with
      | none =>
          exact (((addHeader_idle _ _).bind fun _ => (addHeader_idle _ _).bind fun _ =>
            sendReply_idle _).mono fun _ => idle_names).bind fun _ => trivial
      | some errNo =>
          exact (((addJson_idle _).bind fun _ => sendUpload_idle settings).mono
            fun _ => idle_names).bind fun _ => trivial
    obtain ⟨op, names, acts⟩ := uses.mayCall reached
    exact named_cut asked names acts
  · intro valid
    refine ⟨fun _ => none, md5Request v, uploadSettings, 0, queried_md5Request v, ?_⟩
    have named : ¬isMd5 (strLcpy v.bytes 33) = -1 := (isMd5_iff _).mpr valid
    have isGet : (md5Request v).methodName = "GET" := rfl
    refine Prog.MayCall.bind ?_
    rw [infoImage, if_neg (not_not.mpr isGet)]
    show Prog.MayCall (S := Http) ActsOn (if isMd5 (strLcpy v.bytes 33) = -1 then _ else _)
    rw [if_neg named]
    exact .inl trivial

/-! ### Paths -/

theorem noNul_path (v : CString) : 0 ∉ slash :: v.bytes := by
  intro zero
  cases List.mem_cons.mp zero with
  | inl same => cases same
  | inr inside => exact v.noNul inside

def pathRequest (v : CString) : EvhtpRequest where
  method := 0
  uriPathFull := ⟨slash :: v.bytes, noNul_path v⟩
  uriQuery := none
  headersIn := []
  bufferIn := []

theorem uriMd5_path {req : EvhtpRequest} {v : Bytes} (path : req.uriPathFull.bytes = slash :: v) :
    uriMd5 req = v := by
  rw [uriMd5]
  simp [path, strLcpy]

theorem strstr_md5 {v : Bytes} (valid : IsMd5 v) {text : String} {c : UInt8}
    (member : c ∈ ascii text)
    (other : c ≠ slash ∧ ¬((48 ≤ c ∧ c ≤ 57) ∨ (97 ≤ c ∧ c ≤ 102) ∨ (65 ≤ c ∧ c ≤ 70))) :
    ¬strstr (slash :: v) text = true := by
  intro found
  have inside := (of_decide_eq_true found).subset member
  cases List.mem_cons.mp inside with
  | inl same => exact other.1 same
  | inr digit => exact other.2 (valid.2 c digit)

theorem getAccepts_iff (v : CString) : GetAccepts v ↔ IsMd5 v.bytes := by
  constructor
  · rintro ⟨inetAton, settings, thrArg, req, saddr, path, reached⟩
    have uses : (getRequestCb inetAton settings thrArg req saddr).Uses fun op =>
        ActsOn op → Fetches settings thrArg req op :=
      gate_uses inetAton saddr (fun op passive acts => absurd acts passive)
        ((getAllowed_fetches settings thrArg req).mono fun _ fetches _ => fetches)
    obtain ⟨op, fetches, acts⟩ := uses.mayCall reached
    have fetches := fetches acts
    cases op with
    | getImg zreq =>
        obtain ⟨named, -⟩ := fetches
        rw [uriMd5_path path] at named
        exact named
    | adminImg _ _ | infoImg _ => exact fetches.elim
    | _ => exact acts.elim
  · intro valid
    refine ⟨fun _ => none, uploadSettings, ⟨false, false, false, false⟩, pathRequest v, 0, rfl, ?_⟩
    have isGet : (pathRequest v).methodName = "GET" := rfl
    refine gate_mayCall _ _ isGet ?_
    have path : (pathRequest v).uriPathFull.bytes = slash :: v.bytes := rfl
    have name : slash :: v.bytes ≠ [slash] := by
      intro same
      have length := congrArg List.length same
      simp [valid.1] at length
    have named : IsMd5 (uriMd5 (pathRequest v)) := by
      rw [uriMd5_path path]
      exact valid
    rw [getAllowed, path, if_neg name, if_neg (strstr_md5 valid (c := 118) (by decide) (by decide)),
      if_neg (strstr_md5 valid (c := 46) (by decide) (by decide))]
    refine .inr ⟨true, ?_⟩
    show Prog.MayCall (S := Http) ActsOn (if named : IsMd5 (uriMd5 (pathRequest v)) then _ else _)
    rw [dif_pos named]
    exact .inr ⟨true, .inl trivial⟩

/-! ## The three handlers -/

/-- Administration and description act only for full identifiers, the ones a path can name. -/
def ValidatedInFull (v : CString) : Prop :=
  (AdminAccepts v → IsMd5 v.bytes) ∧ (InfoAccepts v → IsMd5 v.bytes) ∧
    (AdminAccepts v ↔ GetAccepts v) ∧ (InfoAccepts v ↔ GetAccepts v)

/-- What goes wrong is a value with an identifier at its front and more behind. -/
theorem identifiers_validated (v : CString) :
    ValidatedInFull v ↔ v.bytes.length ≤ 32 ∨ ¬IsMd5 (v.bytes.take 32) := by
  rw [ValidatedInFull, adminAccepts_iff, infoAccepts_iff, getAccepts_iff]
  constructor
  · rintro ⟨admin, -⟩
    by_cases cut : IsMd5 (v.bytes.take 32)
    · exact .inl (admin cut).1.le
    · exact .inr cut
  · intro short
    have same : IsMd5 (v.bytes.take 32) ↔ IsMd5 v.bytes := by
      cases short with
      | inl short => rw [List.take_of_length_le short]
      | inr invalid =>
          refine iff_of_false invalid fun valid => invalid ?_
          rwa [List.take_of_length_le valid.1.le]
    exact ⟨same.mp, same.mp, same, same⟩

def longIdentifier : CString := ⟨List.replicate 33 97, by decide +kernel⟩

theorem longIdentifier_accepted : ¬ValidatedInFull longIdentifier := by
  rintro ⟨admin, -⟩
  have accepted : AdminAccepts longIdentifier := (adminAccepts_iff _).mpr (by decide +kernel)
  exact absurd (admin accepted) (by decide +kernel)

end Ximg
