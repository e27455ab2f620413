import Ximg.ServerRefinement

/-!
# What clients see

Requests that upload, read or delete an image, one at a time and in whole histories of the server.
-/

namespace Ximg
open Text Vfs Calls

variable {Im : Type} {inetAton : Bytes → Option UInt32} {settings : HttpSettings} {env : Env Im}
  {pages : Bytes → Option Bytes} {visit : Visit} {s : Service} {h : Md5}

/-! ## Callbacks over the map -/

abbrev callbackService (settings : HttpSettings) (env : Env Im) (pages : Bytes → Option Bytes)
    (visit : Visit) : Machine Http Service := (service settings.toSettings env pages visit).inner

theorem wp_serve {Q : UInt32 × List Reply → Service → Prop} :
    (service settings.toSettings env pages visit).wp (serve inetAton settings visit) Q s ↔
      (callbackService settings env pages visit).wp (visitHandler inetAton settings visit)
        (fun saddr s' => Q (saddr, s'.sent) { s' with sent := [] })
        { s with out := [], headersOut := [] } := by
  have taken (saddr : UInt32) (s' : Service) :
      (service settings.toSettings env pages visit).wp (session .replies >>= fun replies =>
        return (saddr, replies)) Q s' ↔ Q (saddr, s'.sent) { s' with sent := [] } :=
    Machine.wp_calm _ _ _ fun _ => Iff.rfl
  change (∀ _ : Unit, True → (service settings.toSettings env pages visit).wp
    ((visitHandler inetAton settings visit).left >>= fun saddr => session .replies >>= fun replies =>
      return (saddr, replies)) Q { s with out := [], headersOut := [] }) ↔ _
  simp only [forall_const, Machine.wp_bind, Machine.wp_inner]
  exact ⟨fun run => Machine.wp_mono run fun saddr s' => (taken saddr s').mp,
    fun run => Machine.wp_mono run fun saddr s' => (taken saddr s').mpr⟩

section Rules
variable {α : Type} {Q : α → Service → Prop}

@[simp] theorem service_printf (text : Bytes) (k : Unit → Prog Http α) :
    (callbackService settings env pages visit).wp (.call (.evbufferAddPrintf text) k) Q s ↔
      (callbackService settings env pages visit).wp (k ()) Q { s with out := s.out ++ text } :=
  Machine.wp_calm _ _ _ fun _ => ⟨fun _ => rfl, fun _ => trivial⟩

@[simp] theorem service_addHeader (key value : Bytes) (k : Unit → Prog Http α) :
    (callbackService settings env pages visit).wp (.call (.headersAddHeader key value) k) Q s ↔
      (callbackService settings env pages visit).wp (k ()) Q
        { s with headersOut := s.headersOut ++ [(key, value)] } :=
  Machine.wp_calm _ _ _ fun _ => ⟨fun _ => rfl, fun _ => trivial⟩

def Service.replied (s : Service) (code : Nat) : Service :=
  { s with
    out := []
    headersOut := (evhtpCreateReply code s.headersOut s.out).headers
    sent := s.sent ++ [evhtpCreateReply code s.headersOut s.out] }

@[simp] theorem service_sendReply (code : Nat) (k : Unit → Prog Http α) :
    (callbackService settings env pages visit).wp (.call (.evhtpSendReply code) k) Q s ↔
      (callbackService settings env pages visit).wp (k ()) Q (s.replied code) :=
  Machine.wp_calm _ _ _ fun _ => ⟨fun _ => rfl, fun _ => trivial⟩

@[simp] theorem service_getImg (req : ZimgReq) (k : Int → Prog Http α) :
    (callbackService settings env pages visit).wp (.call (.getImg req) k) Q s ↔
      (callbackService settings env pages visit).wp
        (k (getReply settings.toSettings env s.map req visit.request).1) Q
        { s with
          out := s.out ++ (getReply settings.toSettings env s.map req visit.request).2
          headersOut := s.headersOut ++
            getHeaders settings.toSettings env s.map req visit.request
          made := s.made ++ [.get req visit.request] } :=
  Machine.wp_calm _ _ _ fun _ => Iff.rfl

theorem service_malloc (k : Bool → Prog Http α) :
    (callbackService settings env pages visit).wp (.call .malloc k) Q s ↔
      ∀ allocated : Bool, (visit.allocates = true → allocated = true) →
        (callbackService settings env pages visit).wp (k allocated) Q s := Iff.rfl

theorem service_saveImg (buff : Bytes) (k : Int × Bytes → Prog Http α) :
    (callbackService settings env pages visit).wp (.call (.saveImg buff) k) Q s ↔
      ∀ r : Int × Bytes, (r.2 = (md5Of buff).bytes ∧
          (Connected settings.toSettings visit.thrArg ∧ Storable settings.toSettings (md5Of buff) →
            r.1 = 1) ∧
          (¬Connected settings.toSettings visit.thrArg → r.1 = -1)) →
        (callbackService settings env pages visit).wp (k r) Q
          { s with
            map := s.map.next settings.toSettings (.upload visit.thrArg buff)
            made := s.made ++ [.upload visit.thrArg buff] } := Iff.rfl

@[simp] theorem service_accessInet (conf : ZimgAccessConf) (saddr : UInt32)
    (k : Int → Prog Http α) :
    (callbackService settings env pages visit).wp (.call (.zimgAccessInet conf saddr) k) Q s ↔
      (callbackService settings env pages visit).wp (k (zimgAccessInet conf saddr)) Q s :=
  Machine.wp_calm _ _ _ fun _ => Iff.rfl

def accessOf (conf : Option ZimgAccessConf) (saddr : UInt32) : Access :=
  match conf with
  | none => .ok
  | some conf =>
      if zimgAccessInet conf saddr = ZIMG_FORBIDDEN then .forbidden
      else if zimgAccessInet conf saddr = ZIMG_ERROR then .error
      else .ok

@[simp] theorem service_checkAccess (conf : Option ZimgAccessConf) (saddr : UInt32)
    (k : Access → Prog Http α) :
    (callbackService settings env pages visit).wp (checkAccess conf saddr >>= k) Q s ↔
      (callbackService settings env pages visit).wp (k (accessOf conf saddr)) Q s := by
  cases conf with
  | none => rfl
  | some conf =>
      simp only [checkAccess, accessOf, http_bind, Prog.call_bind, service_accessInet]
      split_ifs <;> rfl

def confHeaders (settings : HttpSettings) : List (Bytes × Bytes) :=
  (settings.headers.getD []).map fun header => (header.1.bytes, header.2.bytes)

@[simp] theorem service_headersAdd (k : Unit → Prog Http α) :
    (callbackService settings env pages visit).wp (zimgHeadersAdd settings >>= k) Q s ↔
      (callbackService settings env pages visit).wp (k ()) Q
        { s with headersOut := s.headersOut ++ confHeaders settings } := by
  have all (headers : List (CString × CString)) (s : Service) :
      (callbackService settings env pages visit).wp ((headers.forM fun header =>
        http (.headersAddHeader header.1.bytes header.2.bytes)) >>= k) Q s ↔
      (callbackService settings env pages visit).wp (k ()) Q
        { s with headersOut := s.headersOut ++
            headers.map fun header => (header.1.bytes, header.2.bytes) } := by
    induction headers generalizing s with
    | nil =>
        rw [List.map_nil, List.append_nil]
        rfl
    | cons header headers ih =>
        refine (service_addHeader header.1.bytes header.2.bytes _).trans ((ih _).trans ?_)
        rw [List.map_cons, List.append_assoc, List.singleton_append]
  unfold zimgHeadersAdd confHeaders
  cases settings.headers with
  | none => simp
  | some headers => exact all headers s

end Rules

/-! ## Reading -/

def pageReply (settings : HttpSettings) (text : String) (code : Nat) : Reply :=
  evhtpCreateReply code
    [(ascii "Server", settings.serverName.bytes), (ascii "Content-Type", ascii "text/html")]
    (ascii text)

def forbiddenReply (settings : HttpSettings) : Reply :=
  pageReply settings "<html><body><h1>403 Forbidden!</h1></body></html>" EVHTP_RES_FORBIDDEN

def notFoundReply (settings : HttpSettings) : Reply :=
  pageReply settings "<html><body><h1>404 Not Found!</h1></body></html>" EVHTP_RES_NOTFOUND

def imageReply (settings : HttpSettings) (env : Env Im) (m : ImageMap) (req : ZimgReq)
    (request : EvhtpRequest) : Reply :=
  let result := getReply settings.toSettings env m req request
  let headers := getHeaders settings.toSettings env m req request
  if result.1 = -1 then notFoundReply settings
  else if result.1 = 2 then evhtpCreateReply EVHTP_RES_NOTMOD headers result.2
  else
    evhtpCreateReply EVHTP_RES_OK (headers ++
      [(ascii "Server", settings.serverName.bytes), (ascii "Content-Type", ascii "image/jpeg")] ++
      confHeaders settings) result.2

structure Sends (s : Service) (reply : Reply) (s' : Service) : Prop where
  map : s'.map = s.map
  sent : s'.sent = s.sent ++ [reply]

structure OnlySends (s : Service) (reply : Reply) (s' : Service) : Prop
    extends Sends s reply s' where
  made : s'.made = s.made

def Service.Idle (s : Service) : Prop := s.out = [] ∧ s.headersOut = []

theorem wp_replyPage (idle : s.Idle) (text : String) (code : Nat) :
    (callbackService settings env pages visit).wp (replyPage settings text code)
      (fun _ s' => OnlySends s (pageReply settings text code) s') s := by
  simp only [replyPage, printf, addServer, addHeader, http_bind, service_printf, service_addHeader,
    idle.1, idle.2]
  exact (service_sendReply code .ret).mpr ⟨⟨rfl, rfl⟩, rfl⟩

theorem getReply_nothing {settings : Settings} {m : ImageMap} {req : ZimgReq}
    {request : EvhtpRequest} (missing : (getReply settings env m req request).1 = -1) :
    (getReply settings env m req request).2 = [] ∧ getHeaders settings env m req request = [] := by
  unfold getReply getHeaders at *
  split
  · rename_i connected
    rw [if_pos connected] at missing
    cases stored : m req.md5 with
    | none => exact ⟨rfl, rfl⟩
    | some buff =>
        cases made : bodyOf settings env req buff with
        | none => simp [made]
        | some body =>
            rw [stored] at missing
            simp only [made, replyCode] at missing
            split at missing <;> cases missing
  · exact ⟨rfl, rfl⟩

theorem wp_sendImage {req : ZimgReq} (idle : s.Idle) :
    (callbackService settings env pages visit).wp (do
      sendImage settings (← http (.getImg req)))
      (fun _ s' => Sends s (imageReply settings env s.map req visit.request) s') s := by
  obtain ⟨out, headers⟩ := idle
  rw [http_bind, service_getImg, out, headers, imageReply, sendImage]
  split_ifs with missing unmodified
  · obtain ⟨body, tags⟩ := getReply_nothing missing
    rw [body, tags]
    refine Machine.wp_mono (wp_replyPage ⟨rfl, rfl⟩ _ _) fun _ s' sends => ?_
    exact ⟨sends.map, sends.sent⟩
  · exact (service_sendReply _ .ret).mpr ⟨rfl, rfl⟩
  · simp only [addServer, addHeader, http_bind, service_addHeader, service_headersAdd]
    refine (service_sendReply _ .ret).mpr ⟨rfl, ?_⟩
    simp [Service.replied]

/-! ### The arguments of a request -/

/-- The arguments, with the copies of the format and of the type that were made. -/
def argsOf (settings : HttpSettings) (req : EvhtpRequest) (fmt type : Bool) : ImgArgs :=
  match req.uriQuery with
  | none => ⟨0, 0, 1, 0, -1, -1, 0, 0, none, none, 1⟩
  | some params => imgArgs settings params
      (if settings.disableArgs ≠ 1 ∧ fmt then kvFind params "f" else none)
      (if settings.disableType ≠ 1 ∧ type then kvFind params "t" else none)

theorem wp_kvCopy {params : List EvhtpKv} {key : String} :
    (callbackService settings env pages visit).wp (kvCopy params key) (fun copy s' => s' = s ∧
      ∃ made : Bool, copy = (if made then kvFind params key else none) ∧
        (visit.allocates = true → made = true)) s := by
  unfold kvCopy
  cases kvFind params key with
  | none => exact ⟨rfl, true, rfl, fun _ => rfl⟩
  | some str => exact fun made legal => ⟨rfl, made, rfl, legal⟩

theorem wp_queryArgs :
    (callbackService settings env pages visit).wp (queryArgs settings visit.request)
      (fun args s' => s' = s ∧ ∃ fmt type, args = argsOf settings visit.request fmt type ∧
        (visit.allocates = true → fmt = true ∧ type = true)) s := by
  unfold queryArgs argsOf
  cases visit.request.uriQuery with
  | none => exact ⟨rfl, true, true, rfl, fun _ => ⟨rfl, rfl⟩⟩
  | some params =>
      have copy (disable : Int32) (key : String) (k : Option CString → Prog Http ImgArgs)
          {Q : ImgArgs → Service → Prop}
          (rest : ∀ made : Bool, (visit.allocates = true → made = true) →
            (callbackService settings env pages visit).wp
              (k (if disable ≠ 1 ∧ made then kvFind params key else none)) Q s) :
          (callbackService settings env pages visit).wp
            (if disable ≠ 1 then kvCopy params key >>= k else pure none >>= k) Q s := by
        split
        · rename_i enabled
          rw [Machine.wp_bind]
          refine Machine.wp_mono wp_kvCopy ?_
          rintro _ s' ⟨rfl, made, rfl, always⟩
          simpa [enabled] using rest made always
        · rename_i disabled
          simpa [disabled] using rest true fun _ => rfl
      refine copy _ _ _ fun fmt always => copy _ _ _ fun type always' => ?_
      exact ⟨rfl, fmt, type, rfl, fun allocates => ⟨always allocates, always' allocates⟩⟩

/-! ### GET -/

structure Gets (visit : Visit) (h : Md5) : Prop where
  get : visit.request.methodName = "GET"
  path : visit.request.uriPathFull.bytes = slash :: h.bytes

def Visit.addr (visit : Visit) (inetAton : Bytes → Option UInt32) : UInt32 :=
  forwarded inetAton visit.request visit.saddr

theorem md5_route (h : Md5) : evhtpRequestSetCallbacks (slash :: h.bytes) = .route .generic := by
  have long : ∀ x ∈ callbacks, (ascii x.1).length < 33 := by decide +kernel
  rw [evhtpRequestSetCallbacks_eq]
  cases found : evhtpCallbackFind (slash :: h.bytes) with
  | none => rfl
  | some callback =>
      obtain ⟨name, member, same⟩ := evhtpCallbackFind_mem found
      have length := congrArg List.length same
      rw [List.length_cons, h.length] at length
      have short : (ascii name).length < 33 := long _ member
      omega

theorem md5_strstr (h : Md5) {text : String} {c : UInt8} (member : c ∈ ascii text)
    (other : c ≠ slash ∧ ¬((48 ≤ c ∧ c ≤ 57) ∨ (97 ≤ c ∧ c ≤ 102) ∨ (65 ≤ c ∧ c ≤ 70))) :
    strstr (slash :: h.bytes) text = false := by
  apply decide_eq_false
  intro occurs
  rcases List.mem_cons.mp (occurs.subset member) with same | inside
  · exact other.1 same
  · exact other.2 (h.isMd5.2 c inside)

theorem getAllowed_gets (gets : Gets visit h) :
    getAllowed settings visit.thrArg visit.request =
      getImage settings visit.thrArg visit.request := by
  have root : (slash :: h.bytes) ≠ [slash] := by
    intro same
    have length := congrArg List.length same
    rw [List.length_cons, h.length] at length
    cases length
  have favicon : strstr (slash :: h.bytes) "favicon.ico" = false :=
    md5_strstr h (c := 118) (by decide) (by decide)
  have dots : strstr (slash :: h.bytes) ".." = false :=
    md5_strstr h (c := 46) (by decide) (by decide)
  simp [getAllowed, gets.path, root, favicon, dots]

theorem uriMd5_gets (gets : Gets visit h) : uriMd5 visit.request = h.bytes := by
  have whole : h.bytes.length ≤ (slash :: h.bytes).length + 1 - 1 := by simp
  simp only [uriMd5, gets.path, List.head?_cons, if_true, List.drop_succ_cons, List.drop_zero,
    strLcpy, List.take_of_length_le whole]

/-- The replies to a GET for an image from an address that may download. Only a failed allocation
leaves a choice. -/
def ImageReplies (settings : HttpSettings) (env : Env Im) (m : ImageMap) (visit : Visit) (h : Md5)
    (reply : Reply) : Prop :=
  (reply = notFoundReply settings ∧ visit.allocates = false) ∨
    ∃ fmt type, reply = imageReply settings env m (zimgReq settings visit.thrArg h
        (argsOf settings visit.request fmt type)) visit.request ∧
      (visit.allocates = true → fmt = true ∧ type = true)

def GetReplies (inetAton : Bytes → Option UInt32) (settings : HttpSettings) (env : Env Im)
    (m : ImageMap) (visit : Visit) (h : Md5) (reply : Reply) : Prop :=
  match accessOf settings.downAccess (visit.addr inetAton) with
  | .forbidden => reply = forbiddenReply settings
  | .error => reply = notFoundReply settings
  | .ok => ImageReplies settings env m visit h reply

theorem wp_getImage (gets : Gets visit h) (idle : s.Idle) :
    (callbackService settings env pages visit).wp (getImage settings visit.thrArg visit.request)
      (fun _ s' => ∃ reply, Sends s reply s' ∧ ImageReplies settings env s.map visit h reply) s := by
  have failed {allocated : Bool} (legal : visit.allocates = true → allocated = true)
      (no : allocated = false) :
      (callbackService settings env pages visit).wp (replyNotFound settings) (fun _ s' =>
        ∃ reply, Sends s reply s' ∧ ImageReplies settings env s.map visit h reply) s := by
    refine Machine.wp_mono (wp_replyPage idle _ _) fun _ s' sends => ⟨_, sends.toSends, .inl ⟨rfl, ?_⟩⟩
    cases allocates : visit.allocates with
    | false => rfl
    | true => exact absurd (legal allocates) (by simp [no])
  have name := uriMd5_gets gets
  have named : IsMd5 (uriMd5 visit.request) := name ▸ h.isMd5
  have same : (⟨uriMd5 visit.request, named⟩ : Md5) = h := Md5.ext_bytes name
  rw [getImage, http_bind, service_malloc]
  intro allocated legal
  split
  · exact failed legal ‹_›
  rw [Machine.wp_bind]
  refine Machine.wp_mono wp_queryArgs ?_
  rintro _ s' ⟨rfl, fmt, type, rfl, always⟩
  rw [http_bind, service_malloc]
  intro allocated' legal'
  split
  · exact failed legal' ‹_›
  refine Machine.wp_mono (wp_sendImage idle) fun _ s'' sends => ⟨_, sends, .inr ⟨fmt, type, ?_⟩⟩
  rw [same]
  exact ⟨rfl, always⟩

theorem wp_gate {conf : Option ZimgAccessConf} {allowed : Prog Http Unit}
    (get : visit.request.methodName = "GET") (idle : s.Idle) {P : Reply → Service → Prop}
    (forbidden : accessOf conf (visit.addr inetAton) = .forbidden → ∀ s', s'.map = s.map →
      P (forbiddenReply settings) s')
    (error : accessOf conf (visit.addr inetAton) = .error → ∀ s', s'.map = s.map →
      P (notFoundReply settings) s')
    (ok : accessOf conf (visit.addr inetAton) = .ok →
      (callbackService settings env pages visit).wp allowed
        (fun _ s' => ∃ reply, s'.sent = s.sent ++ [reply] ∧ P reply s') s) :
    (callbackService settings env pages visit).wp (do
      let saddr := forwarded inetAton visit.request visit.saddr
      if visit.request.methodName = "POST" then
        postRequestCb inetAton settings visit.request saddr
      else
        if visit.request.methodName ≠ "GET" then replyNotFound settings
        else
          match ← checkAccess conf saddr with
          | .forbidden => replyForbidden settings
          | .error => replyNotFound settings
          | .ok => allowed
        return saddr) (fun _ s' => ∃ reply, s'.sent = s.sent ++ [reply] ∧ P reply s') s := by
  have other : visit.request.methodName ≠ "POST" := by simp [get]
  dsimp only
  rw [if_neg other, if_neg (not_not.mpr get), service_checkAccess]
  have page (text : String) (code : Nat)
      (given : ∀ s', s'.map = s.map → P (pageReply settings text code) s') :
      (callbackService settings env pages visit).wp (replyPage settings text code)
        (fun _ s' => ∃ reply, s'.sent = s.sent ++ [reply] ∧ P reply s') s :=
    Machine.wp_mono (wp_replyPage idle _ _) fun _ s' sends =>
      ⟨_, sends.sent, given s' sends.map⟩
  unfold Visit.addr at forbidden error ok
  cases access : accessOf conf (forwarded inetAton visit.request visit.saddr) with
  | forbidden => exact (Machine.wp_bind ..).mpr (page _ _ (forbidden access))
  | error => exact (Machine.wp_bind ..).mpr (page _ _ (error access))
  | ok => exact (Machine.wp_bind ..).mpr (ok access)

theorem wp_gets (gets : Gets visit h) (sent : s.sent = []) :
    (service settings.toSettings env pages visit).wp (serve inetAton settings visit)
      (fun answer s' => s'.map = s.map ∧ ∃ reply, answer.2 = [reply] ∧
        GetReplies inetAton settings env s.map visit h reply) s := by
  rw [wp_serve, visitHandler, gets.path, md5_route]
  refine Machine.wp_mono (wp_gate (s := { s with out := [], headersOut := [] }) (P := fun reply s' =>
    s'.map = s.map ∧ GetReplies inetAton settings env s.map visit h reply) gets.get ⟨rfl, rfl⟩
    (fun access s' map => ?_) (fun access s' map => ?_) fun access => ?_) ?_
  · exact ⟨map, by simp [GetReplies, access]⟩
  · exact ⟨map, by simp [GetReplies, access]⟩
  · rw [getAllowed_gets gets]
    refine Machine.wp_mono (wp_getImage gets ⟨rfl, rfl⟩) ?_
    rintro _ s' ⟨reply, sends, replies⟩
    exact ⟨reply, sends.sent, sends.map, by simpa [GetReplies, access] using replies⟩
  · rintro _ s' ⟨reply, sent', map, replies⟩
    refine ⟨map, reply, ?_, replies⟩
    rw [sent', sent]
    rfl

/-! ## What requests change -/

/-- An order, from an address that may administer, to delete the image. -/
structure Orders (inetAton : Bytes → Option UInt32) (settings : HttpSettings) (visit : Visit)
    (h : Md5) : Prop where
  get : visit.request.methodName = "GET"
  path : visit.request.uriPathFull.bytes = ascii "/admin"
  allowed : accessOf settings.adminAccess (visit.addr inetAton) = .ok
  named : ∃ params md5, visit.request.uriQuery = some params ∧ kvFind params "md5" = some md5 ∧
    strLcpy md5.bytes 33 = h.bytes ∧ kvInt params "t" 0 = 1

/-- Only a `POST` adds images, and only an order deletes one. -/
structure Changes (inetAton : Bytes → Option UInt32) (settings : HttpSettings) (visit : Visit)
    (s s' : Service) : Prop where
  made : ∀ op ∈ s.made, op ∈ s'.made
  images : ∀ h, s'.map h = s.map h ∨
    (s.map h = none ∧ visit.request.methodName = "POST" ∧
      ∃ buff, s'.map h = some buff ∧ IsUpload s'.made h buff) ∨
    (s'.map h = none ∧ Orders inetAton settings visit h)

theorem asMd5_bytes {md5 : Bytes} (found : asMd5 md5 = some h) : h.bytes = md5 := by
  unfold asMd5 at found
  split at found <;> cases found
  rfl

def MayChange (inetAton : Bytes → Option UInt32) (settings : HttpSettings) (visit : Visit) :
    HttpOp → Prop
  | .saveImg _ => visit.request.methodName = "POST"
  | .adminImg md5 t => t = 1 → ∀ h : Md5, h.bytes = md5 → Orders inetAton settings visit h
  | _ => True

theorem Orders.unposted (orders : Orders inetAton settings visit h) :
    visit.request.methodName ≠ "POST" := by simp [orders.get]

theorem IsUpload.later {ops ops' : List StoreOp} {buff : Bytes} (upload : IsUpload ops h buff)
    (later : ∀ op ∈ ops, op ∈ ops') : IsUpload ops' h buff :=
  ⟨upload.1.imp fun _ member => later _ member, upload.2⟩

namespace Changes
variable {s' s'' : Service}

theorem same (map : s'.map = s.map) (made : s'.made = s.made) :
    Changes inetAton settings visit s s' :=
  ⟨fun _ member => made ▸ member, fun h => .inl (congrFun map h)⟩

theorem trans (first : Changes inetAton settings visit s s')
    (second : Changes inetAton settings visit s' s'') : Changes inetAton settings visit s s'' := by
  refine ⟨fun op member => second.made op (first.made op member), fun h => ?_⟩
  rcases second.images h with kept | ⟨absent, post, added⟩ | deleted
  · rcases first.images h with kept' | ⟨absent, post, buff, added, upload⟩ | ⟨deleted, orders⟩
    · exact .inl (kept.trans kept')
    · exact .inr (.inl ⟨absent, post, buff, kept.trans added, upload.later second.made⟩)
    · exact .inr (.inr ⟨kept.trans deleted, orders⟩)
  · rcases first.images h with kept' | ⟨-, -, buff, added', -⟩ | ⟨-, orders⟩
    · exact .inr (.inl ⟨kept' ▸ absent, post, added⟩)
    · cases absent.symm.trans added'
    · exact absurd post orders.unposted
  · exact .inr (.inr deleted)

theorem saveImg (post : visit.request.methodName = "POST") (buff : Bytes) :
    Changes inetAton settings visit s { s with
      map := s.map.next settings.toSettings (.upload visit.thrArg buff)
      made := s.made ++ [.upload visit.thrArg buff] } := by
  refine ⟨fun op member => List.mem_append_left _ member, fun h => ?_⟩
  unfold ImageMap.next ImageMap.insertNew
  dsimp only
  split_ifs with room present
  · exact .inl rfl
  · by_cases name : h = md5Of buff
    · subst name
      have absent : s.map (md5Of buff) = none := by simpa using present
      refine .inr (.inl ⟨absent, post, buff, Function.update_self .., ⟨visit.thrArg, ?_⟩, rfl⟩)
      exact List.mem_append_right _ (List.mem_singleton_self _)
    · exact .inl (Function.update_of_ne name _ _)
  · exact .inl rfl

theorem remove (orders : Orders inetAton settings visit h) {out : Bytes}
    {headers : List (Bytes × Bytes)} :
    Changes inetAton settings visit s
      { s with map := s.map.remove h, out := out, headersOut := headers } := by
  refine ⟨fun op member => member, fun k => ?_⟩
  by_cases same : k = h
  · subst same
    exact .inr (.inr ⟨Function.update_self .., orders⟩)
  · exact .inl (Function.update_of_ne same _ _)

end Changes

theorem mayChange_step {op : HttpOp} {r : op.Res} (may : MayChange inetAton settings visit op) :
    Changes inetAton settings visit s
      ((callbackService settings env pages visit).effect s op r) := by
  cases op with
  | saveImg buff => exact .saveImg may buff
  | getImg req => exact ⟨fun op member => List.mem_append_left _ member, fun h => .inl rfl⟩
  | adminImg md5 t =>
      change Changes inetAton settings visit s ((asMd5 md5).elim s _)
      cases found : asMd5 md5 with
      | none => exact .same rfl rfl
      | some h =>
          rw [Option.elim_some, Service.administered]
          split
          · rename_i erases
            exact .remove (may erases.2.2 h (asMd5_bytes found))
          · exact .same rfl rfl
  | infoImg md5 =>
      change Changes inetAton settings visit s ((asMd5 md5).elim s _)
      cases asMd5 md5 <;> exact .same rfl rfl
  | _ => exact .same rfl rfl

theorem wp_mayChange {α : Type} {p : Prog Http α} (uses : p.Uses (MayChange inetAton settings visit))
    {s₀ : Service} (changes : Changes inetAton settings visit s₀ s) :
    (callbackService settings env pages visit).wp p
      (fun _ s' => Changes inetAton settings visit s₀ s') s :=
  Machine.wp_of_uses (R := fun s => Changes inetAton settings visit s₀ s) uses
    (fun _ _ _ may changes _ => changes.trans (mayChange_step may)) changes

/-! ### Which calls each callback makes -/

theorem idle_mayChange {op : HttpOp} (h : Idle op) : MayChange inetAton settings visit op := by
  cases op with
  | saveImg _ | adminImg _ _ => exact h.elim
  | _ => trivial

theorem prepares_mayChange {op : HttpOp} (post : visit.request.methodName = "POST")
    (h : PreparesUpload op) : MayChange inetAton settings visit op := by
  cases op with
  | saveImg _ => exact post
  | adminImg _ _ => exact h.elim
  | _ => trivial

theorem uploadBody_changes (api : Api) (saddr : UInt32) :
    (uploadBody settings visit.request api saddr).Uses (MayChange inetAton settings visit) := by
  by_cases post : visit.request.methodName = "POST"
  · exact (uploadBody_prepares api saddr).mono fun _ => prepares_mayChange post
  · unfold uploadBody
    rw [if_pos post]
    trivial

theorem base64Save_changes :
    (base64Save visit.request).Uses (MayChange inetAton settings visit) := by
  by_cases post : visit.request.methodName = "POST"
  · exact base64Save_prepares.mono fun _ => prepares_mayChange post
  · unfold base64Save
    rw [if_pos post]
    trivial

theorem jsonUpload_idle (text : Bytes) : Prog.Uses (S := Http) Idle (do
    addJson text
    sendUpload settings) := (addJson_idle text).bind fun _ => sendUpload_idle settings

theorem replies_changes {p : Prog Http Unit} (idle : p.Uses Idle) (saddr : UInt32) :
    Prog.Uses (S := Http) (MayChange inetAton settings visit) (p >>= fun _ => return saddr) :=
  (idle.mono fun _ => idle_mayChange).bind fun _ => trivial

theorem postRequestCb_changes (saddr : UInt32) :
    (postRequestCb inetAton settings visit.request saddr).Uses
      (MayChange inetAton settings visit) := by
  refine (uploadBody_changes .upload _).bind fun r => ?_
  cases r with
  | done => exact replies_changes (sendUpload_idle settings) _
  | forbidden => exact replies_changes (jsonUpload_idle _) _
  | err errNo retJson =>
      cases retJson with
      | true => exact replies_changes (jsonUpload_idle _) _
      | false =>
          have page : Prog.Uses (S := Http) Idle (do
              printf "<h1>Upload Failed!</h1></body></html>"
              addHeader "Content-Type" (ascii "text/html")
              sendUpload settings) := ⟨trivial, fun _ => ⟨trivial, fun _ => sendUpload_idle settings⟩⟩
          exact replies_changes page _

theorem postUploadRequestCb_changes (saddr : UInt32) :
    (postUploadRequestCb inetAton settings visit.request saddr).Uses
      (MayChange inetAton settings visit) := by
  refine (uploadBody_changes .up _).bind fun r => ?_
  cases r with
  | done => exact replies_changes (sendUpload_idle settings) _
  | forbidden | err _ _ => exact replies_changes (jsonUpload_idle _) _

theorem base64RequestCb_changes (saddr : UInt32) :
    (base64RequestCb inetAton settings visit.request saddr).Uses
      (MayChange inetAton settings visit) := by
  refine base64Save_changes.bind fun r => ?_
  cases r with
  | none | some _ => exact replies_changes (jsonUpload_idle _) _

theorem infoRequestCb_changes (saddr : UInt32) :
    (infoRequestCb inetAton settings visit.request saddr).Uses
      (MayChange inetAton settings visit) := by
  have describes {op : HttpOp} (h : Describes op) : MayChange inetAton settings visit op := by
    cases op with
    | infoImg _ => trivial
    | _ => exact h.elim
  refine (infoImage_describes.mono fun _ => describes).bind fun r => ?_
  cases r with
  | none =>
      have described : Prog.Uses (S := Http) Idle (do
          addServer settings
          addHeader "Content-Type" (ascii "application/json")
          http (.evhtpSendReply EVHTP_RES_OK)) := ⟨trivial, fun _ => ⟨trivial, fun _ => sendReply_idle _⟩⟩
      exact replies_changes described _
  | some errNo => exact replies_changes (jsonUpload_idle _) _

theorem adminAllowed_changes (get : visit.request.methodName = "GET")
    (path : visit.request.uriPathFull.bytes = ascii "/admin")
    (allowed : accessOf settings.adminAccess (visit.addr inetAton) = .ok) :
    (adminAllowed settings visit.request).Uses (MayChange inetAton settings visit) := by
  have idle {p : Prog Http Unit} (h : p.Uses Idle) : p.Uses (MayChange inetAton settings visit) :=
    h.mono fun _ => idle_mayChange
  unfold adminAllowed
  split
  · exact idle (sendFavicon_idle settings)
  split
  · exact idle (sendPage_idle settings _ _)
  rename_i params query
  split
  · exact idle (replyNotFound_idle settings)
  rename_i md5 found
  dsimp only
  split
  · exact idle (replyNotFound_idle settings)
  refine uses_http (fun isDelete h name => ?_) fun r => ?_
  · exact ⟨get, path, allowed, params, md5, query, found, name.symm, isDelete⟩
  · have failed (md5 : Bytes) (t : Int32) (reason : String) : Prog.Uses (S := Http) Idle
        (adminFailed md5 t reason >>= fun _ => sendUpload settings) :=
      (adminFailed_idle _ _ _).bind fun _ => sendUpload_idle settings
    split_ifs
    · exact idle (failed _ _ _)
    · exact idle (failed _ _ _)
    · exact idle (sendUpload_idle settings)

theorem gate_changes {s₀ : Service} {conf : Option ZimgAccessConf} {allowed : Prog Http Unit}
    {saddr : UInt32} (changes : Changes inetAton settings visit s₀ s)
    (ok : visit.request.methodName = "GET" →
      accessOf conf (forwarded inetAton visit.request saddr) = .ok →
        allowed.Uses (MayChange inetAton settings visit)) :
    (callbackService settings env pages visit).wp (do
      let saddr := forwarded inetAton visit.request saddr
      if visit.request.methodName = "POST" then
        postRequestCb inetAton settings visit.request saddr
      else
        if visit.request.methodName ≠ "GET" then replyNotFound settings
        else
          match ← checkAccess conf saddr with
          | .forbidden => replyForbidden settings
          | .error => replyNotFound settings
          | .ok => allowed
        return saddr) (fun _ s' => Changes inetAton settings visit s₀ s') s := by
  dsimp only
  split
  · exact wp_mayChange (postRequestCb_changes _) changes
  split
  · exact wp_mayChange (replies_changes (replyNotFound_idle settings) _) changes
  rename_i get
  rw [service_checkAccess]
  cases access : accessOf conf (forwarded inetAton visit.request saddr) with
  | forbidden => exact wp_mayChange (replies_changes (replyForbidden_idle settings) _) changes
  | error => exact wp_mayChange (replies_changes (replyNotFound_idle settings) _) changes
  | ok =>
      have uses : Prog.Uses (S := Http) (MayChange inetAton settings visit)
          (allowed >>= fun _ => return forwarded inetAton visit.request saddr) :=
        (ok (not_not.mp get) access).bind fun _ => trivial
      exact wp_mayChange uses changes

theorem dumpRequestCb_idle (queryRaw : Option CString) :
    (dumpRequestCb settings visit.request queryRaw).Uses Idle := by
  have printed (kvs : Option (List EvhtpKv)) : (evhtpKvsForEach kvs printHeaders).Uses Idle :=
    printHeaders_uses (fun _ => trivial) kvs
  exact ⟨trivial, fun _ => ⟨trivial, fun _ => (printed _).bind fun _ => ⟨trivial, fun _ =>
    (printed _).bind fun _ => ⟨trivial, fun _ => ⟨trivial, fun _ => sendReply_idle _⟩⟩⟩⟩⟩

theorem echoCb_idle : (echoCb settings).Uses Idle :=
  ⟨trivial, fun _ => ⟨trivial, fun _ => ⟨trivial, fun _ => sendReply_idle _⟩⟩⟩

theorem admin_path (full : Bytes) (admin : evhtpRequestSetCallbacks full = .route .admin) :
    full = ascii "/admin" := by
  rw [evhtpRequestSetCallbacks_eq] at admin
  cases found : evhtpCallbackFind full with
  | none =>
      rw [found] at admin
      cases admin
  | some callback =>
      obtain ⟨name, member, same⟩ := evhtpCallbackFind_mem found
      rw [found] at admin
      cases admin
      have single : ∀ x ∈ callbacks, x.2 = .route .admin → x.1 = "/admin" := by decide
      rw [same, show name = "/admin" from single _ member rfl]

theorem wp_changes :
    (service settings.toSettings env pages visit).wp (serve inetAton settings visit)
      (fun _ s' => Changes inetAton settings visit s s') s := by
  have start : Changes inetAton settings visit s { s with out := [], headersOut := [] } :=
    .same rfl rfl
  rw [wp_serve]
  refine Machine.wp_mono (Q := fun _ s' => Changes inetAton settings visit s s') ?_ fun _ s' changes =>
    changes.trans (.same rfl rfl)
  unfold visitHandler
  cases route : evhtpRequestSetCallbacks visit.request.uriPathFull.bytes with
  | dump => exact wp_mayChange (replies_changes (dumpRequestCb_idle _) _) start
  | echo => exact wp_mayChange (replies_changes echoCb_idle _) start
  | route r =>
      cases r with
      | upload => exact wp_mayChange (postRequestCb_changes _) start
      | admin =>
          exact gate_changes start fun get allowed =>
            adminAllowed_changes get (admin_path _ route) allowed
      | info => exact wp_mayChange (infoRequestCb_changes _) start
      | base64 => exact wp_mayChange (base64RequestCb_changes _) start
      | up => exact wp_mayChange (postUploadRequestCb_changes _) start
      | generic =>
          refine gate_changes start fun _ _ => ?_
          refine (getAllowed_fetches settings visit.thrArg visit.request).mono fun op fetches => ?_
          cases op with
          | saveImg _ | adminImg _ _ => exact fetches.elim
          | _ => trivial

/-! ## Uploading -/

/-- The image is posted as it is, and meets no obstacle before it is saved. -/
structure Posts (inetAton : Bytes → Option UInt32) (settings : HttpSettings) (visit : Visit)
    (image : Bytes) : Prop where
  post : visit.request.methodName = "POST"
  path : visit.request.uriPathFull.bytes = ascii "/upload"
  allowed : accessOf settings.upAccess (visit.addr inetAton) = .ok
  announced : contentLength settings visit.request = .ok image.length
  type : ∃ contentType, visit.request.headerFind "Content-Type" = some contentType ∧
    isImg contentType = 1
  body : visit.request.bufferIn = image
  allocates : visit.allocates = true
  room : Connected settings.toSettings visit.thrArg ∧ Storable settings.toSettings (md5Of image)

theorem isImg_short {contentType : Bytes} (image : isImg contentType = 1) :
    strstr contentType "multipart/form-data" = false := by
  have short : ∀ type ∈ allowedType, type.length < 5 := by decide
  unfold isImg at image
  split at image
  · rename_i member
    apply decide_eq_false
    intro occurs
    have length := occurs.length_le
    have shortened : (contentType.map lower).length < 5 := short _ member
    rw [List.length_map] at shortened
    have long : (ascii "multipart/form-data").length = 19 := by decide
    omega
  · cases image

theorem Posts.nonempty {image : Bytes} (posts : Posts inetAton settings visit image) :
    image ≠ [] := by
  rintro rfl
  exact absurd (contentLength_bounds _ _ posts.announced).1 (by decide)

def jsonReply (settings : HttpSettings) (text : Bytes) : Reply :=
  evhtpCreateReply EVHTP_RES_OK
    [(ascii "Content-Type", ascii "application/json"), (ascii "Server", settings.serverName.bytes)]
    text

def savedReply (settings : HttpSettings) (image : Bytes) : Reply :=
  jsonReply settings
    (ascii "\x7b\"ret\":true,\"info\":\x7b\"md5\":\"" ++ (md5Of image).bytes ++
      ascii "\",\"size\":" ++ decimalNat image.length ++ ascii "\x7d\x7d")

theorem wp_uploadBody_posts {image contentType : Bytes}
    (posts : Posts inetAton settings visit image)
    (typed : visit.request.headerFind "Content-Type" = some contentType)
    {Q : UploadEnd → Service → Prop}
    (parse : ∀ mem : Bytes, mem.take image.length = image → (callbackService settings env pages visit).wp
      (uploadParse settings .upload contentType mem image.length) Q s) :
    (callbackService settings env pages visit).wp
      (uploadBody settings visit.request .upload (visit.addr inetAton)) Q s := by
  have nonempty : image.length ≠ 0 := mt List.length_eq_zero_iff.mp posts.nonempty
  unfold uploadBody
  rw [if_neg (not_not.mpr posts.post), service_checkAccess, posts.allowed]
  simp only [posts.announced, typed, posts.body]
  intro block legal
  cases block with
  | none => exact absurd (posts.allocates.symm.trans legal) (by simp)
  | some block =>
      change (callbackService settings env pages visit).wp (if image.length = 0 then _ else _) Q s
      rw [if_neg nonempty]
      apply parse
      rw [removeLoop_small posts.nonempty (contentLength_lt posts.announced)]
      simp [evbufferRemove]

theorem wp_binaryParse_posts {image contentType mem : Bytes}
    (posts : Posts inetAton settings visit image) (isImage : isImg contentType = 1)
    (whole : mem.take image.length = image) {Q : Option Nat → Service → Prop}
    (saved : Q none { s with
      map := s.map.insertNew (md5Of image) image
      made := s.made ++ [.upload visit.thrArg image]
      out := s.out ++ (ascii "\x7b\"ret\":true,\"info\":\x7b\"md5\":\"" ++ (md5Of image).bytes ++
        ascii "\",\"size\":" ++ decimalNat image.length ++ ascii "\x7d\x7d")
      headersOut := s.headersOut ++ [(ascii "Content-Type", ascii "application/json")] }) :
    (callbackService settings env pages visit).wp
      (binaryParse .upload contentType mem image.length) Q s := by
  have map : s.map.next settings.toSettings (.upload visit.thrArg image) =
      s.map.insertNew (md5Of image) image := if_pos posts.room
  unfold binaryParse
  rw [if_neg (by simp [isImage]), whole, http_bind, service_saveImg, map]
  rintro ⟨r, md5⟩ ⟨name, stored, -⟩
  obtain rfl : md5 = (md5Of image).bytes := name
  obtain rfl : r = 1 := stored posts.room
  dsimp only
  rw [if_neg (by decide)]
  simp only [jsonSaved, addJson, addHeader, http_bind, Prog.call_bind, service_printf]
  exact (service_addHeader _ _ _).mpr saved

theorem wp_posts {image : Bytes} (posts : Posts inetAton settings visit image)
    (sent : s.sent = []) :
    (service settings.toSettings env pages visit).wp (serve inetAton settings visit)
      (fun answer s' => answer.2 = [savedReply settings image] ∧
        s'.map = s.map.insertNew (md5Of image) image ∧
        IsUpload s'.made (md5Of image) image) s := by
  obtain ⟨contentType, typed, isImage⟩ := posts.type
  have route : evhtpRequestSetCallbacks (ascii "/upload") = .route .upload := by decide +kernel
  rw [wp_serve, visitHandler, posts.path, route]
  show (callbackService settings env pages visit).wp (postRequestCb _ _ _ _) _ _
  unfold postRequestCb
  dsimp only
  rw [Machine.wp_bind]
  refine wp_uploadBody_posts posts typed fun mem whole => ?_
  unfold uploadParse
  rw [if_pos (isImg_short isImage), Machine.wp_bind]
  refine wp_binaryParse_posts posts isImage whole ?_
  simp only [Prog.pure_eq, Machine.wp_ret, sendUpload, addServer, addHeader, http_bind,
    Prog.call_bind, service_addHeader]
  refine (service_sendReply _ _).mpr ⟨?_, rfl, ⟨visit.thrArg, ?_⟩, rfl⟩
  · simp [Service.replied, savedReply, jsonReply, sent]
  · exact List.mem_append_right _ (List.mem_singleton_self _)

/-! ## Deleting -/

def orderReply (settings : HttpSettings) (h : Md5) (found : Bool) : Reply :=
  evhtpCreateReply EVHTP_RES_OK
    [(ascii "Content-Type", ascii "text/html"), (ascii "Server", settings.serverName.bytes)]
    (if found then adminPage h.bytes 1
    else ascii "<html><body><h1>Admin Command Failed!</h1>             <p>MD5: " ++ h.bytes ++
      ascii "</p>             <p>Command Type: " ++ decimal (1 : Int32).toInt ++
      ascii "</p>             <p>" ++ ascii "Image Not Found." ++
      ascii "</p>             </body></html>")

theorem service_adminImg (t : Int32) {α : Type} (k : Int → Prog Http α)
    {Q : α → Service → Prop} (erased : Erases settings.toSettings s.map visit.thrArg h t →
      (callbackService settings env pages visit).wp (k 1) Q { s with
        map := s.map.remove h
        out := s.out ++ adminPage h.bytes t
        headersOut := s.headersOut ++ [(ascii "Content-Type", ascii "text/html")] })
    (kept : ¬Erases settings.toSettings s.map visit.thrArg h t →
      (callbackService settings env pages visit).wp
        (k (adminReply settings.toSettings s.map visit.thrArg h t)) Q s) :
    (callbackService settings env pages visit).wp (.call (.adminImg h.bytes t) k) Q s := by
  intro r legal
  obtain rfl : r = adminReply settings.toSettings s.map visit.thrArg h t :=
    legal h (asMd5_valid h.isMd5)
  change (callbackService settings env pages visit).wp _ Q ((asMd5 h.bytes).elim s _)
  rw [asMd5_valid h.isMd5, Option.elim_some, Service.administered]
  split
  · rename_i erases
    have code : adminReply settings.toSettings s.map visit.thrArg h t = 1 := by
      simp [adminReply, erases.1, erases.2.1, erases.2.2]
    rw [code]
    exact erased erases
  · rename_i keeps
    exact kept keeps

theorem wp_orders (orders : Orders inetAton settings visit h)
    (connected : Connected settings.toSettings visit.thrArg) (sent : s.sent = []) :
    (service settings.toSettings env pages visit).wp (serve inetAton settings visit)
      (fun answer s' => answer.2 = [orderReply settings h (s.map h).isSome] ∧
        s'.map = s.map.remove h) s := by
  obtain ⟨params, md5, query, found, name, isDelete⟩ := orders.named
  have route : evhtpRequestSetCallbacks (ascii "/admin") = .route .admin := by decide +kernel
  have favicon : strstr (ascii "/admin") "favicon.ico" = false := by decide +kernel
  rw [wp_serve, visitHandler, orders.path, route]
  refine Machine.wp_mono (wp_gate (s := { s with out := [], headersOut := [] }) (P := fun reply s' =>
    reply = orderReply settings h (s.map h).isSome ∧ s'.map = s.map.remove h) orders.get ⟨rfl, rfl⟩
    (fun access => ?_) (fun access => ?_) fun _ => ?_) ?_
  · exact absurd (access.symm.trans orders.allowed) (by decide)
  · exact absurd (access.symm.trans orders.allowed) (by decide)
  · unfold adminAllowed
    rw [orders.path, if_neg (by simp [favicon])]
    simp only [query, found, name, isDelete]
    rw [if_neg (by simp [isMd5, h.isMd5]), adminCommand, http_bind]
    refine service_adminImg _ _ (fun erases => ?_) fun kept => ?_
    · rw [if_neg (by simp), if_neg (by simp)]
      refine (service_addHeader _ _ _).mpr ((service_sendReply _ _).mpr ⟨_, rfl, ?_, rfl⟩)
      simp [orderReply, Option.isSome_iff_ne_none.mpr erases.2.1]
    · have missing : s.map h = none := by
        by_contra stored
        exact kept ⟨connected, stored, rfl⟩
      have code : adminReply settings.toSettings s.map visit.thrArg h 1 = 2 := by
        simp [adminReply, missing]
      rw [code, if_neg (by simp), if_pos rfl]
      refine (service_printf _ _).mpr ((service_addHeader _ _ _).mpr ((service_addHeader _ _ _).mpr
        ((service_sendReply _ _).mpr ⟨_, rfl, ?_, ?_⟩)))
      · simp [orderReply, missing]
      · rw [ImageMap.remove_absent missing]
        rfl
  · rintro _ s' ⟨reply, sent', same, map⟩
    refine ⟨?_, map⟩
    rw [sent', same, sent]
    rfl

/-! ## Refusing -/

def Visit.access (visit : Visit) (settings : HttpSettings) : Option ZimgAccessConf :=
  match evhtpRequestSetCallbacks visit.request.uriPathFull.bytes with
  | .dump | .echo => none
  | .route r => r.access settings visit.request

def Denied (inetAton : Bytes → Option UInt32) (settings : HttpSettings) (visit : Visit) : Prop :=
  accessOf (visit.access settings) (visit.addr inetAton) ≠ .ok

instance : Decidable (Denied inetAton settings visit) := inferInstanceAs (Decidable (_ ≠ _))

def accessError : Bytes :=
  ascii "\x7b\"ret\":false,\"error\":\x7b\"code\":" ++ decimalNat 3 ++ ascii ",\"message\":\"" ++
    ascii "Access error." ++ ascii "\"\x7d\x7d"

def deniedReply (settings : HttpSettings) (visit : Visit) : Reply :=
  if evhtpRequestSetCallbacks visit.request.uriPathFull.bytes = .route .up then
    jsonReply settings (result2json [])
  else if visit.request.methodName = "POST" then jsonReply settings accessError
  else forbiddenReply settings

theorem accessOf_denied {conf : Option ZimgAccessConf} {addr : UInt32}
    (denied : accessOf conf addr ≠ .ok) : accessOf conf addr = .forbidden := by
  cases conf with
  | none => exact absurd rfl denied
  | some conf =>
      unfold accessOf at *
      rcases zimgAccessInet_cases conf addr with forbidden | ok
      · simp [forbidden]
      · simp [ok, ZIMG_OK, ZIMG_FORBIDDEN, ZIMG_ERROR] at denied

theorem wp_jsonUpload (idle : s.Idle) (text : Bytes) {α : Type} (a : α) :
    (callbackService settings env pages visit).wp (do
      addJson text
      sendUpload settings
      return a) (fun _ s' => OnlySends s (jsonReply settings text) s') s := by
  simp only [addJson, sendUpload, addServer, addHeader, http_bind, Prog.call_bind, service_printf,
    service_addHeader, idle.1, idle.2]
  exact (service_sendReply _ _).mpr ⟨⟨rfl, rfl⟩, rfl⟩

theorem wp_uploadBody_denied {api : Api} {addr : UInt32} {Q : UploadEnd → Service → Prop}
    (post : visit.request.methodName = "POST")
    (forbidden : accessOf settings.upAccess addr = .forbidden) (denied : Q .forbidden s) :
    (callbackService settings env pages visit).wp (uploadBody settings visit.request api addr) Q
      s := by
  unfold uploadBody
  rw [if_neg (not_not.mpr post), service_checkAccess, forbidden]
  exact denied

theorem wp_postRequestCb_denied {saddr : UInt32} (idle : s.Idle)
    (post : visit.request.methodName = "POST")
    (forbidden : accessOf settings.upAccess (forwarded inetAton visit.request saddr) = .forbidden) :
    (callbackService settings env pages visit).wp
      (postRequestCb inetAton settings visit.request saddr)
      (fun _ s' => OnlySends s (jsonReply settings accessError) s') s := by
  unfold postRequestCb
  dsimp only
  rw [Machine.wp_bind]
  exact wp_uploadBody_denied post forbidden (wp_jsonUpload idle _ _)

theorem wp_gate_denied {conf : Option ZimgAccessConf} {allowed : Prog Http Unit} (idle : s.Idle)
    (forbidden : accessOf (if visit.request.methodName = "POST" then settings.upAccess
      else if visit.request.methodName = "GET" then conf else none) (visit.addr inetAton) =
        .forbidden) :
    (callbackService settings env pages visit).wp (do
      let saddr := forwarded inetAton visit.request visit.saddr
      if visit.request.methodName = "POST" then
        postRequestCb inetAton settings visit.request saddr
      else
        if visit.request.methodName ≠ "GET" then replyNotFound settings
        else
          match ← checkAccess conf saddr with
          | .forbidden => replyForbidden settings
          | .error => replyNotFound settings
          | .ok => allowed
        return saddr) (fun _ s' => OnlySends s (if visit.request.methodName = "POST" then
          jsonReply settings accessError else forbiddenReply settings) s') s := by
  dsimp only
  by_cases post : visit.request.methodName = "POST"
  · simp only [if_pos post] at forbidden ⊢
    apply wp_postRequestCb_denied idle post
    rwa [forwarded_forwarded]
  · by_cases get : visit.request.methodName = "GET"
    · simp only [if_neg post, if_pos get] at forbidden ⊢
      rw [if_neg (not_not.mpr get), service_checkAccess,
        show accessOf conf (forwarded inetAton visit.request visit.saddr) = _ from forbidden]
      exact (Machine.wp_bind ..).mpr (wp_replyPage idle _ _)
    · simp only [if_neg post, if_neg get] at forbidden
      cases forbidden

/-! ## The address that a connection keeps -/

abbrev Leaves (p : Prog Http UInt32) (saddr : UInt32) : Prop := p.Yields (fun _ => True) (· = saddr)

theorem Leaves.after {α : Type} {p : Prog Http α} {f : α → Prog Http UInt32} {saddr : UInt32}
    (rest : ∀ a, Leaves (f a) saddr) : Leaves (p >>= f) saddr :=
  (Prog.yields_true p).bind fun a _ => rest a

section Leaves
variable (inetAton) (settings) (req : EvhtpRequest) (saddr : UInt32)

theorem postRequestCb_leaves :
    Leaves (postRequestCb inetAton settings req saddr) (forwarded inetAton req saddr) := by
  refine .after fun r => ?_
  cases r with
  | done => exact .after fun _ => rfl
  | forbidden => exact .after fun _ => .after fun _ => rfl
  | err errNo retJson =>
      cases retJson with
      | true => exact .after fun _ => .after fun _ => rfl
      | false => exact .after fun _ => .after fun _ => .after fun _ => rfl

theorem gate_leaves {conf : Option ZimgAccessConf} {allowed : Prog Http Unit} :
    Leaves (do
      let saddr := forwarded inetAton req saddr
      if req.methodName = "POST" then postRequestCb inetAton settings req saddr
      else
        if req.methodName ≠ "GET" then replyNotFound settings
        else
          match ← checkAccess conf saddr with
          | .forbidden => replyForbidden settings
          | .error => replyNotFound settings
          | .ok => allowed
        return saddr) (forwarded inetAton req saddr) := by
  dsimp only
  split
  · have posted := postRequestCb_leaves inetAton settings req (forwarded inetAton req saddr)
    rwa [forwarded_forwarded] at posted
  split
  · exact .after fun _ => rfl
  · refine .after fun access => ?_
    cases access with
    | forbidden | error | ok => exact .after fun _ => rfl

theorem handler_leaves (thrArg : ThrArg) (route : Route) :
    Leaves (route.handler inetAton settings thrArg req saddr) (forwarded inetAton req saddr) := by
  cases route with
  | upload => exact postRequestCb_leaves inetAton settings req saddr
  | admin | generic => exact gate_leaves inetAton settings req saddr
  | info =>
      refine .after fun r => ?_
      cases r with
      | none => exact .after fun _ => .after fun _ => .after fun _ => rfl
      | some _ => exact .after fun _ => .after fun _ => rfl
  | base64 =>
      refine .after fun r => ?_
      cases r with
      | none | some _ => exact .after fun _ => .after fun _ => rfl
  | up =>
      refine .after fun r => ?_
      cases r with
      | done => exact .after fun _ => rfl
      | forbidden | err _ _ => exact .after fun _ => .after fun _ => rfl

end Leaves

theorem wp_denied (denied : Denied inetAton settings visit) (sent : s.sent = []) :
    (service settings.toSettings env pages visit).wp (serve inetAton settings visit)
      (fun answer s' => answer.2 = [deniedReply settings visit] ∧ s'.map = s.map ∧
        s'.made = s.made ∧ answer.1 = visit.addr inetAton) s := by
  have forbidden := accessOf_denied denied
  have idle : Service.Idle { s with out := [], headersOut := [] } := ⟨rfl, rfl⟩
  rw [wp_serve]
  have leaves : Leaves (visitHandler inetAton settings visit) (visit.addr inetAton) := by
    unfold Visit.access at forbidden
    unfold visitHandler
    cases route : evhtpRequestSetCallbacks visit.request.uriPathFull.bytes with
    | dump | echo =>
        rw [route] at forbidden
        cases forbidden
    | route r => exact handler_leaves inetAton settings visit.request visit.saddr visit.thrArg r
  refine Machine.wp_mono (Q := fun addr s' => OnlySends { s with out := [], headersOut := [] }
    (deniedReply settings visit) s' ∧ addr = visit.addr inetAton)
    (Machine.wp_and ?_ (Machine.wp_of_yields leaves)) fun addr s' only =>
      ⟨?_, only.1.map, only.1.made, only.2⟩
  · unfold Visit.access at forbidden
    unfold visitHandler deniedReply
    cases route : evhtpRequestSetCallbacks visit.request.uriPathFull.bytes with
    | dump | echo =>
        rw [route] at forbidden
        cases forbidden
    | route r =>
        rw [route] at forbidden
        cases r with
        | upload =>
            rw [if_neg (by decide)]
            by_cases post : visit.request.methodName = "POST"
            · simp only [Route.access, if_pos post] at forbidden ⊢
              exact wp_postRequestCb_denied idle post forbidden
            · simp only [Route.access, if_neg post] at forbidden
              cases forbidden
        | up =>
            rw [if_pos rfl]
            by_cases post : visit.request.methodName = "POST"
            · simp only [Route.access, if_pos post] at forbidden
              exact (Machine.wp_bind ..).mpr
                (wp_uploadBody_denied post forbidden (wp_jsonUpload idle _ _))
            · simp only [Route.access, if_neg post] at forbidden
              cases forbidden
        | admin | generic =>
            rw [if_neg (by decide)]
            exact wp_gate_denied idle forbidden
        | info | base64 => cases forbidden
  · rw [only.1.sent, sent]
    rfl

end Ximg
