import Ximg.Clients

/-!
# Images over whole histories

An image that was uploaded is read until it is deleted, one that was deleted is not read until it is
uploaded again, and what is read under a name has that name.
-/

namespace Ximg
open Text Vfs Calls

variable {Im : Type} {inetAton : Bytes → Option UInt32} {settings : HttpSettings} {env : Env Im}
  {pages : Bytes → Option Bytes} {visit : Visit} {s s' : Service} {h : Md5} {buff : Bytes}
  {history : List (Visit × (UInt32 × List Reply))} {base : Loc} {w : World} {m m' : ImageMap}

/-! ## Originals -/

/-- The query asks for the image as it was uploaded, and for no script. -/
def ForOriginal (settings : HttpSettings) (req : EvhtpRequest) : Prop :=
  settings.disableArgs ≠ 1 ∧ ∃ params, req.uriQuery = some params ∧
    kvInt params "w" 0 = 0 ∧ kvInt params "h" 0 = 0 ∧ kvInt params "p" 1 = 0 ∧
    kvInt params "x" (-1) = -1 ∧ kvInt params "y" (-1) = -1 ∧
    (settings.scriptOn ≠ 1 ∨ kvFind params "t" = none)

theorem ForOriginal.asks {thrArg : ThrArg} {req : EvhtpRequest}
    (original : ForOriginal settings req) (fmt type : Bool) :
    AsksOriginal settings.toSettings
      (zimgReq settings thrArg h (argsOf settings req fmt type)) := by
  obtain ⟨enabled, params, query, width, height, proportion, x, y, script⟩ := original
  have args : argsOf settings req fmt type = imgArgs settings params
      (if settings.disableArgs ≠ 1 ∧ fmt then kvFind params "f" else none)
      (if settings.disableType ≠ 1 ∧ type then kvFind params "t" else none) := by
    rw [argsOf, query]
  constructor
  · unfold scriptType
    rcases script with off | none
    · exact if_neg off
    · simp [args, zimgReq, imgArgs, enabled, none]
  · simp [args, ZimgReq.original, zimgReq, imgArgs, enabled, width, height, proportion, x, y]

def originalReply (settings : HttpSettings) (request : EvhtpRequest) (buff : Bytes) : Reply :=
  if etagMatches settings.toSettings request buff then evhtpCreateReply EVHTP_RES_NOTMOD [] []
  else
    evhtpCreateReply EVHTP_RES_OK (etagHeaders settings.toSettings request buff ++
      [(ascii "Server", settings.serverName.bytes), (ascii "Content-Type", ascii "image/jpeg")] ++
      confHeaders settings) buff

theorem imageReply_original {req : ZimgReq} {request : EvhtpRequest}
    (connected : Connected settings.toSettings req.thrArg) (stored : m req.md5 = some buff)
    (original : AsksOriginal settings.toSettings req) :
    imageReply settings env m req request = originalReply settings request buff := by
  have body : bodyOf settings.toSettings env req buff = some buff := if_pos original
  simp only [imageReply, originalReply, getReply_body connected stored body, getHeaders, stored,
    if_pos connected, Option.bind_some, body, replyCode]
  cases matched : etagMatches settings.toSettings request buff with
  | true => simp [etagHeaders, matched]
  | false => simp

theorem imageReply_missing {req : ZimgReq} {request : EvhtpRequest} (missing : m req.md5 = none) :
    imageReply settings env m req request = notFoundReply settings := by
  rw [imageReply, getReply_missing missing]
  exact if_pos rfl

/-! ## What a sequence of requests keeps -/

theorem wp_taken :
    (service settings.toSettings env pages visit).wp (serve inetAton settings visit)
      (fun _ s' => s'.sent = []) s :=
  wp_serve.mpr (Machine.wp_mono (Machine.wp_true _ _) fun _ _ _ => rfl)

structure Settled (s : Service) : Prop where
  sent : s.sent = []
  uploaded : ∀ h buff, s.map h = some buff → IsUpload s.made h buff

theorem Settled.changes (settled : Settled s) (changes : Changes inetAton settings visit s s')
    (taken : s'.sent = []) : Settled s' := by
  refine ⟨taken, fun h buff stored => ?_⟩
  rcases changes.images h with kept | ⟨-, -, buff', added, upload⟩ | ⟨deleted, -⟩
  · exact (settled.uploaded h buff (kept ▸ stored)).later changes.made
  · cases added.symm.trans stored
    exact upload
  · cases deleted.symm.trans stored

namespace Specified

theorem settled (specified : Specified inetAton settings env pages s history s')
    (start : Settled s) : Settled s' := by
  refine (Serves.always (P := fun _ => True) (G := fun _ _ => True) (fun visit s _ settled => ?_)
    specified (fun _ _ => trivial) start).2
  exact Machine.wp_mono (Machine.wp_and wp_changes wp_taken) fun _ s' both =>
    ⟨trivial, settled.changes both.1 both.2⟩

theorem made (specified : Specified inetAton settings env pages s history s') {op : StoreOp}
    (member : op ∈ s.made) : op ∈ s'.made := by
  refine (Serves.always (P := fun _ => True) (G := fun _ _ => True)
    (I := fun s : Service => op ∈ s.made) (fun visit s _ member => ?_) specified (fun _ _ => trivial)
    member).2
  exact Machine.wp_mono wp_changes fun _ s' changes => ⟨trivial, changes.made _ member⟩

theorem kept (specified : Specified inetAton settings env pages s history s')
    (unordered : ∀ x ∈ history, ¬Orders inetAton settings x.1 h) (stored : s.map h = some buff) :
    s'.map h = some buff := by
  refine (Serves.always (G := fun _ _ => True) (I := fun s : Service => s.map h = some buff)
    (fun visit s (unordered : ¬Orders inetAton settings visit h) stored => ?_) specified unordered
    stored).2
  refine Machine.wp_mono wp_changes fun _ s' changes => ⟨trivial, ?_⟩
  rcases changes.images h with kept | ⟨absent, -⟩ | ⟨-, orders⟩
  · exact kept.trans stored
  · cases absent.symm.trans stored
  · exact absurd orders unordered

theorem absent (specified : Specified inetAton settings env pages s history s')
    (unposted : ∀ x ∈ history, x.1.request.methodName ≠ "POST") (missing : s.map h = none) :
    s'.map h = none := by
  refine (Serves.always (P := fun visit : Visit => visit.request.methodName ≠ "POST")
    (G := fun _ _ => True) (I := fun s : Service => s.map h = none)
    (fun visit s unposted missing => ?_) specified unposted missing).2
  refine Machine.wp_mono wp_changes fun _ s' changes => ⟨trivial, ?_⟩
  rcases changes.images h with kept | ⟨-, post, -⟩ | ⟨deleted, -⟩
  · exact kept.trans missing
  · exact absurd post unposted
  · exact deleted

end Specified

theorem start_settled : Settled (.start w) := ⟨rfl, fun _ _ stored => by cases stored⟩

/-! ## Reading what was uploaded -/

/-- A request that reads the image as it was uploaded, and meets no obstacle before that. -/
structure GetsOriginal (inetAton : Bytes → Option UInt32) (settings : HttpSettings) (visit : Visit)
    (h : Md5) : Prop extends Gets visit h where
  original : ForOriginal settings visit.request
  allowed : accessOf settings.downAccess (visit.addr inetAton) = .ok
  connected : Connected settings.toSettings visit.thrArg
  allocates : visit.allocates = true

theorem GetReplies.stored {reply : Reply} (replies : GetReplies inetAton settings env m visit h reply)
    (reads : GetsOriginal inetAton settings visit h) (stored : m h = some buff) :
    reply = originalReply settings visit.request buff := by
  unfold GetReplies at replies
  rw [reads.allowed] at replies
  rcases replies with ⟨-, failed⟩ | ⟨fmt, type, rfl, -⟩
  · cases failed.symm.trans reads.allocates
  · exact imageReply_original reads.connected stored (reads.original.asks fmt type)

theorem GetReplies.missing {reply : Reply}
    (replies : GetReplies inetAton settings env m visit h reply) (missing : m h = none) :
    reply = if accessOf settings.downAccess (visit.addr inetAton) = .forbidden then
      forbiddenReply settings else notFoundReply settings := by
  unfold GetReplies at replies
  cases access : accessOf settings.downAccess (visit.addr inetAton) with
  | forbidden => simpa [access] using replies
  | error => simpa [access] using replies
  | ok =>
      rw [access] at replies
      rcases replies with ⟨same, -⟩ | ⟨fmt, type, same, -⟩
      · exact same
      · exact same.trans (imageReply_missing missing)

theorem smallUp_posts : Posts (fun _ => none) smallHttp smallUp (ascii "a") where
  post := rfl
  path := rfl
  allowed := rfl
  announced := by decide +kernel
  type := ⟨ascii "jpeg", by decide +kernel, by decide +kernel⟩
  body := rfl
  allocates := rfl
  room := ⟨.inl rfl, fun _ => by decide +kernel⟩

theorem smallDownload_reads : GetsOriginal (fun _ => none) smallHttp smallDownload
    (md5Of (ascii "a")) where
  get := rfl
  path := rfl
  original := ⟨by decide, _, rfl, by decide +kernel⟩
  allowed := rfl
  connected := .inl rfl
  allocates := rfl

theorem smallErase_orders : Orders (fun _ => none) smallHttp smallErase (md5Of (ascii "a")) where
  get := rfl
  path := rfl
  allowed := rfl
  named := ⟨_, _, rfl, rfl, by decide +kernel, by decide +kernel⟩

theorem smallVisits_answered {history : List (Visit × (UInt32 × List Reply))}
    (requests : history.map Prod.fst = smallVisits) : ∃ a b c d,
    history = [(smallUp, a), (smallDownload, b), (smallErase, c), (smallDownload, d)] := by
  obtain ⟨⟨_, a⟩, _, rfl, rfl, rest⟩ := List.map_eq_cons_iff.mp requests
  obtain ⟨⟨_, b⟩, _, rfl, rfl, rest'⟩ := List.map_eq_cons_iff.mp rest
  obtain ⟨⟨_, c⟩, _, rfl, rfl, last⟩ := List.map_eq_cons_iff.mp rest'
  obtain ⟨⟨_, d⟩, _, rfl, rfl, none⟩ := List.map_eq_cons_iff.mp last
  obtain rfl := List.map_eq_nil_iff.mp none
  exact ⟨a, b, c, d, rfl⟩

@[simp] theorem evhtpCreateReply_code (code : Nat) (headers : List (Bytes × Bytes)) (out : Bytes) :
    (evhtpCreateReply code headers out).code = code := by
  unfold evhtpCreateReply
  split <;> rfl

@[simp] theorem evhtpCreateReply_body (code : Nat) (headers : List (Bytes × Bytes)) (out : Bytes) :
    (evhtpCreateReply code headers out).body = out := by
  unfold evhtpCreateReply
  split_ifs with empty
  · rfl
  · exact (not_not.mp empty).symm

/-- The body of an image that is sent. The database modes send an empty one when the conversion
fails. -/
def SentAs (settings : HttpSettings) (env : Env Im) (req : ZimgReq) (buff body : Bytes) : Prop :=
  bodyOf settings.toSettings env req buff = some body ∨
    (settings.mode ≠ 1 ∧ bodyOf settings.toSettings env req buff = none ∧ body = [])

theorem imageReply_ok {req : ZimgReq} {request : EvhtpRequest}
    (ok : (imageReply settings env m req request).code = EVHTP_RES_OK) :
    ∃ buff, m req.md5 = some buff ∧
      SentAs settings env req buff (imageReply settings env m req request).body := by
  unfold imageReply at ok ⊢
  dsimp only at ok ⊢
  split_ifs at ok ⊢ with missing unmodified
  · simp [notFoundReply, pageReply, EVHTP_RES_NOTFOUND, EVHTP_RES_OK] at ok
  · simp [EVHTP_RES_NOTMOD, EVHTP_RES_OK] at ok
  · unfold getReply at missing unmodified ⊢
    split_ifs at missing unmodified ⊢ with connected
    · cases stored : m req.md5 with
      | none => simp [stored] at missing
      | some buff =>
          refine ⟨buff, rfl, ?_⟩
          rw [stored] at missing unmodified
          cases made : bodyOf settings.toSettings env req buff with
          | none =>
              refine .inr ⟨fun mode => ?_, made, by simp [made]⟩
              exact missing (by simp [made, failureCode, mode])
          | some body =>
              refine .inl ?_
              simp only [made, replyCode] at unmodified ⊢
              cases matched : etagMatches settings.toSettings request body with
              | true => simp [matched] at unmodified
              | false => simp
    · exact absurd rfl missing

theorem GetReplies.ok {reply : Reply} (replies : GetReplies inetAton settings env m visit h reply)
    (ok : reply.code = EVHTP_RES_OK) :
    ∃ buff fmt type, m h = some buff ∧
      (visit.allocates = true → fmt = true ∧ type = true) ∧
      SentAs settings env (zimgReq settings visit.thrArg h (argsOf settings visit.request fmt type))
        buff reply.body := by
  have page (text : String) {code : Nat} (same : reply = pageReply settings text code) :
      code = EVHTP_RES_OK := by
    rw [same] at ok
    simpa [pageReply] using ok
  unfold GetReplies at replies
  split at replies
  · exact absurd (page _ replies) (by decide)
  · exact absurd (page _ replies) (by decide)
  · rcases replies with ⟨same, -⟩ | ⟨fmt, type, rfl, copied⟩
    · exact absurd (page _ same) (by decide)
    · obtain ⟨buff, stored, body⟩ := imageReply_ok ok
      exact ⟨buff, fmt, type, stored, copied, body⟩

structure Alike (s s₁ : Service) : Prop where
  map : s₁.map = s.map
  made : s₁.made = s.made
  sent : s₁.sent = s.sent

theorem Alike.refl (s : Service) : Alike s s := ⟨rfl, rfl, rfl⟩

theorem serve_alike {s₁ : Service} {answer : UInt32 × List Reply} (alike : Alike s s₁)
    (run : (service settings.toSettings env pages visit).Runs (serve inetAton settings visit) s
      answer s') :
    (service settings.toSettings env pages visit).Runs (serve inetAton settings visit) s₁ answer
      s' := by
  have same : ({ s₁ with out := [], headersOut := [] } : Service) =
      { s with out := [], headersOut := [] } := by
    rw [alike.map, alike.made, alike.sent]
  obtain ⟨r, legal, run⟩ := run
  refine ⟨r, legal, ?_⟩
  change Machine.Runs _ _ { s₁ with out := [], headersOut := [] } _ _
  rw [same]
  exact run

/-- A denied request that leaves its connection the address it met. -/
def Ignored (inetAton : Bytes → Option UInt32) (settings : HttpSettings) (visit : Visit) : Prop :=
  Denied inetAton settings visit ∧ visit.addr inetAton = visit.saddr

instance : Decidable (Ignored inetAton settings visit) := inferInstanceAs (Decidable (_ ∧ _))

theorem Specified.without_ignored {peers : Nat → UInt32}
    (specified : Specified inetAton settings env pages s history s')
    (threaded : Threaded peers history) (settled : s.sent = []) {s₁ : Service}
    (alike : Alike s s₁) :
    (∀ x ∈ history, Denied inetAton settings x.1 → x.2.2 = [deniedReply settings x.1]) ∧
      Threaded peers (history.filter fun x => ¬Ignored inetAton settings x.1) ∧
      ∃ s₁', Specified inetAton settings env pages s₁
        (history.filter fun x => ¬Ignored inetAton settings x.1) s₁' ∧ Alike s' s₁' := by
  induction specified generalizing s₁ peers with
  | nil s => exact ⟨by simp, trivial, s₁, .nil s₁, alike⟩
  | @cons s s₂ s' visit answer rest run tail ih =>
      have taken : s₂.sent = [] := run.post wp_taken
      have reply (denied : Denied inetAton settings visit) :
          answer.2 = [deniedReply settings visit] := (run.post (wp_denied denied settled)).1
      obtain ⟨met, threaded⟩ := threaded
      by_cases ignored : Ignored inetAton settings visit
      · obtain ⟨denied, still⟩ := ignored
        obtain ⟨-, map, made, addr⟩ := run.post (wp_denied denied settled)
        have same : Function.update peers visit.conn answer.1 = peers := by
          rw [addr, still, met, Function.update_eq_self]
        rw [same] at threaded
        have alike₂ : Alike s₂ s₁ := ⟨alike.map.trans map.symm, alike.made.trans made.symm,
          (alike.sent.trans settled).trans taken.symm⟩
        obtain ⟨replies, threaded', rest⟩ := ih threaded taken alike₂
        refine ⟨List.forall_mem_cons.mpr ⟨reply, replies⟩, ?_⟩
        rw [List.filter_cons_of_neg (by simpa using ⟨denied, still⟩)]
        exact ⟨threaded', rest⟩
      · obtain ⟨replies, threaded', s₁', specified, alike'⟩ := ih threaded taken (Alike.refl s₂)
        refine ⟨List.forall_mem_cons.mpr ⟨reply, replies⟩, ?_⟩
        rw [List.filter_cons_of_pos (by simpa using ignored)]
        exact ⟨⟨met, threaded'⟩, s₁', .cons (serve_alike alike run) specified, alike'⟩

end Ximg
