import Ximg.Callbacks
import Ximg.Identifiers

/-!
# What callbacks call

Which calls an upload can make, which images callbacks name, and how every callback ends: with the
one reply that it sends.
-/

namespace Ximg
open Text Calls

variable {inetAton : Bytes → Option UInt32} {settings : HttpSettings} {thrArg : ThrArg}
  {req : EvhtpRequest} {visit : Visit}

/-! ## The calls of an upload -/

def PreparesUpload : HttpOp → Prop
  | .zimgAccessInet _ _ | .mallocBuff _ | .malloc | .multipartParserInit _ | .saveImg _
  | .evbufferAddPrintf _ | .headersAddHeader _ _ | .fault => True
  | _ => False

theorem saving_prepares {op : HttpOp} (h : Saving op) : PreparesUpload op := by
  cases op with
  | malloc | saveImg _ | evbufferAddPrintf _ => trivial
  | _ => exact h.elim

theorem uses_http {α : Type} {allowed : HttpOp → Prop} {op : HttpOp} {k : op.Res → Prog Http α}
    (first : allowed op) (rest : ∀ r, (k r).Uses allowed) :
    Prog.Uses (S := Http) allowed (http op >>= k) := ⟨first, rest⟩

theorem addJson_prepares (text : Bytes) : (addJson text).Uses PreparesUpload :=
  uses_http trivial fun _ => uses_http trivial fun _ => trivial

theorem checkAccess_prepares (conf : Option ZimgAccessConf) (saddr : UInt32) :
    (checkAccess conf saddr).Uses PreparesUpload := by
  unfold checkAccess
  split
  · trivial
  · refine uses_http trivial fun acs => ?_
    split_ifs <;> trivial

theorem binaryParse_prepares (api : Api) (contentType buff : Bytes) (postSize : Nat) :
    (binaryParse api contentType buff postSize).Uses PreparesUpload := by
  unfold binaryParse
  split
  · trivial
  · refine uses_http trivial fun r => ?_
    dsimp only
    split
    · trivial
    · cases api <;> exact (addJson_prepares _).bind fun _ => trivial

theorem multipartReply_prepares (api : Api) (mpArg : MpArg) :
    (multipartReply api mpArg).Uses PreparesUpload := by
  cases api with
  | upload =>
      unfold multipartReply
      dsimp only
      split
      · exact uses_http trivial fun _ => uses_http trivial fun _ => uses_http trivial fun _ => trivial
      · exact uses_http trivial fun _ => uses_http trivial fun _ => trivial
  | up => exact addJson_prepares _

theorem parseWith_prepares (api : Api) (buff : Bytes) (postSize : Nat) (boundary : Bytes) :
    (parseWith settings api buff postSize boundary).Uses PreparesUpload := by
  unfold parseWith
  refine uses_http trivial fun allocated => ?_
  split
  · trivial
  refine uses_http trivial fun made => ?_
  split
  · trivial
  refine uses_http trivial fun allocated => ?_
  split
  · trivial
  refine ((runMultipart_saving settings api _ postSize _).mono fun _ => saving_prepares).bind fun r => ?_
  exact (multipartReply_prepares api r.2).bind fun _ => trivial

theorem multipartParse_prepares (api : Api) (contentType buff : Bytes) (postSize : Nat) :
    (multipartParse settings api contentType buff postSize).Uses PreparesUpload := by
  rw [multipartParse_eq]
  refine Prog.Uses.bind ?_ fun _ => ?_
  · split
    · exact uses_http trivial fun _ => trivial
    · trivial
  · cases multipartBoundary contentType with
    | missing => trivial
    | invalid => exact ⟨trivial, fun r => r.elim⟩
    | found boundary => exact parseWith_prepares api buff postSize boundary

theorem uploadBody_prepares (api : Api) (saddr : UInt32) :
    (uploadBody settings req api saddr).Uses PreparesUpload := by
  unfold uploadBody
  split
  · trivial
  refine (checkAccess_prepares _ _).bind fun access => ?_
  cases access with
  | forbidden => trivial
  | error => trivial
  | ok =>
      dsimp only
      split
      · trivial
      split
      · trivial
      refine uses_http trivial fun block => ?_
      split
      · trivial
      split
      · trivial
      unfold uploadParse
      split
      · refine (binaryParse_prepares _ _ _ _).bind fun r => ?_
        split <;> trivial
      · refine (multipartParse_prepares _ _ _ _).bind fun r => ?_
        split <;> trivial

theorem base64Save_prepares : (base64Save req).Uses PreparesUpload := by
  unfold base64Save
  split
  · trivial
  split
  · trivial
  split
  · trivial
  refine uses_http trivial fun block => ?_
  split
  · trivial
  refine uses_http trivial fun r => ?_
  dsimp only
  split <;> trivial

theorem kvCopy_prepares (params : List EvhtpKv) (key : String) :
    (kvCopy params key).Uses PreparesUpload := by
  unfold kvCopy
  split
  · trivial
  · refine uses_http trivial fun allocated => ?_
    split_ifs <;> trivial

theorem queryArgs_prepares : (queryArgs settings req).Uses PreparesUpload := by
  unfold queryArgs
  cases req.uriQuery with
  | none => trivial
  | some params =>
    have copy (disable : Int32) (key : String) {k : Option CString → Prog Http ImgArgs}
        (rest : ∀ s, (k s).Uses PreparesUpload) : Prog.Uses (S := Http) PreparesUpload
        (if disable ≠ 1 then kvCopy params key >>= k else pure none >>= k) := by
      split
      · exact (kvCopy_prepares params key).bind rest
      · exact rest none
    refine copy _ _ fun fmt => copy _ _ fun type => ?_
    trivial

def Describes : HttpOp → Prop
  | .infoImg md5 => IsMd5 md5
  | _ => False

theorem infoImage_describes : (infoImage req).Uses Describes := by
  unfold infoImage
  split
  · trivial
  split
  · trivial
  split
  · trivial
  dsimp only
  split
  · trivial
  · rename_i named
    refine uses_http ((isMd5_iff _).mp named) fun r => ?_
    split_ifs <;> trivial

/-! ## How callbacks end -/

def Unreplied : HttpOp → Prop
  | .evhtpSendReply _ => False
  | .adminImg md5 _ | .infoImg md5 => IsMd5 md5
  | _ => True

def knownCodes : List Nat := [EVHTP_RES_OK, EVHTP_RES_NOTMOD, EVHTP_RES_FORBIDDEN, EVHTP_RES_NOTFOUND]

def Replies : HttpOp → Prop
  | .evhtpSendReply code => code ∈ knownCodes
  | _ => False

/-- Exactly one reply is sent, at the very end. -/
abbrev RepliesOnce {α : Type} (p : Prog Http α) : Prop := p.EndsWith Unreplied Replies

theorem prepares_unreplied {op : HttpOp} (h : PreparesUpload op) : Unreplied op := by
  cases op with
  | evhtpSendReply _ | adminImg _ _ | infoImg _ => exact h.elim
  | _ => trivial

theorem describes_unreplied {op : HttpOp} (h : Describes op) : Unreplied op := by
  cases op with
  | infoImg _ => exact h
  | _ => exact h.elim

theorem prepares_once {α β : Type} {p : Prog Http α} {f : α → Prog Http β} (first : p.Uses PreparesUpload)
    (rest : ∀ a, RepliesOnce (f a)) : RepliesOnce (p >>= f) :=
  .after (first.mono fun _ => prepares_unreplied) rest

theorem http_once {α : Type} {op : HttpOp} {k : op.Res → Prog Http α} (first : Unreplied op)
    (rest : ∀ r, RepliesOnce (k r)) : RepliesOnce (http op >>= k) := .inr ⟨first, rest⟩

theorem sendReply_once {code : Nat} (known : code ∈ knownCodes) :
    RepliesOnce (http (.evhtpSendReply code)) := .inl ⟨known, fun r => ⟨r, rfl⟩⟩

theorem ok_once : RepliesOnce (http (.evhtpSendReply EVHTP_RES_OK)) := sendReply_once (by decide)

theorem sendUpload_once : RepliesOnce (sendUpload settings) := http_once trivial fun _ => ok_once

theorem jsonUpload_once (text : Bytes) : RepliesOnce (do
    addJson text
    sendUpload settings) := prepares_once (addJson_prepares text) fun _ => sendUpload_once

theorem replyPage_once (text : String) {code : Nat} (known : code ∈ knownCodes) :
    RepliesOnce (replyPage settings text code) :=
  http_once trivial fun _ => http_once trivial fun _ => http_once trivial fun _ =>
    sendReply_once known

theorem replyForbidden_once : RepliesOnce (replyForbidden settings) := replyPage_once _ (by decide)

theorem replyNotFound_once : RepliesOnce (replyNotFound settings) := replyPage_once _ (by decide)

theorem zimgHeadersAdd_prepares : (zimgHeadersAdd settings).Uses PreparesUpload := by
  have all (headers : List (CString × CString)) : (headers.forM fun header =>
      http (.headersAddHeader header.1.bytes header.2.bytes)).Uses PreparesUpload := by
    induction headers with
    | nil => trivial
    | cons header headers ih => exact ⟨trivial, fun _ => ih⟩
  unfold zimgHeadersAdd
  split
  · trivial
  · exact all _

theorem headed_once : RepliesOnce (do
    zimgHeadersAdd settings
    http (.evhtpSendReply EVHTP_RES_OK)) := prepares_once zimgHeadersAdd_prepares fun _ => ok_once

theorem sendFavicon_once : RepliesOnce (sendFavicon settings) :=
  http_once trivial fun _ => http_once trivial fun _ => headed_once

theorem sendPage_once (path : Bytes) (text : String) :
    RepliesOnce (sendPage settings path text) := by
  refine http_once trivial fun opened => ?_
  cases opened <;>
    exact http_once trivial fun _ => http_once trivial fun _ => http_once trivial fun _ => ok_once

theorem sendImage_once (getImgRst : Int) : RepliesOnce (sendImage settings getImgRst) := by
  unfold sendImage
  split_ifs
  · exact replyNotFound_once
  · exact sendReply_once (by decide)
  · exact http_once trivial fun _ => http_once trivial fun _ => headed_once

theorem getImage_once : RepliesOnce (getImage settings thrArg req) := by
  refine http_once trivial fun allocated => ?_
  split_ifs
  · exact replyNotFound_once
  · refine prepares_once queryArgs_prepares fun args => http_once trivial fun allocated => ?_
    split_ifs
    · exact replyNotFound_once
    · exact http_once trivial fun r => sendImage_once r
  · exact replyNotFound_once

theorem getAllowed_once : RepliesOnce (getAllowed settings thrArg req) := by
  unfold getAllowed
  dsimp only
  split_ifs
  · exact sendPage_once _ _
  · exact sendFavicon_once
  · exact replyForbidden_once
  · exact getImage_once

theorem adminCommand_once {md5 : Bytes} (named : IsMd5 md5) (t : Int32) :
    RepliesOnce (adminCommand settings md5 t) := by
  have failed (reason : String) : RepliesOnce (do
      adminFailed md5 t reason
      sendUpload settings) :=
    http_once trivial fun _ => http_once trivial fun _ => sendUpload_once
  refine http_once named fun r => ?_
  split_ifs
  · exact failed _
  · exact failed _
  · exact sendUpload_once

theorem adminAllowed_once : RepliesOnce (adminAllowed settings req) := by
  unfold adminAllowed
  split
  · exact sendFavicon_once
  split
  · exact sendPage_once _ _
  split
  · exact replyNotFound_once
  dsimp only
  split
  · exact replyNotFound_once
  · rename_i named
    exact adminCommand_once ((isMd5_iff _).mp named) _

theorem postRequestCb_once (saddr : UInt32) :
    RepliesOnce (postRequestCb inetAton settings req saddr) := by
  refine prepares_once (uploadBody_prepares .upload _) fun r => ?_
  cases r with
  | done => exact sendUpload_once.map _
  | forbidden => exact (jsonUpload_once _).map _
  | err errNo retJson =>
      cases retJson with
      | true => exact (jsonUpload_once _).map _
      | false =>
          have page : RepliesOnce (do
              printf "<h1>Upload Failed!</h1></body></html>"
              addHeader "Content-Type" (ascii "text/html")
              sendUpload settings) :=
            http_once trivial fun _ => http_once trivial fun _ => sendUpload_once
          exact page.map _

theorem postUploadRequestCb_once (saddr : UInt32) :
    RepliesOnce (postUploadRequestCb inetAton settings req saddr) := by
  refine prepares_once (uploadBody_prepares .up _) fun r => ?_
  cases r with
  | done => exact sendUpload_once.map _
  | forbidden => exact (jsonUpload_once _).map _
  | err errNo retJson => exact (jsonUpload_once _).map _

theorem gate_once {conf : Option ZimgAccessConf} {allowed : Prog Http Unit} {saddr : UInt32}
    (once : RepliesOnce allowed) : RepliesOnce (do
      let saddr := forwarded inetAton req saddr
      if req.methodName = "POST" then postRequestCb inetAton settings req saddr
      else
        if req.methodName ≠ "GET" then replyNotFound settings
        else
          match ← checkAccess conf saddr with
          | .forbidden => replyForbidden settings
          | .error => replyNotFound settings
          | .ok => allowed
        return saddr) := by
  dsimp only
  split
  · exact postRequestCb_once _
  split
  · exact replyNotFound_once.map _
  refine prepares_once (checkAccess_prepares _ _) fun access => ?_
  cases access with
  | ok => exact once.map _
  | forbidden => exact replyForbidden_once.map _
  | error => exact replyNotFound_once.map _

theorem infoRequestCb_once (saddr : UInt32) :
    RepliesOnce (infoRequestCb inetAton settings req saddr) := by
  refine Prog.EndsWith.after (infoImage_describes.mono fun _ => describes_unreplied) fun r => ?_
  cases r with
  | none =>
      have described : RepliesOnce (do
          addServer settings
          addHeader "Content-Type" (ascii "application/json")
          http (.evhtpSendReply EVHTP_RES_OK)) :=
        http_once trivial fun _ => http_once trivial fun _ => ok_once
      exact described.map _
  | some errNo => exact (jsonUpload_once _).map _

theorem base64RequestCb_once (saddr : UInt32) :
    RepliesOnce (base64RequestCb inetAton settings req saddr) := by
  refine prepares_once base64Save_prepares fun r => ?_
  cases r with
  | none => exact (jsonUpload_once _).map _
  | some saved => exact (jsonUpload_once _).map _

theorem printHeaders_uses {allowed : HttpOp → Prop}
    (prints : ∀ text, allowed (.evbufferAddPrintf text)) (kvs : Option (List EvhtpKv)) :
    (evhtpKvsForEach kvs printHeaders).Uses allowed := by
  have loop (kvs : List EvhtpKv) : (evhtpKvsLoop printHeaders kvs).Uses allowed := by
    induction kvs with
    | nil => trivial
    | cons kv kvs ih =>
        refine Prog.Uses.bind ?_ fun res => ?_
        · exact uses_http (prints _) fun _ => uses_http (prints _) fun _ =>
            uses_http (prints _) fun _ => uses_http (prints _) fun _ => trivial
        · split
          · trivial
          · exact ih
  cases kvs with
  | none => trivial
  | some kvs => exact loop kvs

theorem dumpRequestCb_once (queryRaw : Option CString) :
    RepliesOnce (dumpRequestCb settings req queryRaw) :=
  http_once trivial fun _ => http_once trivial fun _ =>
    prepares_once (printHeaders_uses (fun _ => trivial) _) fun _ => http_once trivial fun _ =>
      prepares_once (printHeaders_uses (fun _ => trivial) _) fun _ => http_once trivial fun _ =>
        http_once trivial fun _ => ok_once

theorem echoCb_once : RepliesOnce (echoCb settings) :=
  http_once trivial fun _ => http_once trivial fun _ => http_once trivial fun _ => ok_once

theorem visitHandler_once : RepliesOnce (visitHandler inetAton settings visit) := by
  unfold visitHandler
  cases evhtpRequestSetCallbacks visit.request.uriPathFull.bytes with
  | dump => exact (dumpRequestCb_once _).map _
  | echo => exact echoCb_once.map _
  | route r =>
      cases r with
      | upload => exact postRequestCb_once _
      | admin => exact gate_once adminAllowed_once
      | info => exact infoRequestCb_once _
      | base64 => exact base64RequestCb_once _
      | up => exact postUploadRequestCb_once _
      | generic => exact gate_once getAllowed_once

end Ximg
