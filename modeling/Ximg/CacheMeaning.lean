import Ximg.StoreMap

/-!
# What cache entries mean

An entry under an MD5 is the image of that name, and an entry under the key of a request is the body
that the request gets from the image. The image functions keep entries, kept files and the backend
to these meanings as long as re-encoding an image gives the image back.
-/

namespace Ximg
open Text Vfs Calls

variable {Im : Type} {env : Env Im} {settings : Settings} {base : Loc} {w : World}
  {t t' : Tree} {h : Md5} {buff : Bytes} {m : ImageMap} {ops : List StoreOp} {req : ZimgReq}

/-! ## The reply to a request -/

instance : Decidable (scriptType settings req = none) :=
  decidable_of_iff _ Option.isNone_iff_eq_none

def AsksOriginal (settings : Settings) (req : ZimgReq) : Prop :=
  scriptType settings req = none ∧ req.original

instance : Decidable (AsksOriginal settings req) := inferInstanceAs (Decidable (_ ∧ _))

def rendition (settings : Settings) (env : Env Im) (req : ZimgReq) (buff : Bytes) : Option Bytes :=
  (env.lib (.readImageBlob buff)).bind fun im => (converted settings req env im).map Prod.fst

def bodyOf (settings : Settings) (env : Env Im) (req : ZimgReq) (buff : Bytes) : Option Bytes :=
  if AsksOriginal settings req then some buff else rendition settings env req buff

def failureCode (settings : Settings) (env : Env Im) (req : ZimgReq) (buff : Bytes) : Int :=
  if settings.mode = 1 then -1
  else match env.lib (.readImageBlob buff) with
    | none => 0
    | some im => (env.value (convertReq settings im req)).1

instance {thrArg : ThrArg} : Decidable (Connected settings thrArg) :=
  inferInstanceAs (Decidable (_ ∨ _ ∨ _))

/-- The reply that depends on nothing but the stored images. -/
def getReply (settings : Settings) (env : Env Im) (m : ImageMap) (req : ZimgReq)
    (request : EvhtpRequest) : Int × Bytes :=
  if Connected settings req.thrArg then
    match m req.md5 with
    | none => (-1, [])
    | some buff => match bodyOf settings env req buff with
        | some body => (replyCode settings request body,
            if etagMatches settings request body then [] else body)
        | none => (failureCode settings env req buff, [])
  else (-1, [])

theorem getReply_missing {request : EvhtpRequest} (missing : m req.md5 = none) :
    getReply settings env m req request = (-1, []) := by
  simp [getReply, missing]

theorem getReply_body {request : EvhtpRequest} {body : Bytes}
    (connected : Connected settings req.thrArg) (stored : m req.md5 = some buff)
    (made : bodyOf settings env req buff = some body) :
    getReply settings env m req request =
      (replyCode settings request body, if etagMatches settings request body then [] else body) := by
  simp [getReply, connected, stored, made]

theorem getReply_failure {request : EvhtpRequest} (connected : Connected settings req.thrArg)
    (stored : m req.md5 = some buff) (failed : bodyOf settings env req buff = none) :
    getReply settings env m req request = (failureCode settings env req buff, []) := by
  simp [getReply, connected, stored, failed]

def etagHeaders (settings : Settings) (request : EvhtpRequest) (body : Bytes) :
    List (Bytes × Bytes) :=
  if etagMatches settings request body then []
  else if settings.etag = 1 then [(ascii "Etag", md5sum body (Int32.ofNat body.length))] else []

def getHeaders (settings : Settings) (env : Env Im) (m : ImageMap) (req : ZimgReq)
    (request : EvhtpRequest) : List (Bytes × Bytes) :=
  if Connected settings req.thrArg then
    match (m req.md5).bind (bodyOf settings env req) with
    | none => []
    | some body => etagHeaders settings request body
  else []

def World.reply (w : World) : Bytes × List (Bytes × Bytes) := (w.out, w.headersOut)

structure Answered (settings : Settings) (env : Env Im) (m : ImageMap) (req : ZimgReq)
    (request : EvhtpRequest) (held : Bytes × List (Bytes × Bytes)) (r : Int) (w' : World) :
    Prop where
  code : r = (getReply settings env m req request).1
  reply : w'.reply = (held.1 ++ (getReply settings env m req request).2,
    held.2 ++ getHeaders settings env m req request)

namespace Answered
variable {request : EvhtpRequest} {w' : World} {r : Int}

theorem unconnected (unconnected : ¬Connected settings req.thrArg) :
    Answered settings env m req request w.reply (-1) w := by
  constructor <;> simp [getReply, getHeaders, unconnected, World.reply]

theorem missing (missing : m req.md5 = none) (same : w'.reply = w.reply) :
    Answered settings env m req request w.reply (-1) w' := by
  rw [World.reply] at same
  constructor
  · rw [getReply_missing missing]
  · simp [getReply_missing missing, getHeaders, missing, same, World.reply]

theorem failure (connected : Connected settings req.thrArg) (stored : m req.md5 = some buff)
    (failed : bodyOf settings env req buff = none) (code : r = failureCode settings env req buff)
    (same : w'.reply = w.reply) : Answered settings env m req request w.reply r w' := by
  rw [World.reply] at same
  constructor
  · rw [getReply_failure connected stored failed, code]
  · simp [getReply_failure connected stored failed, getHeaders, stored, failed, same, World.reply]

theorem body {body : Bytes} (connected : Connected settings req.thrArg)
    (stored : m req.md5 = some buff) (made : bodyOf settings env req buff = some body)
    (same : w'.reply = w.reply) :
    Answered settings env m req request w.reply (replyCode settings request body)
      (w'.replied settings request body) := by
  obtain ⟨out, headers⟩ := Prod.mk.inj same
  have asked : getHeaders settings env m req request = etagHeaders settings request body := by
    simp [getHeaders, connected, stored, made]
  constructor
  · rw [getReply_body connected stored made]
  · rw [getReply_body connected stored made, asked]
    unfold World.replied etagHeaders
    split
    · simp [World.reply, out, headers]
    · simp [World.reply, World.tagged, out, headers]

theorem fresh (answered : Answered settings env m req request w.reply r w') (empty : w.out = []) :
    (r, w'.out) = getReply settings env m req request := by
  have out : w'.out = w.out ++ _ := (Prod.mk.inj answered.reply).1
  rw [answered.code, out, empty, List.nil_append]

end Answered

/-! ## The requests of a history -/

def IsUpload (ops : List StoreOp) (h : Md5) (buff : Bytes) : Prop :=
  (∃ thrArg, .upload thrArg buff ∈ ops) ∧ md5Of buff = h

def BodyFor (settings : Settings) (env : Env Im) (ops : List StoreOp) (req : ZimgReq) (body : Bytes) :
    Prop :=
  ∃ buff, IsUpload ops req.md5 buff ∧ bodyOf settings env req buff = some body

/-- When the cache cannot be told from the image functions: no two images have the same name, images
are not empty, an image that the disk mode re-encodes comes out as it was, and no two requests with
different bodies share a cache key or, in the disk mode, a file. -/
structure CacheSafe (settings : Settings) (env : Env Im) (ops : List StoreOp) : Prop where
  distinct : ∀ h buff buff', IsUpload ops h buff → IsUpload ops h buff' → buff = buff'
  nonempty : ∀ thrArg buff, .upload thrArg buff ∈ ops → buff ≠ []
  reencoded : settings.mode = 1 → ∀ req request buff im, .get req request ∈ ops →
    ¬AsksOriginal settings req → IsUpload ops req.md5 buff →
    env.lib (.readImageBlob buff) = some im → env.lib (.getImageLength im) < CACHE_MAX_SIZE →
    env.lib (.getImageBlob (env.lib (.resetIterator im))) = some buff
  keys : ∀ req request req' request' buff, .get req request ∈ ops → .get req' request' ∈ ops →
    rspCacheKey settings req = rspCacheKey settings req' → IsUpload ops req.md5 buff →
    bodyOf settings env req buff = bodyOf settings env req' buff
  paths : settings.mode = 1 → ∀ req request req' request' buff, .get req request ∈ ops →
    .get req' request' ∈ ops → rspPath settings req = rspPath settings req' →
    IsUpload ops req.md5 buff → bodyOf settings env req buff = bodyOf settings env req' buff

/-- Nothing fails, and the image library keeps its promises: resetting an iterator twice is
resetting it once, and no blob is empty. -/
structure FaultFree (env : Env Im) : Prop where
  faults : env.faults = .none
  deletes : env.deletes = .reliable
  newWand : env.lib .newWand = true
  reset : ∀ im, env.lib (.resetIterator (env.lib (.resetIterator im))) = env.lib (.resetIterator im)
  blobs : ∀ im, env.lib (.getImageBlob im) ≠ some []

theorem value_reset {α : Type} (free : FaultFree env) (k : Im → Prog (Sys Im) α) (im : Im) :
    env.value (.call (.magick (.resetIterator (env.lib (.resetIterator im)))) k) =
      env.value (.call (.magick (.resetIterator im)) k) :=
  congrArg (fun im => env.value (k im)) (free.reset im)

theorem converted_reset (free : FaultFree env) (im : Im) :
    converted settings req env (env.lib (.resetIterator im)) = converted settings req env im := by
  have same : env.value (convertReq settings (env.lib (.resetIterator im)) req) =
      env.value (convertReq settings im req) := by
    unfold convertReq
    split
    · exact value_reset free _ im
    · exact value_reset free _ im
  unfold converted
  rw [same]

theorem bodyOf_ne_nil (free : FaultFree env) (some_ : buff ≠ []) :
    bodyOf settings env req buff ≠ some [] := by
  unfold bodyOf rendition converted
  split
  · simpa using some_
  · cases env.lib (.readImageBlob buff) with
    | none => simp
    | some im =>
        have some_ := free.blobs (env.value (convertReq settings im req)).2
        dsimp only [Option.bind_some]
        split
        · simp
        · cases encoded : env.lib (.getImageBlob (env.value (convertReq settings im req)).2) with
          | none => simp
          | some blob => simpa [encoded] using some_

/-! ## Honest caches -/

structure HonestCache (settings : Settings) (env : Env Im) (ops : List StoreOp)
    (cache : Bytes → Option Bytes) : Prop where
  images : ∀ h content, cache h.bytes = some content → IsUpload ops h content
  bodies : ∀ req request body, .get req request ∈ ops →
    cache (rspCacheKey settings req) = some body → BodyFor settings env ops req body

namespace HonestCache
variable {cache cache' : Bytes → Option Bytes} {thrArg : ThrArg} {request : EvhtpRequest}

theorem of_empty (empty : ∀ key, cache key = none) : HonestCache settings env ops cache := by
  refine ⟨fun h content held => ?_, fun req request body _ held => ?_⟩ <;>
    rw [empty] at held <;> cases held

theorem missed {key : Bytes} (honest : HonestCache settings env ops cache)
    (missed : Missed settings thrArg key cache cache') : HonestCache settings env ops cache' := by
  rcases missed.change with rfl | rfl
  · exact honest
  · have kept {k v : Bytes} (held : Env.erased cache key k = some v) : cache k = some v := by
      by_cases same : k = key
      · simp [Env.erased, same] at held
      · simpa [Env.erased, same] using held
    exact ⟨fun h content held => honest.images h content (kept held),
      fun req request body member held => honest.bodies req request body member (kept held)⟩

theorem image (honest : HonestCache settings env ops cache) (upload : IsUpload ops h buff)
    (cached : Cached settings thrArg h.bytes buff cache cache') :
    HonestCache settings env ops cache' := by
  rcases cached with rfl | ⟨-, rfl⟩
  · exact honest
  refine ⟨fun k content held => ?_, fun req request body member held => ?_⟩
  · by_cases same : k.bytes = h.bytes
    · rw [same, Env.stored, Function.update_self] at held
      cases held
      rw [Md5.ext_bytes same]
      exact upload
    · rw [Env.stored, Function.update_of_ne same] at held
      exact honest.images k content held
  · by_cases same : rspCacheKey settings req = h.bytes
    · rw [same, Env.stored, Function.update_self] at held
      cases held
      obtain ⟨name, asks⟩ := rspCacheKey_md5 same
      exact ⟨buff, name ▸ upload, if_pos asks⟩
    · rw [Env.stored, Function.update_of_ne same] at held
      exact honest.bodies req request body member held

theorem body (honest : HonestCache settings env ops cache) (safe : CacheSafe settings env ops)
    (member : .get req request ∈ ops) {c : Bytes} (made : BodyFor settings env ops req c)
    (cached : Cached settings thrArg (rspCacheKey settings req) c cache cache') :
    HonestCache settings env ops cache' := by
  rcases cached with rfl | ⟨-, rfl⟩
  · exact honest
  obtain ⟨buff, upload, made⟩ := made
  refine ⟨fun k content held => ?_, fun req' request' body member' held => ?_⟩
  · by_cases same : k.bytes = rspCacheKey settings req
    · rw [same, Env.stored, Function.update_self] at held
      cases held
      obtain ⟨rfl, asks⟩ := rspCacheKey_md5 same.symm
      have whole : bodyOf settings env req buff = some buff := if_pos asks
      rw [whole] at made
      cases made
      exact upload
    · rw [Env.stored, Function.update_of_ne same] at held
      exact honest.images k content held
  · by_cases same : rspCacheKey settings req' = rspCacheKey settings req
    · rw [same, Env.stored, Function.update_self] at held
      cases held
      have name : req'.md5 = req.md5 := rspCacheKey_inj same
      exact ⟨buff, name ▸ upload,
        safe.keys _ _ _ _ _ member member' same.symm upload ▸ made⟩
    · rw [Env.stored, Function.update_of_ne same] at held
      exact honest.bodies req' request' body member' held

end HonestCache

/-! ## Honest stores -/

structure Honest (settings : Settings) (env : Env Im) (ops : List StoreOp) (base : Loc) (w : World)
    (m : ImageMap) : Prop where
  stores : Stores settings base w m
  uploaded : ∀ h buff, m h = some buff → IsUpload ops h buff
  cache : HonestCache settings env ops w.cache
  files : settings.mode = 1 → ∀ req request body, .get req request ∈ ops →
    keptName settings req ≠ ascii "0*0" →
    w.disk.tree.node (keptLoc settings base req) = some (.file body) →
    BodyFor settings env ops req body
  db : settings.mode ≠ 1 → ∀ req request body, .get req request ∈ ops →
    ¬AsksOriginal settings req → w.db (rspCacheKey settings req) = some body →
    BodyFor settings env ops req body

namespace Honest

theorem same {w' : World} (honest : Honest settings env ops base w m)
    (disk : ∀ t n, w.disk = .idle t n → ∃ n', w'.disk = .idle t n') (db : w'.db = w.db)
    (tree : w'.disk.tree = w.disk.tree)
    (cache : HonestCache settings env ops w'.cache) : Honest settings env ops base w' m where
  stores := honest.stores.same disk db
  uploaded := honest.uploaded
  cache := cache
  files mode req request body member other found :=
    honest.files mode req request body member other (tree ▸ found)
  db mode req request body member other found :=
    honest.db mode req request body member other (db ▸ found)

theorem upload_eq (honest : Honest settings env ops base w m) (safe : CacheSafe settings env ops)
    {b : Bytes} (stored : m h = some buff) (upload : IsUpload ops h b) : b = buff :=
  safe.distinct h b buff upload (honest.uploaded h buff stored)

theorem made (honest : Honest settings env ops base w m) (safe : CacheSafe settings env ops)
    {body : Bytes} (stored : m req.md5 = some buff) (made : BodyFor settings env ops req body) :
    bodyOf settings env req buff = some body := by
  obtain ⟨b, upload, made⟩ := made
  rwa [honest.upload_eq safe stored upload] at made

end Honest

end Ximg
