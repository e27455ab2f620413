import Ximg.CacheMeaning
import Ximg.LongPaths

/-!
# The cache cannot be seen

The replies to GETs follow the map of the stored images, whatever the cache holds and drops, so a
history is answered in the same way with and without the cache.
-/

namespace Ximg
open Text Vfs Calls

variable {Im : Type} {env : Env Im} {settings : Settings} {base : Loc} {w : World}
  {t t' : Tree} {n : Nat} {h : Md5} {buff : Bytes} {m : ImageMap} {ops : List StoreOp}
  {req : ZimgReq} {request : EvhtpRequest} {thrArg : ThrArg}

/-! ## The images a reply is made from -/

theorem Holds.lookup_orig (holds : Holds settings base t m)
    (short : settings.imgPath.bytes.length ≤ 254) (stored : m h = some buff) :
    t.lookup (origPath settings h.bytes) = some (.file buff) := by
  rw [holds.shape.lookup_orig short, holds.present h buff stored]

section Get
variable (safe : CacheSafe settings env ops) (free : FaultFree env)
  (member : .get req request ∈ ops)

include safe free member

theorem source_converted {cache : Bytes → Option Bytes} {im : Im} (mode : settings.mode = 1)
    (asks : ¬AsksOriginal settings req) (upload : IsUpload ops req.md5 buff)
    (honest : HonestCache settings env ops w.cache)
    (found : w.disk.tree.lookup (origPath settings req.md5.bytes) = some (.file buff))
    (source : Source settings req env w cache im) :
    (∃ im₀, env.lib (.readImageBlob buff) = some im₀ ∧
      converted settings req env im = converted settings req env im₀) ∧
    HonestCache settings env ops cache := by
  cases source with
  | cached content im on held decoded =>
      have same := safe.distinct _ _ _ (honest.images _ _ held) upload
      exact ⟨⟨im, same ▸ decoded, rfl⟩, honest⟩
  | large content im cache missed found' decoded size =>
      rw [found] at found'
      cases found'
      exact ⟨⟨im, decoded, rfl⟩, honest.missed missed⟩
  | small content im b cache cache' missed found' decoded size encoded cached =>
      rw [found] at found'
      cases found'
      rw [safe.reencoded mode req request buff im member asks upload decoded size] at encoded
      cases encoded
      exact ⟨⟨im, decoded, converted_reset free im⟩, (honest.missed missed).image upload cached⟩

theorem no_image (mode : settings.mode = 1) (asks : ¬AsksOriginal settings req)
    (upload : IsUpload ops req.md5 buff)
    (found : w.disk.tree.lookup (origPath settings req.md5.bytes) = some (.file buff))
    (source : NoSource settings req env w) : env.lib (.readImageBlob buff) = none := by
  cases source with
  | noWand failed => rw [free.newWand] at failed; cases failed
  | noFile missing => exact absurd found (missing buff)
  | undecoded content found' failed =>
      rw [found] at found'
      cases found'
      exact failed
  | unencoded content im found' decoded size failed =>
      rw [found] at found'
      cases found'
      rw [safe.reencoded mode req request buff im member asks upload decoded size] at failed
      cases failed

omit free in
theorem Honest.saved (mode : settings.mode = 1) (short : settings.imgPath.bytes.length ≤ 254)
    (honest : Honest settings env ops base (w.at t n) m) (other : keptName settings req ≠ ascii "0*0")
    {body : Bytes} (made : BodyFor settings env ops req body)
    (sets : t.Sets (keptLoc settings base req) (some (.file body)) t') :
    Honest settings env ops base (w.at t' n) m := by
  obtain ⟨t₁, n₁, idle, holds⟩ := honest.stores.disk mode
  cases idle
  have holds' : Holds settings base t' m := by
    refine ⟨holds.shape.sets sets (keptName_length short req), fun k missing => ?_,
      fun k b stored => ?_⟩
    · rw [sets.other (file_ne_imageDir _)]
      exact holds.absent k missing
    · rw [sets.other fun same => other (List.cons.inj same).1.symm]
      exact holds.present k b stored
  refine ⟨.of_tree mode rfl holds' honest.stores.nonempty, honest.uploaded, honest.cache,
    fun _ req' request' body' member' other' found => ?_, fun mode' => absurd mode mode'⟩
  change t'.node _ = _ at found
  rw [sets.node] at found
  split at found
  · rename_i here
    cases found
    obtain ⟨buff, upload, made⟩ := made
    obtain ⟨name, dir⟩ := List.cons.inj here
    have about : req'.md5 = req.md5 := imageDir_inj dir
    have path : rspPath settings req = rspPath settings req' := by
      rw [rspPath_short short, rspPath_short short, about, name]
    exact ⟨buff, about ▸ upload, safe.paths mode _ _ _ _ _ member member' path upload ▸ made⟩
  · exact honest.files mode req' request' body' member' other' found

theorem wp_getImg_answered (mode : settings.mode = 1) (short : settings.imgPath.bytes.length ≤ 254)
    (honest : Honest settings env ops base w m) :
    env.machine.wp (getImg settings req request) (fun r w' =>
      Answered settings env m req request w.reply r w' ∧ Honest settings env ops base w' m) w := by
  obtain ⟨t, n, idle, holds⟩ := honest.stores.disk mode
  have connected : Connected settings req.thrArg := .inl mode
  have stays {cache : Bytes → Option Bytes} (hc : HonestCache settings env ops cache) (n' : Nat)
      (w' : World) (db : w'.db = w.db) (cached : w'.cache = cache) :
      Honest settings env ops base (w'.at t n') m :=
    honest.same (fun t₁ n₁ idle₁ => ⟨n', by rw [idle] at idle₁; cases idle₁; rfl⟩) db
      (by rw [idle]; rfl) (cached ▸ hc)
  have failed {buff : Bytes} {cache : Bytes → Option Bytes} (stored : m req.md5 = some buff)
      (none_ : bodyOf settings env req buff = none) (hc : HonestCache settings env ops cache)
      (n' : Nat) : Answered settings env m req request w.reply (-1) ((w.caching cache).at t n') ∧
      Honest settings env ops base ((w.caching cache).at t n') m :=
    ⟨.failure connected stored none_ (by rw [failureCode, if_pos mode]) rfl, stays hc n' _ rfl rfl⟩
  have sent {buff body : Bytes} {cache : Bytes → Option Bytes} (stored : m req.md5 = some buff)
      (made : bodyOf settings env req buff = some body) (hc : HonestCache settings env ops cache)
      (n' : Nat) : Answered settings env m req request w.reply (replyCode settings request body)
        (((w.caching cache).replied settings request body).at t n') ∧
      Honest settings env ops base (((w.caching cache).replied settings request body).at t n') m := by
    obtain ⟨code, reply⟩ : Answered settings env m req request w.reply (replyCode settings request body)
        ((w.caching cache).replied settings request body) := .body connected stored made rfl
    exact ⟨⟨code, reply⟩, stays hc n' _ (by rw [World.replied_db]; rfl)
      (by rw [World.replied_cache]; rfl)⟩
  have image (hd : t.node (imageDir base req.md5) = some .dir) : ∃ buff, m req.md5 = some buff :=
    Option.ne_none_iff_exists'.mp (holds.dir_iff.mp hd)
  have file {body : Bytes} (kept : t.node (keptLoc settings base req) = some (.file body)) :
      ∃ buff, m req.md5 = some buff ∧ bodyOf settings env req buff = some body := by
    obtain ⟨buff, stored⟩ := image (Tree.node_parent kept)
    refine ⟨buff, stored, ?_⟩
    by_cases name : keptName settings req = ascii "0*0"
    · rw [keptLoc, name, holds.present _ buff stored] at kept
      cases kept
      exact if_pos ((keptName_eq_original short).mp name)
    · have kept' : w.disk.tree.node (keptLoc settings base req) = some (.file body) := by
        rw [idle]
        exact kept
      exact honest.made safe stored (honest.files mode req request body member name kept')
  rw [World.eq_at idle]
  refine wp_getImg short holds.shape (fun noDir => ?_) (fun body hd _ held => ?_)
    (fun body cache cache' kept some_ missed cached => ?_) (fun cache kept missed => ?_)
    fun cache hd unkept missed => ?_
  · have missing : m req.md5 = none := by
      by_contra present
      exact noDir (holds.dir_iff.mpr present)
    exact ⟨.missing missing rfl, stays honest.cache n w rfl rfl⟩
  · obtain ⟨buff, stored⟩ := image hd
    have made := honest.made safe stored (honest.cache.bodies req request body member held)
    exact sent stored made honest.cache n
  · obtain ⟨buff, stored, made⟩ := file kept
    exact sent stored made ((honest.cache.missed missed).body safe member
      ⟨buff, honest.uploaded _ buff stored, made⟩ cached) (n + 1)
  · obtain ⟨buff, stored, made⟩ := file kept
    exact absurd made (bodyOf_ne_nil free (honest.stores.nonempty _ buff stored))
  · obtain ⟨buff, stored⟩ := image hd
    have upload := honest.uploaded _ buff stored
    have found : t.lookup (origPath settings req.md5.bytes) = some (.file buff) :=
      holds.lookup_orig short stored
    have asks : ¬AsksOriginal settings req := by
      intro asks
      have name := (keptName_eq_original short).mpr asks
      rw [keptLoc, name, holds.present _ buff stored, free.faults] at unkept
      simp [orig_plain, Faults.none] at unkept
    have name : keptName settings req ≠ ascii "0*0" := fun name =>
      asks ((keptName_eq_original short).mp name)
    have hc := honest.cache.missed missed
    refine wp_makeRsp short holds.shape hd (fun cache₁ change none_ => ?_)
      (fun cache₁ im source refused => ?_)
      fun cache₁ cache₂ im body toSave t' n' source made cached saved => ?_
    · have missing := no_image (w := (w.caching cache).at t n) safe free member mode asks upload found none_
      have hc₁ : HonestCache settings env ops cache₁ := by
        rcases change with rfl | missed₁
        · exact hc
        · exact hc.missed missed₁
      exact failed stored (by simp [bodyOf, asks, rendition, missing]) hc₁ n
    · obtain ⟨⟨im₀, decoded, same⟩, hc₁⟩ :=
        source_converted (w := (w.caching cache).at t n) safe free member mode asks upload hc found
          source
      rw [refused] at same
      exact failed stored (by simp [bodyOf, asks, rendition, decoded, ← same]) hc₁ n
    · obtain ⟨⟨im₀, decoded, same⟩, hc₁⟩ :=
        source_converted (w := (w.caching cache).at t n) safe free member mode asks upload hc found
          source
      rw [made] at same
      have result : bodyOf settings env req buff = some body := by
        simp [bodyOf, asks, rendition, decoded, ← same]
      have hc₂ := hc₁.body safe member ⟨buff, upload, result⟩ cached
      obtain ⟨reply, honest'⟩ := sent stored result hc₂ n'
      cases saved with
      | unsaved => exact ⟨reply, honest'⟩
      | partial_ b t' save fault =>
          rw [free.faults] at fault
          simp [Faults.none] at fault
      | saved t' save sets =>
          exact ⟨⟨reply.code, reply.reply⟩,
            honest'.saved safe member mode short name ⟨buff, upload, result⟩ sets⟩

theorem wp_getImg_honest (mode : settings.mode = 1) (short : settings.imgPath.bytes.length ≤ 254)
    (honest : Honest settings env ops base w m) (fresh : w.out = []) :
    env.machine.wp (getImg settings req request) (fun r w' =>
      (r, w'.out) = getReply settings env m req request ∧ Honest settings env ops base w' m) w :=
  Machine.wp_mono (wp_getImg_answered safe free member mode short honest)
    fun _ _ after => ⟨after.1.fresh fresh, after.2⟩

omit free member in
theorem dbSource_image {cache : Bytes → Option Bytes} {content : Bytes}
    (upload : IsUpload ops req.md5 buff) (honest : HonestCache settings env ops w.cache)
    (found : w.db req.md5.bytes = some buff) (source : DbSource settings req w cache content) :
    content = buff ∧ HonestCache settings env ops cache := by
  cases source with
  | cached content on held => exact ⟨safe.distinct _ _ _ (honest.images _ _ held) upload, honest⟩
  | stored content cache cache' missed found' cached =>
      rw [found] at found'
      cases found'
      exact ⟨rfl, (honest.missed missed).image upload cached⟩

omit free in
theorem Honest.savedDb (mode : settings.mode ≠ 1) (honest : Honest settings env ops base w m)
    (asks : ¬AsksOriginal settings req) {body : Bytes} (made : BodyFor settings env ops req body)
    {w' : World} (db : w'.db = Env.stored w.db (rspCacheKey settings req) body)
    (cache : HonestCache settings env ops w'.cache) : Honest settings env ops base w' m := by
  refine ⟨⟨fun mode' => absurd mode' mode, fun _ k => ?_, honest.stores.nonempty⟩, honest.uploaded,
    cache, fun mode' => absurd mode' mode, fun _ req' request' body' member' asks' held => ?_⟩
  · have other : k.bytes ≠ rspCacheKey settings req := fun same => asks (rspCacheKey_md5 same.symm).2
    rw [db, Env.stored, Function.update_of_ne other]
    exact honest.stores.db mode k
  · rw [db, Env.stored] at held
    by_cases same : rspCacheKey settings req' = rspCacheKey settings req
    · rw [same, Function.update_self] at held
      cases held
      obtain ⟨buff, upload, made⟩ := made
      have about : req'.md5 = req.md5 := rspCacheKey_inj same
      exact ⟨buff, about ▸ upload, safe.keys _ _ _ _ _ member member' same.symm upload ▸ made⟩
    · rw [Function.update_of_ne same] at held
      exact honest.db mode req' request' body' member' asks' held

theorem wp_getImgModeDb_answered (mode : settings.mode ≠ 1)
    (honest : Honest settings env ops base w m) :
    env.machine.wp (getImgModeDb settings req request) (fun r w' =>
      Answered settings env m req request w.reply r w' ∧ Honest settings env ops base w' m) w := by
  by_cases backend : Backend settings req.thrArg
  swap
  · rw [getImgModeDb, existDb_unconnected backend, Prog.ret_bind, if_pos rfl]
    have unconnected : ¬Connected settings req.thrArg := fun connected =>
      backend (connected.resolve_left mode)
    exact ⟨.unconnected unconnected, honest⟩
  have connected : Connected settings req.thrArg := .inr backend
  have stays {cache : Bytes → Option Bytes} (hc : HonestCache settings env ops cache) (w' : World)
      (disk : w'.disk = w.disk) (db : w'.db = w.db) (cached : w'.cache = cache) :
      Honest settings env ops base w' m :=
    honest.same (fun t₁ n₁ idle₁ => ⟨n₁, disk.trans idle₁⟩) db (by rw [disk]) (cached ▸ hc)
  have failed {buff : Bytes} {cache : Bytes → Option Bytes} (stored : m req.md5 = some buff)
      (none_ : bodyOf settings env req buff = none) (hc : HonestCache settings env ops cache)
      {r : Int} (code : r = failureCode settings env req buff) :
      Answered settings env m req request w.reply r (w.caching cache) ∧
      Honest settings env ops base (w.caching cache) m :=
    ⟨.failure connected stored none_ code rfl, stays hc _ rfl rfl rfl⟩
  have sent {buff body : Bytes} {cache : Bytes → Option Bytes} (stored : m req.md5 = some buff)
      (made : bodyOf settings env req buff = some body) (hc : HonestCache settings env ops cache) :
      Answered settings env m req request w.reply (replyCode settings request body)
        ((w.caching cache).replied settings request body) ∧
      Honest settings env ops base ((w.caching cache).replied settings request body) m :=
    ⟨.body connected stored made rfl, stays hc _ (by rw [World.replied_disk]; rfl)
      (by rw [World.replied_db]; rfl) (by rw [World.replied_cache]; rfl)⟩
  have held := honest.stores.db mode req.md5
  have image (present : w.db req.md5.bytes ≠ none) : ∃ buff, m req.md5 = some buff := by
    rw [held] at present
    exact Option.ne_none_iff_exists'.mp present
  refine wp_getImgModeDb backend
    (fun _ ignores => absurd ignores (Deletes.not_ignores free.deletes))
    (fun missing => ?_) (fun body present _ hit => ?_)
    (fun body cache cache' present kept missed cached => ?_)
    fun cache present unkept missed => ?_
  · rw [held] at missing
    exact ⟨.missing missing rfl, honest⟩
  · obtain ⟨buff, stored⟩ := image present
    have made := honest.made safe stored (honest.cache.bodies req request body member hit)
    exact sent stored made honest.cache
  · obtain ⟨buff, stored⟩ := image present
    have made : bodyOf settings env req buff = some body := by
      by_cases asks : AsksOriginal settings req
      · rw [rspCacheKey_original asks.1 asks.2, held, stored] at kept
        cases kept
        exact if_pos asks
      · exact honest.made safe stored (honest.db mode req request body member asks kept)
    exact sent stored made ((honest.cache.missed missed).body safe member
      ⟨buff, honest.uploaded _ buff stored, made⟩ cached)
  · obtain ⟨buff, stored⟩ := image present
    have upload := honest.uploaded _ buff stored
    have found : w.db req.md5.bytes = some buff := held.trans stored
    have asks : ¬AsksOriginal settings req := by
      intro asks
      rw [rspCacheKey_original asks.1 asks.2, found] at unkept
      cases unkept
    have hc := honest.cache.missed missed
    have source {cache₁ : Bytes → Option Bytes} {content : Bytes}
        (from_ : DbSource settings req (w.caching cache) cache₁ content) :
        content = buff ∧ HonestCache settings env ops cache₁ :=
      dbSource_image (w := w.caching cache) safe upload hc found from_
    refine wp_makeRspDb backend (fun cache₁ _ none_ => ?_) (fun cache₁ content from_ none_ => ?_)
      (fun cache₁ content im from_ decoded refused => ?_)
      fun cache₁ cache₂ content im body toSave db from_ decoded made cached saved => ?_
    · rcases none_ with noWand | missing
      · rw [free.newWand] at noWand
        cases noWand
      · exact absurd missing present
    · obtain ⟨rfl, hc₁⟩ := source from_
      exact failed stored (by simp [bodyOf, asks, rendition, none_]) hc₁
        (by simp [failureCode, mode, none_])
    · obtain ⟨rfl, hc₁⟩ := source from_
      exact failed stored (by simp [bodyOf, asks, rendition, decoded, refused]) hc₁
        (by simp [failureCode, mode, decoded])
    · obtain ⟨rfl, hc₁⟩ := source from_
      have result : bodyOf settings env req content = some body := by
        simp [bodyOf, asks, rendition, decoded, made]
      have hc₂ := hc₁.body safe member ⟨content, upload, result⟩ cached
      obtain ⟨reply, honest'⟩ := sent stored result hc₂
      refine ⟨⟨reply.code, reply.reply⟩, ?_⟩
      rcases saved with rfl | ⟨-, rfl⟩
      · exact honest'.same (fun t₁ n₁ idle₁ => ⟨n₁, idle₁⟩) (by rw [World.replied_db]; rfl) rfl
          honest'.cache
      · exact honest.savedDb safe member mode asks ⟨content, upload, result⟩ rfl honest'.cache

theorem wp_getImgModeDb_honest (mode : settings.mode ≠ 1)
    (honest : Honest settings env ops base w m) (fresh : w.out = []) :
    env.machine.wp (getImgModeDb settings req request) (fun r w' =>
      (r, w'.out) = getReply settings env m req request ∧ Honest settings env ops base w' m) w :=
  Machine.wp_mono (wp_getImgModeDb_answered safe free member mode honest)
    fun _ _ after => ⟨after.1.fresh fresh, after.2⟩

end Get

/-! ## The other operations -/

instance : Decidable (Storable settings h) := inferInstanceAs (Decidable (_ → _))

def ImageMap.next (settings : Settings) (m : ImageMap) : StoreOp → ImageMap
  | .upload thrArg buff =>
      if Connected settings thrArg ∧ Storable settings (md5Of buff) then m.insertNew (md5Of buff) buff
      else m
  | .admin thrArg md5 t => if Connected settings thrArg ∧ t = 1 then m.remove md5 else m
  | .get _ _ | .info _ _ => m

theorem ImageMap.remove_absent (absent : m h = none) : m.remove h = m := by
  rw [ImageMap.remove, ← absent, Function.update_eq_self]

def Answers (settings : Settings) (env : Env Im) (m : ImageMap) : StoreOp → Int × Bytes → Prop
  | .get req request, reply => reply = getReply settings env m req request
  | .upload _ _, _ | .info _ _, _ | .admin _ _ _, _ => True

section Steps
variable (safe : CacheSafe settings env ops) (free : FaultFree env)
  (short : settings.mode = 1 → settings.imgPath.bytes.length ≤ 254)

theorem Honest.uploads {w' : World} {m' : ImageMap} (honest : Honest settings env ops base w m)
    (files : Uploaded base h w w') (cache : HonestCache settings env ops w'.cache)
    (stores : Stores settings base w' m') (uploads : ∀ k b, m' k = some b → IsUpload ops k b) :
    Honest settings env ops base w' m' := by
  refine ⟨stores, uploads, cache, fun mode req request body member other found => ?_,
    fun mode req request body member asks held => ?_⟩
  · rw [keptLoc, files.file _ _ other] at found
    exact honest.files mode req request body member other found
  · have other : rspCacheKey settings req ≠ h.bytes := fun same => asks (rspCacheKey_md5 same).2
    rw [files.db _ other] at held
    exact honest.db mode req request body member asks held

include safe free short in
theorem wp_saveImg_honest (honest : Honest settings env ops base w m)
    (member : .upload thrArg buff ∈ ops) :
    env.machine.wp (saveImg settings thrArg buff) (fun _ w' =>
      Honest settings env ops base w' (m.next settings (.upload thrArg buff))) w := by
  have upload : IsUpload ops (md5Of buff) buff := ⟨⟨thrArg, member⟩, rfl⟩
  by_cases connected : Connected settings thrArg
  · refine Machine.wp_mono (wp_saveImg short free.faults free.deletes connected
      (safe.nonempty thrArg buff member) honest.stores) ?_
    rintro r w' ⟨-, files, cached, stored, full⟩
    have cache := honest.cache.image upload cached
    rw [ImageMap.next]
    by_cases room : Storable settings (md5Of buff)
    · rw [if_pos ⟨connected, room⟩]
      refine honest.uploads files cache (stored room).2 fun k b found => ?_
      unfold ImageMap.insertNew at found
      split at found
      · exact honest.uploaded k b found
      · by_cases same : k = md5Of buff
        · subst same
          rw [Function.update_self] at found
          cases found
          exact upload
        · rw [Function.update_of_ne same] at found
          exact honest.uploaded k b found
    · rw [if_neg fun both => room both.2]
      exact honest.uploads files cache (full room) honest.uploaded
  · rw [ImageMap.next, if_neg fun both => connected both.1]
    rw [Connected, not_or] at connected
    unfold saveImg
    dsimp only
    rw [if_pos connected.1, saveImgModeDb, existDb_unconnected connected.2]
    simp only [Prog.ret_bind]
    rw [if_neg (by decide), saveImgDb_unconnected connected.2]
    exact honest

include free short in
theorem wp_callAdminImg_honest {cmd : Int32} (honest : Honest settings env ops base w m) :
    env.machine.wp (callAdminImg settings thrArg h.bytes cmd) (fun _ w' =>
      Honest settings env ops base w' (m.next settings (.admin thrArg h cmd))) w := by
  by_cases connected : Connected settings thrArg
  · refine wp_callAdminImg short free.deletes connected honest.stores (fun missing => ?_)
      (fun _ other => ?_) fun w' present isDelete cached _ shrunk stores => ?_
    · rw [ImageMap.next, ImageMap.remove_absent missing, ite_self]
      exact honest
    · rw [ImageMap.next, if_neg fun both => other both.2]
      exact honest
    · rw [ImageMap.next, if_pos ⟨connected, isDelete⟩]
      refine ⟨stores.same (fun t n idle => ⟨n, idle⟩) rfl, fun k b found => ?_, ?_, ?_, ?_⟩
      · refine honest.uploaded k b ?_
        by_cases same : k = h
        · subst same
          simp [ImageMap.remove] at found
        · rwa [ImageMap.remove, Function.update_of_ne same] at found
      · change HonestCache settings env ops w'.cache
        rw [cached]
        exact honest.cache
      · exact fun mode req request body member other found =>
          honest.files mode req request body member other (shrunk.node _ _ found)
      · exact fun mode req request body member asks held =>
          honest.db mode req request body member asks (shrunk.db _ _ held)
  · rw [ImageMap.next, if_neg fun both => connected both.1]
    rw [Connected, not_or] at connected
    rw [callAdminImg, if_neg connected.1, adminImgModeDb, h.strLcpy,
      existDb_unconnected connected.2]
    exact honest

theorem wp_callInfoImg_honest (honest : Honest settings env ops base w m) :
    env.machine.wp (callInfoImg settings thrArg h.bytes) (fun _ w' =>
      Honest settings env ops base w' m) w := by
  have shown (out : Bytes) : Honest settings env ops base { w with out := out } m :=
    honest.same (fun t n idle => ⟨n, idle⟩) rfl rfl honest.cache
  unfold callInfoImg
  split
  · exact wp_infoImg_dir (fun _ => honest) fun r out _ => shown out
  · by_cases backend : Backend settings thrArg
    · exact wp_infoImgModeDb backend (fun _ => honest) fun r out _ => shown out
    · rw [infoImgModeDb, getImgDb_unconnected backend]
      exact honest

include safe free short in
theorem wp_handle_honest {op : StoreOp} (member : op ∈ ops)
    (honest : Honest settings env ops base w m) :
    env.machine.wp (handle settings op) (fun reply w' => Answers settings env m op reply ∧
      Honest settings env ops base w' (m.next settings op)) w := by
  have asked : Honest settings env ops base w.requested m :=
    honest.same (fun t n idle => ⟨n, idle⟩) rfl rfl honest.cache
  cases op with
  | upload thrArg buff =>
      exact Machine.wp_mono (wp_saveImg_honest safe free short honest member)
        fun _ _ after => ⟨trivial, after⟩
  | get req request =>
      rw [handle, wp_replying]
      unfold callGetImg
      split
      · rename_i mode
        exact wp_getImg_honest safe free member mode (short mode) asked rfl
      · rename_i mode
        exact wp_getImgModeDb_honest safe free member mode asked rfl
  | info thrArg md5 =>
      rw [handle, wp_replying]
      exact Machine.wp_mono (wp_callInfoImg_honest asked) fun _ _ after => ⟨trivial, after⟩
  | admin thrArg md5 cmd =>
      rw [handle, wp_replying]
      exact Machine.wp_mono (wp_callAdminImg_honest free short asked)
        fun _ _ after => ⟨trivial, after⟩

end Steps

/-! ## Without room for images -/

structure Deaf (settings : Settings) (base : Loc) (w : World) : Prop where
  disk : ∃ t n, w.disk = .idle t n ∧ (settings.imgPath.bytes.length ≤ 509 → Flat settings base t) ∧
    (509 < settings.imgPath.bytes.length → Quiet settings w.cache t)

section Deaf
variable (mode : settings.mode = 1) (long : 254 < settings.imgPath.bytes.length)

include mode long

theorem not_storable (h : Md5) : ¬Storable settings h := by
  intro room
  have fits := room mode
  simp only [Fits, levels, pathLen_cons, pathLen_nil] at fits
  omega

theorem next_empty (op : StoreOp) : ImageMap.empty.next settings op = .empty := by
  cases op with
  | upload thrArg buff => exact if_neg fun both => not_storable mode long _ both.2
  | get req request => rfl
  | info thrArg md5 => rfl
  | admin thrArg md5 t =>
      rw [ImageMap.next, ImageMap.remove_absent rfl, ite_self]

theorem wp_handle_deaf (calm : env.faults = .none) (op : StoreOp) (deaf : Deaf settings base w) :
    env.machine.wp (handle settings op) (fun reply w' =>
      Answers settings env .empty op reply ∧ Deaf settings base w') w := by
  obtain ⟨t, n, idle, flat, quiet⟩ := deaf
  have nothing (req : ZimgReq) (request : EvhtpRequest) :
      getReply settings env .empty req request = (-1, []) := getReply_missing rfl
  by_cases cuts : settings.imgPath.bytes.length ≤ 509
  · have stays (w' : World) {t' : Tree} (n' : Nat) (flat' : Flat settings base t') :
        Deaf settings base (w'.at t' n') := ⟨t', n', rfl, fun _ => flat', fun full => by omega⟩
    have flat := flat cuts
    cases op with
    | upload thrArg buff =>
        rw [handle, saveImg]
        dsimp only
        rw [if_neg (by simp [mode]), Machine.wp_bind, World.eq_at idle]
        refine Machine.wp_mono (wp_saveImgModeDisk_long (h := md5Of buff) long cuts flat) ?_
        rintro r _ ⟨⟨t', n', cache, rfl, flat'⟩, -⟩
        exact ⟨trivial, stays (w.caching cache) n' flat'⟩
    | get req request =>
        rw [handle, wp_replying, callGetImg, if_pos mode, World.eq_at idle, World.requested_at,
          wp_getImg_long cuts flat]
        exact ⟨(nothing req request).symm, stays _ n flat⟩
    | info thrArg md5 =>
        rw [handle, wp_replying, callInfoImg, if_pos mode, World.eq_at idle, World.requested_at,
          wp_infoImg_long cuts flat]
        exact ⟨trivial, stays _ n flat⟩
    | admin thrArg md5 cmd =>
        rw [handle, wp_replying, callAdminImg, if_pos mode, World.eq_at idle, World.requested_at,
          wp_adminImg_long cuts flat]
        exact ⟨trivial, stays _ n flat⟩
  · have full : 509 < settings.imgPath.bytes.length := by omega
    have stays {w' : World} {t' : Tree} {n' : Nat} (idle' : w'.disk = .idle t' n')
        (quiet' : Quiet settings w'.cache t') : Deaf settings base w' :=
      ⟨t', n', idle', fun cuts' => absurd cuts' cuts, fun _ => quiet'⟩
    have quiet := quiet full
    cases op with
    | upload thrArg buff =>
        rw [handle, saveImg]
        dsimp only
        rw [if_neg (by simp [mode]), Machine.wp_bind, World.eq_at idle]
        refine Machine.wp_mono (wp_saveImgModeDisk_full (h := md5Of buff) full calm quiet) ?_
        rintro r w' ⟨t', n', idle', quiet'⟩
        exact ⟨trivial, stays idle' quiet'⟩
    | get req request =>
        rw [handle, wp_replying, callGetImg, if_pos mode, World.eq_at idle, World.requested_at]
        refine Machine.wp_mono (wp_getImg_full full calm (w := w.requested) quiet) ?_
        rintro r w' ⟨rfl, out, n', idle', quiet'⟩
        refine ⟨?_, stays idle' quiet'⟩
        rw [Answers, nothing, out]
        rfl
    | info thrArg md5 =>
        rw [handle, wp_replying, callInfoImg, if_pos mode]
        exact wp_infoImg_dir (fun _ => ⟨trivial, stays idle quiet⟩)
          fun r out _ => ⟨trivial, stays idle quiet⟩
    | admin thrArg md5 cmd =>
        rw [handle, wp_replying, callAdminImg, if_pos mode, World.eq_at idle, World.requested_at]
        refine Machine.wp_mono (wp_adminImg_full full (w := w.requested) quiet) ?_
        rintro r w' ⟨t', n', idle', quiet'⟩
        exact ⟨trivial, stays idle' quiet'⟩

end Deaf

/-! ## Whole histories -/

theorem Fresh.honest (fresh : Fresh settings base w) (cold : ∀ key, w.cache key = none) :
    Honest settings env ops base w .empty := by
  refine ⟨fresh.stores, fun h b found => ?_, .of_empty cold, fun mode req request body _ _ found => ?_,
    fun mode req request body _ _ held => ?_⟩
  · cases found
  · obtain ⟨t, n, idle, -, leaf⟩ := fresh.disk mode
    rw [idle] at found
    change t.node (keptName settings req :: levels req.md5 ++ base) = _ at found
    rw [Tree.node_under_leaf leaf] at found
    cases found
  · rw [fresh.db mode] at held
    cases held

theorem Fresh.deaf (mode : settings.mode = 1) (fresh : Fresh settings base w)
    (cold : ∀ key, w.cache key = none) : Deaf settings base w := by
  obtain ⟨t, n, idle, resolved, leaf⟩ := fresh.disk mode
  exact ⟨t, n, idle, fun _ => .of_empty resolved leaf, fun _ => .inl cold⟩

def Follows (settings : Settings) (env : Env Im) (ops : List StoreOp) (m : ImageMap) (op : StoreOp)
    (reply : Int × Bytes) : Prop :=
  Answers settings env m op reply ∧ ∀ h buff, m h = some buff → IsUpload ops h buff

theorem replies_follow (safe : CacheSafe settings env ops) (free : FaultFree env)
    (fresh : Fresh settings base w) (cold : ∀ key, w.cache key = none) {w' : World}
    {history : List (StoreOp × (Int × Bytes))}
    (run : Serves (fun _ => env.machine) (handle settings) w history w')
    (within : ∀ x ∈ history, x.1 ∈ ops) :
    Tracked (ImageMap.next settings) (Follows settings env ops) .empty history := by
  by_cases deaf : settings.mode = 1 ∧ 254 < settings.imgPath.bytes.length
  · obtain ⟨mode, long⟩ := deaf
    refine run.tracked (P := fun _ => True) (R := fun w m => m = .empty ∧ Deaf settings base w) ?_
      (fun _ _ => trivial) ⟨rfl, fresh.deaf mode cold⟩
    rintro op s _ - ⟨rfl, deaf⟩
    refine Machine.wp_mono (wp_handle_deaf mode long free.faults op deaf) ?_
    rintro reply s' ⟨answers, deaf'⟩
    exact ⟨⟨answers, fun _ _ found => by cases found⟩, next_empty mode long op, deaf'⟩
  · have short (mode : settings.mode = 1) : settings.imgPath.bytes.length ≤ 254 := by
      by_contra long
      exact deaf ⟨mode, by omega⟩
    refine run.tracked (P := (· ∈ ops)) (R := Honest settings env ops base) ?_ within
      (fresh.honest cold)
    intro op s m member honest
    exact Machine.wp_mono (wp_handle_honest safe free short member honest)
      fun reply s' after => ⟨⟨after.1, honest.uploaded⟩, after.2⟩

def Settings.withCache (settings : Settings) (cacheOn : Int32) : Settings :=
  { settings with cacheOn := cacheOn }

/-- GETs are answered in the same way, and those for originals with the uploaded bytes. -/
structure Transparent (settings : Settings) (ops : List StoreOp)
    (on off : List (StoreOp × (Int × Bytes))) : Prop where
  gets : List.Forall₂ (fun x y => x.1 = y.1 ∧ ∀ req request, x.1 = .get req request → x.2 = y.2)
    on off
  originals : ∀ x ∈ on, ∀ req request, x.1 = .get req request → AsksOriginal settings req →
    x.2.1 = 1 → IsUpload ops req.md5 x.2.2

theorem Follows.original {reply : Int × Bytes}
    (follows : Follows settings env ops m (.get req request) reply)
    (asks : AsksOriginal settings req) (sent : reply.1 = 1) : IsUpload ops req.md5 reply.2 := by
  obtain ⟨answer, uploads⟩ := follows
  change reply = getReply settings env m req request at answer
  unfold getReply at answer
  split at answer
  swap
  · simp [answer] at sent
  cases stored : m req.md5 with
  | none => simp [answer, stored] at sent
  | some buff =>
      have body : bodyOf settings env req buff = some buff := if_pos asks
      simp only [stored, body] at answer
      cases matched : etagMatches settings request buff with
      | true => simp [answer, replyCode, matched] at sent
      | false =>
          rw [answer, matched]
          exact uploads _ _ stored

theorem cache_transparent (settings : Settings) (env : Env Im) (base : Loc) (w w₁ w₀ : World)
    (ops : List StoreOp) (on off : List (StoreOp × (Int × Bytes)))
    (safe : CacheSafe settings env ops) (free : FaultFree env) (fresh : Fresh settings base w)
    (cold : ∀ key, w.cache key = none)
    (runOn : Serves (fun _ => env.machine) (handle (settings.withCache 1)) w on w₁)
    (runOff : Serves (fun _ => env.machine) (handle (settings.withCache 0)) w off w₀)
    (sameOn : on.map Prod.fst = ops) (sameOff : off.map Prod.fst = ops) :
    Transparent settings ops on off := by
  have within {history : List (StoreOp × (Int × Bytes))} (same : history.map Prod.fst = ops) :
      ∀ x ∈ history, x.1 ∈ ops := fun x member => same ▸ List.mem_map_of_mem member
  have safe_ (on : Int32) : CacheSafe (settings.withCache on) env ops :=
    ⟨safe.1, safe.2, safe.3, safe.4, safe.5⟩
  have followsOn : Tracked (ImageMap.next settings) (Follows settings env ops) .empty on :=
    replies_follow (safe_ 1) free ⟨fresh.1, fresh.2⟩ cold runOn (within sameOn)
  have followsOff : Tracked (ImageMap.next settings) (Follows settings env ops) .empty off :=
    replies_follow (safe_ 0) free ⟨fresh.1, fresh.2⟩ cold runOff (within sameOff)
  constructor
  · refine followsOn.agree (E := fun op a b => ∀ req request, op = .get req request → a = b) ?_
      followsOff (sameOn.trans sameOff.symm)
    intro m op a a' first second req request same
    subst same
    exact first.1.trans second.1.symm
  · intro x member req request same asks sent
    obtain ⟨m, follows⟩ := followsOn.answer
      (H := fun op reply => ∃ m, Follows settings env ops m op reply)
      (fun m _ _ follows => ⟨m, follows⟩) x member
    rw [same] at follows
    exact follows.original asks sent

/-! ## An original after a rendition -/

def renderedOps : List StoreOp := [smallUpload, smallGet 5, smallGet 0]

def faithfulEnv : Env Bytes :=
  { smallEnv (fun im => if im = [] then none else some im) with evicts := true }

theorem faithful_safe : CacheSafe (smallSettings 1 0) faithfulEnv renderedOps := by
  have single {h : Md5} {b : Bytes} (upload : IsUpload renderedOps h b) : b = ascii "a" := by
    obtain ⟨⟨thrArg, member⟩, -⟩ := upload
    simp only [renderedOps, smallUpload, smallGet, List.mem_cons, StoreOp.upload.injEq, reduceCtorEq,
      List.not_mem_nil, or_false] at member
    exact member.2
  have width {req : ZimgReq} {request : EvhtpRequest} (member : .get req request ∈ renderedOps) :
      req = smallReq (md5Of (ascii "a")) 5 ∨ req = smallReq (md5Of (ascii "a")) 0 := by
    simp only [renderedOps, smallUpload, smallGet, List.mem_cons, StoreOp.get.injEq, reduceCtorEq,
      List.not_mem_nil, or_false, false_or] at member
    exact member.imp And.left And.left
  refine ⟨fun h b b' first second => (single first).trans (single second).symm,
    fun thrArg b member => ?_, fun _ req request b im _ _ upload decoded _ => ?_,
    fun req request req' request' b member member' same upload => ?_,
    fun _ req request req' request' b member member' same upload => ?_⟩
  · rw [single ⟨⟨thrArg, member⟩, rfl⟩]
    decide
  · rw [single upload] at decoded ⊢
    cases decoded
    rfl
  · rcases width member with rfl | rfl <;> rcases width member' with rfl | rfl
    · rfl
    · exact absurd same (by decide +kernel)
    · exact absurd same (by decide +kernel)
    · rfl
  · rcases width member with rfl | rfl <;> rcases width member' with rfl | rfl
    · rfl
    · exact absurd same (by decide +kernel)
    · exact absurd same (by decide +kernel)
    · rfl

theorem faithful_free : FaultFree faithfulEnv := by
  refine ⟨rfl, rfl, rfl, fun _ => rfl, fun im => ?_⟩
  change (if im = [] then none else some im) ≠ some []
  split
  · simp
  · simpa using by assumption

theorem cache_transparent_small : ∃ on off : List (StoreOp × (Int × Bytes)),
    on.map Prod.fst = renderedOps ∧ off.map Prod.fst = renderedOps ∧
    Transparent (smallSettings 1 0) renderedOps on off := by
  obtain ⟨on, w₁, runOn, sameOn⟩ := serves_exists (M := fun _ => faithfulEnv.machine)
    (fun _ => faithfulEnv.answers) (handle ((smallSettings 1 0).withCache 1)) smallWorld renderedOps
  obtain ⟨off, w₀, runOff, sameOff⟩ := serves_exists (M := fun _ => faithfulEnv.machine)
    (fun _ => faithfulEnv.answers) (handle ((smallSettings 1 0).withCache 0)) smallWorld renderedOps
  exact ⟨on, off, sameOn, sameOff, cache_transparent _ _ [ascii "img"] _ _ _ _ _ _ faithful_safe
    faithful_free (smallWorld_fresh 1 0) (fun _ => rfl) runOn runOff sameOn sameOff⟩

def lossyEnv : Env Bytes := { smallEnv (fun im => some (im ++ [0])) with evicts := true }

def evictAll : World → (op : SysOp Bytes) → op.Res
  | _, .memcached .cache (.get _) => none
  | w, op => lossyEnv.calm w op

theorem evictAll_legal (w : World) (op : SysOp Bytes) :
    lossyEnv.machine.Legal w op (evictAll w op) := by
  unfold evictAll
  split
  · exact .inr ⟨rfl, rfl⟩
  · exact .inl rfl

def lossyRun (answer : World → (op : SysOp Bytes) → op.Res) (cacheOn : Int32) (op : StoreOp)
    (w : World) : (Int × Bytes) × World :=
  lossyEnv.machine.exec answer (handle ((smallSettings 1 0).withCache cacheOn) op) w

def lossyWorld (answer : World → (op : SysOp Bytes) → op.Res) (cacheOn : Int32) : World :=
  (lossyRun answer cacheOn (smallGet 5) (lossyRun lossyEnv.calm cacheOn smallUpload smallWorld).2).2

def lossyHistory (answer : World → (op : SysOp Bytes) → op.Res) (cacheOn : Int32) :
    List (StoreOp × (Int × Bytes)) :=
  [(smallUpload, (lossyRun lossyEnv.calm cacheOn smallUpload smallWorld).1),
    (smallGet 5, (lossyRun answer cacheOn (smallGet 5)
      (lossyRun lossyEnv.calm cacheOn smallUpload smallWorld).2).1),
    (smallGet 0, (lossyRun lossyEnv.calm cacheOn (smallGet 0) (lossyWorld answer cacheOn)).1)]

theorem lossyHistory_serves {answer : World → (op : SysOp Bytes) → op.Res}
    (legal : ∀ w op, lossyEnv.machine.Legal w op (answer w op)) (cacheOn : Int32) :
    ∃ w', Serves (fun _ => lossyEnv.machine) (handle ((smallSettings 1 0).withCache cacheOn))
      smallWorld (lossyHistory answer cacheOn) w' := by
  have calm (w : World) (op : SysOp Bytes) : lossyEnv.machine.Legal w op (lossyEnv.calm w op) :=
    Or.inl rfl
  exact ⟨_, .cons (Machine.exec_runs calm _ _) (.cons (Machine.exec_runs legal _ _)
    (.cons (Machine.exec_runs calm _ _) (.nil _)))⟩

/-- The conversion put the image that was encoded again under the name of the original. -/
theorem cache_reencodes : ¬∀ (on off : List (StoreOp × (Int × Bytes))) (w₁ w₀ : World),
    Serves (fun _ => lossyEnv.machine) (handle ((smallSettings 1 0).withCache 1)) smallWorld on w₁ →
    Serves (fun _ => lossyEnv.machine) (handle ((smallSettings 1 0).withCache 0)) smallWorld off
      w₀ →
    on.map Prod.fst = renderedOps → off.map Prod.fst = renderedOps →
    Transparent (smallSettings 1 0) renderedOps on off := by
  intro transparent
  obtain ⟨w₁, runOn⟩ := lossyHistory_serves evictAll_legal 1
  obtain ⟨w₀, runOff⟩ := lossyHistory_serves evictAll_legal 0
  have gets := (transparent _ _ w₁ w₀ runOn runOff rfl rfl).gets
  rcases gets with _ | ⟨-, _ | ⟨-, _ | ⟨last, -⟩⟩⟩
  have same := last.2 (smallReq (md5Of (ascii "a")) 0) smallRequest rfl
  revert same
  decide +kernel

end Ximg
