import Ximg.Conversion
import Ximg.Layout

/-!
# The database modes

What the image functions of the database modes do when the thread is connected to its backend.
-/

namespace Ximg
open Text Vfs Calls

variable {Im : Type} {env : Env Im} {settings : Settings} {thrArg : ThrArg} {w : World} {h : Md5}

theorem wp_saveImgModeDb (backend : Backend settings thrArg) {key buff : Bytes}
    {Q : Int → World → Prop} :
    env.machine.wp (saveImgModeDb settings thrArg key buff) Q w ↔
      Q 1 (if (w.db key).isSome then w else { w with db := Env.stored w.db key buff }) ∧
        (settings.mode = 3 → env.deletes.ignores = true →
          Q 1 { w with db := Env.stored w.db key buff, crashed := true }) := by
  rw [saveImgModeDb, Machine.wp_bind, wp_existDb backend]
  cases w.db key with
  | some value => simp [Machine.wp_bind, wp_saveImgDb backend]
  | none => simp [Machine.wp_bind, wp_saveImgDb backend]

section Get
variable {req : ZimgReq} {request : EvhtpRequest} {Q : Int → World → Prop}

theorem wp_respondDb_kept {buff : Bytes} :
    env.machine.wp (respondDb settings req request buff false) Q w ↔
      Q (replyCode settings request buff) (w.replied settings request buff) := by
  have noSave : (saveRspDb settings req false buff : Prog (Sys Im) Unit) = pure () := by
    simp [saveRspDb, saveNew]
  have same : (respondDb settings req request buff false : Prog (Sys Im) Int) =
      respond settings request buff := by
    simp only [respondDb, respond, noSave, pure_bind]
  rw [same, wp_respond]

theorem wp_getImgModeDb (backend : Backend settings req.thrArg)
    (unheard : settings.mode = 3 → env.deletes.ignores = true → Q (-1) { w with crashed := true })
    (missing : w.db req.md5.bytes = none → Q (-1) w)
    (hit : ∀ buff, w.db req.md5.bytes ≠ none → Caching settings req.thrArg →
      w.cache (rspCacheKey settings req) = some buff →
      Q (replyCode settings request buff) (w.replied settings request buff))
    (held : ∀ buff cache cache', w.db req.md5.bytes ≠ none →
      w.db (rspCacheKey settings req) = some buff →
      Missed settings req.thrArg (rspCacheKey settings req) w.cache cache →
      Cached settings req.thrArg (rspCacheKey settings req) buff cache cache' →
      Q (replyCode settings request buff) ((w.caching cache').replied settings request buff))
    (made : ∀ cache, w.db req.md5.bytes ≠ none → w.db (rspCacheKey settings req) = none →
      Missed settings req.thrArg (rspCacheKey settings req) w.cache cache →
      env.machine.wp (makeRspDb settings req request (rspCacheKey settings req)) Q
        (w.caching cache)) :
    env.machine.wp (getImgModeDb settings req request) Q w := by
  rw [getImgModeDb, Machine.wp_bind, wp_existDb backend]
  refine ⟨?_, unheard⟩
  cases stored : w.db req.md5.bytes with
  | none => simpa using missing stored
  | some origBuff =>
      have present : w.db req.md5.bytes ≠ none := by simp [stored]
      rw [Option.isSome_some, if_pos rfl, if_neg (by decide), Machine.wp_bind]
      refine wp_findCacheBin (fun cache missed => ?_) fun buff caching found => ?_
      · dsimp only
        rw [Machine.wp_bind, wp_getImgDb backend, World.caching_db]
        cases kept : w.db (rspCacheKey settings req) with
        | none => exact made cache present kept missed
        | some buff =>
            dsimp only
            rw [Machine.wp_bind]
            refine wp_cacheImg fun cache' cached => ?_
            rw [wp_respondDb_kept]
            exact held buff cache cache' present kept missed cached
      · dsimp only
        rw [wp_respondDb_kept]
        exact hit buff present caching found

inductive DbSource (settings : Settings) (req : ZimgReq) (w : World) :
    (Bytes → Option Bytes) → Bytes → Prop where
  | cached (content : Bytes) (on : Caching settings req.thrArg)
      (held : w.cache req.md5.bytes = some content) : DbSource settings req w w.cache content
  | stored (content : Bytes) (cache cache' : Bytes → Option Bytes)
      (missed : Missed settings req.thrArg req.md5.bytes w.cache cache)
      (found : w.db req.md5.bytes = some content)
      (cached : Cached settings req.thrArg req.md5.bytes content cache cache') :
      DbSource settings req w cache' content

theorem wp_loadOrigDb (backend : Backend settings req.thrArg) {Q : Option Bytes → World → Prop}
    (failed : ∀ cache, Missed settings req.thrArg req.md5.bytes w.cache cache →
      w.db req.md5.bytes = none → Q none (w.caching cache))
    (loaded : ∀ cache content, DbSource settings req w cache content →
      Q (some content) (w.caching cache)) :
    env.machine.wp (loadOrigDb settings req) Q w := by
  rw [loadOrigDb, Machine.wp_bind]
  refine wp_findCacheBin (fun cache missed => ?_) fun content on held => ?_
  · dsimp only
    rw [Machine.wp_bind, wp_getImgDb backend, World.caching_db]
    cases found : w.db req.md5.bytes with
    | none => exact failed cache missed found
    | some content =>
        dsimp only
        rw [Machine.wp_bind]
        exact wp_cacheImg fun cache' cached =>
          loaded cache' content (.stored content cache cache' missed found cached)
  · exact loaded w.cache content (.cached content on held)

def RspSavedDb (settings : Settings) (req : ZimgReq) (key buff : Bytes) (toSave : Bool)
    (db db' : Bytes → Option Bytes) : Prop :=
  db' = db ∨ (saveNew settings req toSave = true ∧ db' = Env.stored db key buff)

theorem wp_respondDb (backend : Backend settings req.thrArg) {buff : Bytes} {toSave : Bool}
    (h : ∀ db, RspSavedDb settings req (rspCacheKey settings req) buff toSave w.db db →
      Q (replyCode settings request buff) { w.replied settings request buff with db := db }) :
    env.machine.wp (respondDb settings req request buff toSave) Q w := by
  rw [respondDb, Machine.wp_bind, wp_notModified]
  unfold replyCode World.replied at h
  cases matched : etagMatches settings request buff with
  | true =>
      simp only [matched, if_true] at h
      exact h w.db (.inl rfl)
  | false =>
      simp only [matched, Bool.false_eq_true, if_false] at h
      simp only [Bool.false_eq_true, if_false, sys_bind, Env.wp_evbufferAdd, if_true, saveRspDb]
      rw [Machine.wp_bind]
      split
      · rename_i save
        rw [Machine.wp_bind, wp_saveImgDb backend]
        exact h _ (.inr ⟨save, rfl⟩)
      · exact h w.db (.inl rfl)

/-- How a database mode makes a reply. The code of a failure is what `result` holds by then. -/
theorem wp_makeRspDb (backend : Backend settings req.thrArg)
    (failed : ∀ cache, cache = w.cache ∨ Missed settings req.thrArg req.md5.bytes w.cache cache →
      env.lib .newWand = false ∨ w.db req.md5.bytes = none → Q (-1) (w.caching cache))
    (undecoded : ∀ cache content, DbSource settings req w cache content →
      env.lib (.readImageBlob content) = none → Q 0 (w.caching cache))
    (refused : ∀ cache content im, DbSource settings req w cache content →
      env.lib (.readImageBlob content) = some im → converted settings req env im = none →
      Q (env.value (convertReq settings im req)).1 (w.caching cache))
    (made : ∀ cache cache' content im buff toSave db, DbSource settings req w cache content →
      env.lib (.readImageBlob content) = some im →
      converted settings req env im = some (buff, toSave) →
      Cached settings req.thrArg (rspCacheKey settings req) buff cache cache' →
      RspSavedDb settings req (rspCacheKey settings req) buff toSave w.db db →
      Q (replyCode settings request buff)
        { (w.caching cache').replied settings request buff with db := db }) :
    env.machine.wp (makeRspDb settings req request (rspCacheKey settings req)) Q w := by
  simp only [makeRspDb, magick_bind, Prog.pure_eq, Env.wp_magick]
  split
  · rename_i noWand
    exact failed w.cache (.inl rfl) (.inl noWand)
  rw [Machine.wp_bind]
  refine wp_loadOrigDb backend (fun cache missed missing =>
    failed cache (.inr missed) (.inr missing)) fun cache content source => ?_
  simp only [Env.wp_magick]
  cases decoded : env.lib (.readImageBlob content) with
  | none => exact undecoded cache content source decoded
  | some im =>
      dsimp only
      rw [Machine.wp_bind, Env.wp_value env (convertReq_converts settings req im)]
      have refused := refused cache content im source decoded
      have made (cache') := made cache cache' content im
      unfold converted at refused made
      generalize env.value (convertReq settings im req) = value at refused made ⊢
      obtain ⟨ret, im'⟩ := value
      dsimp only at refused made ⊢
      split
      · rename_i isFailure
        simpa [isFailure] using refused
      · rename_i passed
        rw [if_neg passed] at refused made
        rw [Env.wp_magick]
        cases encoded : env.lib (.getImageBlob im') with
        | none => exact refused (by simp [encoded])
        | some buff =>
            dsimp only
            rw [Machine.wp_bind]
            refine wp_cacheImg fun cache' cached => wp_respondDb backend fun db saved => ?_
            exact made cache' buff _ db source decoded (by simp [encoded]) cached saved

end Get

theorem wp_infoImgModeDb (backend : Backend settings thrArg) {key : Bytes} {Q : Int → World → Prop}
    (missing : w.db key = none → Q 0 w)
    (shown : ∀ r out, w.db key ≠ none → Q r { w with out := out }) :
    env.machine.wp (infoImgModeDb settings thrArg key) Q w := by
  simp only [infoImgModeDb, magick_bind, Prog.pure_eq]
  rw [Machine.wp_bind, wp_getImgDb backend]
  cases held : w.db key with
  | none => exact missing held
  | some content =>
      have present : w.db key ≠ none := by simp [held]
      simp only [Env.wp_magick]
      split
      · exact shown _ w.out present
      rw [Env.wp_magick]
      split
      · exact shown _ w.out present
      · rw [Machine.wp_bind]
        exact wp_addInfo fun text => shown _ _ present

theorem wp_adminImgModeDb (backend : Backend settings thrArg) {cmd : Int32} {Q : Int → World → Prop}
    (unheard : settings.mode = 3 → env.deletes.ignores = true → Q 2 { w with crashed := true })
    (missing : w.db h.bytes = none → Q 2 w)
    (refused : w.db h.bytes ≠ none → cmd ≠ 1 → Q 1 w)
    (failed : w.db h.bytes ≠ none → cmd = 1 → env.deletes ≠ .reliable →
      Q 1 { w with db := env.deleted w.db h.bytes })
    (lost : w.db h.bytes ≠ none → cmd = 1 → settings.mode = 3 → env.deletes.loses = true →
      Q 1 { w with db := env.deleted w.db h.bytes, crashed := true })
    (deleted : w.db h.bytes ≠ none → cmd = 1 →
      env.machine.wp (addAdminPage h.bytes cmd) (fun _ => Q 1)
        { w with db := env.deleted w.db h.bytes }) :
    env.machine.wp (adminImgModeDb settings thrArg h.bytes cmd) Q w := by
  rw [adminImgModeDb, h.strLcpy, Machine.wp_bind, wp_existDb backend]
  refine ⟨?_, unheard⟩
  cases stored : w.db h.bytes with
  | none => simpa using missing stored
  | some buff =>
      have present : w.db h.bytes ≠ none := by simp [stored]
      rw [Option.isSome_some, if_pos rfl, if_neg (by decide)]
      split
      swap
      · exact refused present (by assumption)
      rename_i isDelete
      rw [Machine.wp_bind]
      refine wp_delDb backend (fun r outcome reply => ?_) fun mode loses => ?_
      · rcases outcome with rfl | rfl
        · rw [if_pos (by decide), Machine.wp_bind]
          exact deleted present isDelete
        · rw [if_neg (by decide)]
          refine failed present isDelete fun reliable => ?_
          have := reply reliable
          simp [stored] at this
      · exact lost present isDelete mode loses

end Ximg
