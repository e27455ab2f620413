import Ximg.StoreMap

/-!
# The store refines a map

Without faults, cache and ETags, a sequence of uploads, requests for originals and deletes is
answered in every mode as a map answers it.
-/

namespace Ximg
open Text Vfs Calls

variable {Im : Type} {env : Env Im} {settings : Settings} {base : Loc} {w : World}
  {h : Md5} {m : ImageMap} {buff : Bytes}

def ImageMap.lookup (m : ImageMap) (h : Md5) : Int × Bytes :=
  match m h with
  | some buff => (1, buff)
  | none => (-1, [])

def ImageMap.serve (m : ImageMap) : StoreOp → (Int × Bytes) × ImageMap
  | .upload _ buff => ((1, (md5Of buff).bytes), m.insertNew (md5Of buff) buff)
  | .get req _ => (m.lookup req.md5, m)
  | .info _ _ => ((0, []), m)
  | .admin _ md5 t =>
      if m md5 = none then ((2, []), m) else ((1, adminPage md5.bytes t), m.remove md5)

def StoreOp.Plain (settings : Settings) : StoreOp → Prop
  | .upload thrArg buff => Connected settings thrArg ∧ buff ≠ []
  | .get req _ => Connected settings req.thrArg ∧ req.original ∧ req.type = none
  | .info _ _ => False
  | .admin thrArg _ t => Connected settings thrArg ∧ t = 1

section Steps
variable (etagOff : settings.etag = 0) (cacheOff : settings.cacheOn = 0)
  (short : settings.imgPath.bytes.length ≤ 200) (calm : env.faults = .none)
  (reliable : env.deletes = .reliable)

include etagOff in
theorem replied_plain (w : World) (buff : Bytes) (request : EvhtpRequest) :
    replyCode settings request buff = 1 ∧
      (w.replied settings request buff).out = w.out ++ buff := by
  have unmatched : etagMatches settings request buff = false := by
    unfold etagMatches
    split <;> simp [etagOff]
  simp [replyCode, World.replied, unmatched]

include etagOff in
theorem Stores.replied_lookup (stores : Stores settings base w m) {w' : World}
    (request : EvhtpRequest) (hm : m h = some buff) (fresh : w'.out = []) (db : w'.db = w.db)
    (disk : ∀ t n, w.disk = .idle t n → ∃ n', w'.disk = .idle t n') :
    (replyCode settings request buff, (w'.replied settings request buff).out) = m.lookup h ∧
      Stores settings base (w'.replied settings request buff) m := by
  obtain ⟨code, body⟩ := replied_plain etagOff w' buff request
  rw [code, body, fresh, ImageMap.lookup, hm]
  refine ⟨rfl, stores.same (fun t n idle => ?_) (by rw [World.replied_db, db])⟩
  rw [World.replied_disk]
  exact disk t n idle

include etagOff cacheOff short calm reliable in
theorem wp_callGetImg_original {req : ZimgReq} {request : EvhtpRequest}
    (connected : Connected settings req.thrArg) (original : req.original) (untyped : req.type = none)
    (stores : Stores settings base w m) (fresh : w.out = []) :
    env.machine.wp (callGetImg settings req request) (fun r w' =>
      (r, w'.out) = m.lookup req.md5 ∧ Stores settings base w' m) w := by
  have script : scriptType settings req = none := by simp [scriptType, untyped]
  have noCache (caching : Caching settings req.thrArg) : False := caching.1 cacheOff
  have absent (missing : m req.md5 = none) :
      (-1, w.out) = m.lookup req.md5 ∧ Stores settings base w m := by
    rw [ImageMap.lookup, missing, fresh]
    exact ⟨rfl, stores⟩
  unfold callGetImg
  split
  · rename_i mode
    obtain ⟨t, n, idle, holds⟩ := stores.disk mode
    have short' : settings.imgPath.bytes.length ≤ 254 := by omega
    have kept := keptName_original short' script original
    rw [World.eq_at idle] at absent ⊢
    refine wp_getImg short' holds.shape (fun missing => absent ?_)
      (fun _ _ caching => (noCache caching).elim) (fun b cache cache' hb _ _ _ => ?_)
      (fun cache hb => ?_) fun cache hd missing => ?_
    · by_contra present
      exact missing (holds.dir_iff.mpr present)
    · rw [keptLoc, kept] at hb
      obtain ⟨b', hm, same⟩ := holds.orig hb
      cases same
      rw [World.at, ← World.replied_on]
      refine stores.replied_lookup etagOff request hm fresh rfl fun t₁ n₁ idle₁ => ⟨n + 1, ?_⟩
      rw [idle] at idle₁
      cases idle₁
      rfl
    · rw [keptLoc, kept] at hb
      obtain ⟨b', hm, same⟩ := holds.orig hb
      cases same
      exact absurd rfl (stores.nonempty _ _ hm)
    · rw [keptLoc, kept] at missing
      rcases missing with impossible | missing | fault
      · exact absurd impossible orig_plain
      · exact absurd (holds.absent_iff.mp missing) (holds.dir_iff.mp hd)
      · simp [calm, Faults.none] at fault
  · rename_i mode
    have held := stores.db mode req.md5
    have key := rspCacheKey_original script original
    refine wp_getImgModeDb (connected.resolve_left mode)
      (fun _ ignores => absurd ignores (Deletes.not_ignores reliable)) (fun missing => absent (held ▸ missing))
      (fun _ _ caching => (noCache caching).elim) (fun b cache cache' _ hb _ cached => ?_)
      fun cache present missing => absurd (key ▸ missing) present
    rw [key, held] at hb
    exact stores.replied_lookup etagOff request hb fresh rfl fun t n idle => ⟨n, idle⟩

include etagOff cacheOff short calm reliable in
theorem wp_handle_plain {op : StoreOp} (plain : op.Plain settings)
    (stores : Stores settings base w m) :
    env.machine.wp (handle settings op)
      (fun r w' => r = (m.serve op).1 ∧ Stores settings base w' (m.serve op).2) w := by
  have short' (_ : settings.mode = 1) : settings.imgPath.bytes.length ≤ 254 := by omega
  cases op with
  | upload thrArg buff =>
      refine Machine.wp_mono (wp_saveImg short' calm reliable plain.1 plain.2 stores) ?_
      rintro ⟨code, name⟩ w' ⟨same, -, -, stored, -⟩
      obtain ⟨code_one, stores'⟩ := stored fun _ => fits_of_short settings short _
      exact ⟨Prod.ext code_one same, stores'⟩
  | get req request =>
      rw [handle, wp_replying]
      exact wp_callGetImg_original etagOff cacheOff short calm reliable plain.1 plain.2.1 plain.2.2
        (stores.same (fun t n idle => ⟨n, idle⟩) rfl) rfl
  | info thrArg md5 => exact plain.elim
  | admin thrArg md5 cmd =>
      rw [handle, wp_replying]
      refine wp_callAdminImg (m := m) short' reliable plain.1
        (stores.same (fun t n idle => ⟨n, idle⟩) rfl) (fun missing => ?_)
        (fun _ other => absurd plain.2 other) fun w' present _ _ fresh _ stores' => ?_
      · simp only [ImageMap.serve, if_pos missing]
        exact ⟨rfl, stores.same (fun t n idle => ⟨n, idle⟩) rfl⟩
      · simp only [ImageMap.serve, if_neg present, World.reported, fresh]
        exact ⟨rfl, stores'.same (fun t n idle => ⟨n, idle⟩) rfl⟩

end Steps

/-! ## Whole histories -/

theorem serve_other (m : ImageMap) {op : StoreOp} {k : Md5} (other : op.md5 ≠ k) :
    (m.serve op).2 k = m k := by
  cases op with
  | upload thrArg buff =>
      unfold ImageMap.serve ImageMap.insertNew
      dsimp only
      split
      · rfl
      · exact Function.update_of_ne (Ne.symm other) _ _
  | get req request => rfl
  | info thrArg md5 => rfl
  | admin thrArg md5 t =>
      simp only [ImageMap.serve]
      split
      · rfl
      · exact Function.update_of_ne (Ne.symm other) _ _

theorem serve_same {m m' : ImageMap} {op : StoreOp} (same : m op.md5 = m' op.md5) :
    (m.serve op).1 = (m'.serve op).1 ∧ (m.serve op).2 op.md5 = (m'.serve op).2 op.md5 := by
  cases op with
  | upload thrArg buff =>
      simp only [StoreOp.md5] at same
      simp only [ImageMap.serve, ImageMap.insertNew, StoreOp.md5, same, true_and]
      split
      · exact same
      · simp
  | get req request =>
      simp only [StoreOp.md5] at same
      simp [ImageMap.serve, ImageMap.lookup, StoreOp.md5, same]
  | info thrArg md5 => exact ⟨rfl, same⟩
  | admin thrArg md5 t =>
      simp only [StoreOp.md5] at same
      simp only [ImageMap.serve, StoreOp.md5, same]
      split
      · exact ⟨rfl, by simpa using same⟩
      · simp [ImageMap.remove]

theorem replies_filter {m m' : ImageMap} {k : Md5} (same : m k = m' k) (ops : List StoreOp) :
    (replies ImageMap.serve m ops).filter (fun x => x.1.md5 = k) =
      replies ImageMap.serve m' (ops.filter fun op => op.md5 = k) := by
  induction ops generalizing m m' with
  | nil => rfl
  | cons op ops ih =>
      by_cases about : op.md5 = k
      · subst about
        obtain ⟨answer, after⟩ := serve_same same
        simp only [replies, List.filter_cons, decide_true, if_true, answer, ih after]
      · simp only [replies, List.filter_cons, about, decide_false, Bool.false_eq_true, if_false]
        exact ih ((serve_other m about).trans same)

/-- The operations can be served, and are answered as a map answers them; those on one image as if
there were no others. -/
def AnswersAsMap (settings : Settings) (env : Env Im) (w : World) (ops : List StoreOp) : Prop :=
  (∃ served w', Serves (fun _ => env.machine) (handle settings) w served w' ∧
    served.map Prod.fst = ops) ∧
  ∀ served w', Serves (fun _ => env.machine) (handle settings) w served w' →
    served.map Prod.fst = ops →
    served = replies ImageMap.serve .empty ops ∧
    ∀ k, served.filter (fun x => x.1.md5 = k) =
      replies ImageMap.serve .empty (ops.filter fun op => op.md5 = k)

theorem store_refines_map (settings : Settings) (env : Env Im) (base : Loc) (w : World)
    (ops : List StoreOp) (etagOff : settings.etag = 0) (cacheOff : settings.cacheOn = 0)
    (short : settings.imgPath.bytes.length ≤ 200) (calm : env.faults = .none)
    (reliable : env.deletes = .reliable) (fresh : Fresh settings base w)
    (plain : ∀ op ∈ ops, op.Plain settings) : AnswersAsMap settings env w ops := by
  refine ⟨?_, fun served w' run same => ?_⟩
  · obtain ⟨served, w', run, same⟩ := serves_exists (M := fun _ => env.machine)
      (fun _ => env.answers) (handle settings) w ops
    exact ⟨served, w', run, same⟩
  · subst same
    have answered := (run.refines (P := StoreOp.Plain settings) (R := Stores settings base)
      (fun op w m => wp_handle_plain etagOff cacheOff short calm reliable)
      (fun x member => plain x.1 (List.mem_map_of_mem member)) fresh.stores).1
    refine ⟨answered, fun k => ?_⟩
    rw [← replies_filter rfl, ← answered]

theorem store_refines_map_small :
    AnswersAsMap (smallSettings 1 0) (smallEnv some) smallWorld
      [.upload smallThread (ascii "a"), .get (smallReq (md5Of (ascii "a")) 0) smallRequest,
        .admin smallThread (md5Of (ascii "a")) 1] := by
  refine store_refines_map _ _ [ascii "img"] _ _ rfl rfl (by decide) rfl rfl
    (smallWorld_fresh 1 0) ?_
  intro op member
  simp only [List.mem_cons, List.not_mem_nil, or_false] at member
  rcases member with rfl | rfl | rfl
  · exact ⟨.inl rfl, by decide⟩
  · exact ⟨.inl rfl, by decide, rfl⟩
  · exact ⟨.inl rfl, rfl⟩

end Ximg
