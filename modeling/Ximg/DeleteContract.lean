import Ximg.LongPaths
import Ximg.StoreMap

/-!
# What a delete reports

The results of the admin functions against what is stored before and after, and what later requests
for a deleted image get.
-/

namespace Ximg
open Text Vfs Calls

variable {Im : Type} {env : Env Im} {settings : Settings} {base : Loc} {w : World} {t : Tree}
  {h : Md5} {thrArg : ThrArg} {cmd : Int32}

/-! ## Stored images -/

def originalOf (settings : Settings) (w : World) (h : Md5) : Option Bytes :=
  if settings.mode = 1 then
    match w.disk.tree.lookup (origPath settings h.bytes) with
    | some (.file content) => some content
    | _ => none
  else w.db h.bytes

def HasDir (settings : Settings) (w : World) (h : Md5) : Prop :=
  w.disk.tree.lookup (wholePath settings h.bytes) = some .dir

def Stored (settings : Settings) (w : World) (h : Md5) : Prop :=
  (settings.mode = 1 → HasDir settings w h) ∧ originalOf settings w h ≠ none

structure StoreState (settings : Settings) (base : Loc) (w : World) : Prop where
  disk : settings.mode = 1 → ∃ t n, w.disk = .idle t n ∧
    (settings.imgPath.bytes.length ≤ 254 → Shape settings base t) ∧
    (254 < settings.imgPath.bytes.length → settings.imgPath.bytes.length ≤ 509 →
      Flat settings base t)

def Fails : StoreOp → Int × Bytes → Prop
  | .get _ _, reply => reply = (-1, [])
  | .info _ _, reply => reply = (0, [])
  | .upload _ _, _ | .admin _ _ _, _ => True

def NoUploadOf (h : Md5) (op : StoreOp) : Prop :=
  ∀ thrArg buff, op = .upload thrArg buff → md5Of buff ≠ h

structure Reports (settings : Settings) (w : World) (h : Md5) (cmd : Int32) (Im : Type) (r : Int)
    (w' : World) : Prop where
  survived : w'.crashed = w.crashed
  missing : r = 2 ↔ ¬Stored settings w h
  deleted : r = 1 ↔ Stored settings w h ∧ ¬Stored settings w' h
  refused : r ≠ 1 → r ≠ 2 → r = -1
  unchanged : cmd ≠ 1 → originalOf settings w' h = originalOf settings w h
  after : r = 1 → ∀ (history : History Im) w'', Handled settings w' history w'' →
    (∀ x ∈ history, NoUploadOf h x.1.1) → ∀ x ∈ history, x.1.1.md5 = h → Fails x.1.1 x.2

/-! ## After a delete -/

structure Gone (settings : Settings) (base : Loc) (h : Md5) (w : World) : Prop where
  disk : settings.mode = 1 → ∃ t n, w.disk = .idle t n ∧ Shape settings base t ∧
    t.node (imageDir base h) = none
  db : settings.mode ≠ 1 → w.db h.bytes = none

theorem Gone.of_tree {n : Nat} (mode : settings.mode = 1) (idle : w.disk = .idle t n)
    (shape : Shape settings base t) (gone : t.node (imageDir base h) = none) :
    Gone settings base h w :=
  ⟨fun _ => ⟨t, n, idle, shape, gone⟩, fun other => absurd mode other⟩

theorem Gone.of_db (mode : settings.mode ≠ 1) (gone : w.db h.bytes = none) :
    Gone settings base h w :=
  ⟨fun same => absurd same mode, fun _ => gone⟩

def StaysGone (settings : Settings) (base : Loc) (h : Md5) (op : StoreOp) (reply : Int × Bytes)
    (w' : World) : Prop :=
  (op.md5 = h → Fails op reply) ∧ Gone settings base h w'

section Disk
variable (mode : settings.mode = 1) (short : settings.imgPath.bytes.length ≤ 254)

include mode short

theorem wp_saveImg_gone_disk {buff : Bytes} (other : md5Of buff ≠ h)
    (gone : Gone settings base h w) :
    env.machine.wp (saveImg settings thrArg buff)
      (StaysGone settings base h (.upload thrArg buff)) w := by
  obtain ⟨t, n, idle, shape, missing⟩ := gone.disk mode
  have stays (w' : World) {t' : Tree} {n' : Nat} (shape' : Shape settings base t')
      (same : t'.node (imageDir base h) = t.node (imageDir base h)) (reply : Int × Bytes) :
      StaysGone settings base h (.upload thrArg buff) reply (w'.at t' n') :=
    ⟨fun _ => trivial, .of_tree mode rfl shape' (same.trans missing)⟩
  unfold saveImg
  dsimp only
  rw [if_neg (by simp [mode]), Machine.wp_bind, World.eq_at idle]
  refine wp_saveImgModeDisk (h := md5Of buff) short shape (fun t' _ _ grown _ _ => ?_)
    (fun t' grown _ _ => ?_) (fun t' t'' _ grown _ _ _ _ sets => ?_)
    fun t' t'' _ grown _ _ sets _ => ?_
  · exact stays (w.caching _) (grown.shape shape) (grown.other other.symm) _
  · exact stays w (grown.shape shape) (grown.other other.symm) _
  all_goals
    refine stays _ ((grown.shape shape).sets sets (orig_length short _)) ?_ _
    rw [sets.other (file_ne_imageDir _), grown.other other.symm]

theorem wp_callGetImg_gone_disk {req : ZimgReq} {request : EvhtpRequest} (empty : w.out = [])
    (gone : Gone settings base h w) :
    env.machine.wp (callGetImg settings req request)
      (fun r w' => StaysGone settings base h (.get req request) (r, w'.out) w') w := by
  obtain ⟨t, n, idle, shape, missing⟩ := gone.disk mode
  have found (hd : t.node (imageDir base req.md5) = some .dir) (r : Int) (w' : World) {t' : Tree}
      {n' : Nat} (shape' : Shape settings base t')
      (same : t'.node (imageDir base h) = t.node (imageDir base h)) :
      StaysGone settings base h (.get req request) (r, (w'.at t' n').out) (w'.at t' n') := by
    refine ⟨fun about => ?_, .of_tree mode rfl shape' (same.trans missing)⟩
    change req.md5 = h at about
    rw [about, missing] at hd
    cases hd
  rw [callGetImg, if_pos mode, World.eq_at idle]
  refine wp_getImg_tree short shape (fun _ => ?_) (fun r w' n' hd => found hd r w' shape rfl)
    fun r w' _ _ _ _ _ t' n' hd _ _ _ _ saved =>
      found hd r w' (saved.shape short shape) (saved.imageDir h)
  refine ⟨fun _ => ?_, .of_tree mode rfl shape missing⟩
  change (-1, w.out) = (-1, [])
  rw [empty]

theorem wp_callInfoImg_gone_disk {k : Md5} (empty : w.out = []) (gone : Gone settings base h w) :
    env.machine.wp (callInfoImg settings thrArg k.bytes)
      (fun r w' => StaysGone settings base h (.info thrArg k) (r, w'.out) w') w := by
  obtain ⟨t, n, idle, shape, missing⟩ := gone.disk mode
  rw [callInfoImg, if_pos mode, World.eq_at idle]
  refine wp_infoImg short shape (fun _ => ⟨fun _ => ?_, .of_tree mode rfl shape missing⟩)
    fun r out hd => ⟨fun about => ?_, .of_tree mode rfl shape missing⟩
  · change (0, w.out) = (0, [])
    rw [empty]
  · change k = h at about
    rw [about, missing] at hd
    cases hd

theorem wp_callAdminImg_gone_disk {k : Md5} (gone : Gone settings base h w) :
    env.machine.wp (callAdminImg settings thrArg k.bytes cmd)
      (fun r w' => StaysGone settings base h (.admin thrArg k cmd) (r, w'.out) w') w := by
  obtain ⟨t, n, idle, shape, missing⟩ := gone.disk mode
  have same (r : Int) (w' : World) (n' : Nat) :
      StaysGone settings base h (.admin thrArg k cmd) (r, (w'.at t n').out) (w'.at t n') :=
    ⟨fun _ => trivial, .of_tree mode rfl shape missing⟩
  rw [callAdminImg, if_pos mode, World.eq_at idle]
  refine wp_adminImg short shape (fun _ => same _ _ _) (fun _ _ => same _ _ _)
    fun t' _ _ prunes => ?_
  rw [wp_addAdminPage]
  refine ⟨fun _ => trivial, .of_tree mode rfl (shape.prunes prunes) ?_⟩
  rw [prunes.node, missing, ite_self]

end Disk

section Db
variable (mode : settings.mode ≠ 1)

include mode

theorem wp_saveImg_gone_db {buff : Bytes} (other : md5Of buff ≠ h) (gone : Gone settings base h w) :
    env.machine.wp (saveImg settings thrArg buff)
      (StaysGone settings base h (.upload thrArg buff)) w := by
  have missing := gone.db mode
  unfold saveImg
  dsimp only
  rw [if_pos mode, Machine.wp_bind]
  by_cases backend : Backend settings thrArg
  · change env.machine.wp (saveImgModeDb settings thrArg (md5Of buff).bytes buff) _ w
    have kept : Env.stored w.db (md5Of buff).bytes buff h.bytes = none :=
      (Function.update_of_ne (fun same => other (Md5.ext_bytes same).symm) _ _).trans missing
    rw [wp_saveImgModeDb backend]
    refine ⟨⟨fun _ => trivial, .of_db mode ?_⟩, fun _ _ => ⟨fun _ => trivial, .of_db mode kept⟩⟩
    split
    · exact missing
    · exact kept
  · rw [saveImgModeDb, existDb_unconnected backend, Prog.ret_bind, if_neg (by decide),
      saveImgDb_unconnected backend]
    exact ⟨fun _ => trivial, .of_db mode missing⟩

theorem wp_callGetImg_gone_db {req : ZimgReq} {request : EvhtpRequest} (empty : w.out = [])
    (gone : Gone settings base h w) :
    env.machine.wp (callGetImg settings req request)
      (fun r w' => StaysGone settings base h (.get req request) (r, w'.out) w') w := by
  have missing := gone.db mode
  have failed : StaysGone settings base h (.get req request) (-1, w.out) w :=
    ⟨fun _ => by rw [empty]; rfl, .of_db mode missing⟩
  have found (hd : w.db req.md5.bytes ≠ none) (r : Int) (w' : World)
      (same : w'.db h.bytes = w.db h.bytes) :
      StaysGone settings base h (.get req request) (r, w'.out) w' := by
    refine ⟨fun about => ?_, .of_db mode (same.trans missing)⟩
    change req.md5 = h at about
    rw [about] at hd
    exact absurd missing hd
  rw [callGetImg, if_neg mode]
  by_cases backend : Backend settings req.thrArg
  swap
  · rw [getImgModeDb, existDb_unconnected backend, Prog.ret_bind, if_pos rfl]
    exact failed
  refine wp_getImgModeDb backend
    (fun _ _ => ⟨fun _ => congrArg (-1, ·) empty, .of_db mode missing⟩) (fun _ => failed)
    (fun buff hd _ _ => found hd _ _ (by rw [World.replied_db]))
    (fun buff _ _ hd _ _ _ => found hd _ _ (by rw [World.replied_db]; rfl))
    fun cache hd _ _ => wp_makeRspDb backend (fun _ _ _ => found hd _ _ rfl)
      (fun _ _ _ _ => found hd _ _ rfl) (fun _ _ _ _ _ _ => found hd _ _ rfl)
      fun _ _ _ _ _ _ db _ _ _ _ saved => found hd _ _ ?_
  have other : req.md5 ≠ h := by
    rintro rfl
    exact hd missing
  rcases saved with rfl | ⟨-, rfl⟩
  · rfl
  · exact Function.update_of_ne (rspCacheKey_ne other).symm _ _

theorem wp_callInfoImg_gone_db {k : Md5} (empty : w.out = []) (gone : Gone settings base h w) :
    env.machine.wp (callInfoImg settings thrArg k.bytes)
      (fun r w' => StaysGone settings base h (.info thrArg k) (r, w'.out) w') w := by
  have missing := gone.db mode
  have failed : StaysGone settings base h (.info thrArg k) (0, w.out) w :=
    ⟨fun _ => by rw [empty]; rfl, .of_db mode missing⟩
  rw [callInfoImg, if_neg mode]
  by_cases backend : Backend settings thrArg
  swap
  · rw [infoImgModeDb, getImgDb_unconnected backend]
    exact failed
  refine wp_infoImgModeDb backend (fun _ => failed) fun r out hd =>
    ⟨fun about => ?_, .of_db mode missing⟩
  change k = h at about
  rw [about] at hd
  exact absurd missing hd

theorem wp_callAdminImg_gone_db {k : Md5} (gone : Gone settings base h w) :
    env.machine.wp (callAdminImg settings thrArg k.bytes cmd)
      (fun r w' => StaysGone settings base h (.admin thrArg k cmd) (r, w'.out) w') w := by
  have missing := gone.db mode
  have deleted := env.deleted_none missing k.bytes
  rw [callAdminImg, if_neg mode]
  by_cases backend : Backend settings thrArg
  swap
  · rw [adminImgModeDb, k.strLcpy, existDb_unconnected backend]
    exact ⟨fun _ => trivial, .of_db mode missing⟩
  refine wp_adminImgModeDb backend (fun _ _ => ?_) (fun _ => ?_) (fun _ _ => ?_)
    (fun _ _ _ => ?_) (fun _ _ _ _ => ?_) fun _ _ => ?_
  · exact ⟨fun _ => trivial, .of_db mode missing⟩
  · exact ⟨fun _ => trivial, .of_db mode missing⟩
  · exact ⟨fun _ => trivial, .of_db mode missing⟩
  · exact ⟨fun _ => trivial, .of_db mode deleted⟩
  · exact ⟨fun _ => trivial, .of_db mode deleted⟩
  · rw [wp_addAdminPage]
    exact ⟨fun _ => trivial, .of_db mode deleted⟩

end Db

theorem wp_handle_gone (short : settings.mode = 1 → settings.imgPath.bytes.length ≤ 254)
    {op : StoreOp} (follows : NoUploadOf h op) (gone : Gone settings base h w) :
    env.machine.wp (handle settings op) (StaysGone settings base h op) w := by
  have reset : Gone settings base h { w with out := [], headersOut := [] } := ⟨gone.disk, gone.db⟩
  by_cases mode : settings.mode = 1
  · cases op with
    | upload thrArg buff =>
        exact wp_saveImg_gone_disk mode (short mode) (follows thrArg buff rfl) gone
    | get req request =>
        exact wp_replying.mpr (wp_callGetImg_gone_disk mode (short mode) rfl reset)
    | info thrArg k => exact wp_replying.mpr (wp_callInfoImg_gone_disk mode (short mode) rfl reset)
    | admin thrArg k cmd =>
        exact wp_replying.mpr (wp_callAdminImg_gone_disk mode (short mode) reset)
  · cases op with
    | upload thrArg buff => exact wp_saveImg_gone_db mode (follows thrArg buff rfl) gone
    | get req request => exact wp_replying.mpr (wp_callGetImg_gone_db mode rfl reset)
    | info thrArg k => exact wp_replying.mpr (wp_callInfoImg_gone_db mode rfl reset)
    | admin thrArg k cmd => exact wp_replying.mpr (wp_callAdminImg_gone_db mode reset)

theorem Gone.fails (short : settings.mode = 1 → settings.imgPath.bytes.length ≤ 254)
    (gone : Gone settings base h w) {history : History Im} {w' : World}
    (run : Handled settings w history w') (follows : ∀ x ∈ history, NoUploadOf h x.1.1) :
    ∀ x ∈ history, x.1.1.md5 = h → Fails x.1.1 x.2 :=
  (run.always (P := fun q => NoUploadOf h q.1) (I := Gone settings base h)
    (G := fun q reply => q.1.md5 = h → Fails q.1 reply)
    (fun _ _ follows gone => wp_handle_gone short follows gone) follows gone).1

/-! ## The admin functions -/

theorem not_stored_of_gone (short : settings.mode = 1 → settings.imgPath.bytes.length ≤ 254)
    (gone : Gone settings base h w) : ¬Stored settings w h := by
  rintro ⟨dir, original⟩
  by_cases mode : settings.mode = 1
  · obtain ⟨t, n, idle, shape, missing⟩ := gone.disk mode
    have found := dir mode
    rw [HasDir, wholePath_short (short mode), idle] at found
    rw [Disk.idle, shape.lookup_whole, missing] at found
    cases found
  · rw [originalOf, if_neg mode] at original
    exact original (gone.db mode)

theorem reports_missing (missing : ¬Stored settings w h) : Reports settings w h cmd Im 2 w where
  survived := rfl
  missing := by simp [missing]
  deleted := by simp [missing]
  refused := by simp
  unchanged _ := rfl
  after impossible := by simp at impossible

theorem reports_refused {w' : World} (stored : Stored settings w h) (same : w' = w) :
    Reports settings w h cmd Im (-1) w' where
  survived := by rw [same]
  missing := by simp [stored]
  deleted := by simp [same, stored]
  refused _ _ := rfl
  unchanged _ := by rw [same]
  after impossible := by simp at impossible

theorem reports_deleted {w' : World}
    (short : settings.mode = 1 → settings.imgPath.bytes.length ≤ 254)
    (stored : Stored settings w h) (isDelete : cmd = 1) (gone : Gone settings base h w')
    (survived : w'.crashed = w.crashed) : Reports settings w h cmd Im 1 w' where
  survived := survived
  missing := by simp [stored]
  deleted := by simp [stored, not_stored_of_gone short gone]
  refused impossible := absurd rfl impossible
  unchanged other := absurd isDelete other
  after _ _ _ run follows := gone.fails short run follows

/-- The thread is connected to its backend, and a delete removes the image and is survived. -/
def DeleteWorks (settings : Settings) (env : Env Im) (thrArg : ThrArg) (cmd : Int32) : Prop :=
  Backend settings thrArg ∧ cmd = 1 ∧ env.deletes.spares = false ∧
    (settings.mode = 3 → env.deletes.loses = false)

/-- When the result of a delete tells what was done: in the disk mode, a directory without an
original is not taken for an image; in the others, an image is deleted and not just looked up, and
ssdb answers. -/
def DeleteTells (settings : Settings) (env : Env Im) (thrArg : ThrArg) (w : World) (h : Md5)
    (cmd : Int32) : Prop :=
  if settings.mode = 1 then HasDir settings w h → originalOf settings w h ≠ none
  else (Stored settings w h → DeleteWorks settings env thrArg cmd) ∧
    (settings.mode = 3 → Backend settings thrArg → env.deletes.ignores = false)

theorem wp_adminImg_reports (mode : settings.mode = 1) (state : StoreState settings base w)
    (tells : HasDir settings w h → originalOf settings w h ≠ none) :
    env.machine.wp (adminImg settings h.bytes cmd) (Reports settings w h cmd Im) w := by
  have missing (noDir : ¬HasDir settings w h) : Reports settings w h cmd Im 2 w :=
    reports_missing fun stored => noDir (stored.1 mode)
  obtain ⟨t, n, idle, shape, flat⟩ := state.disk mode
  by_cases full : 509 < settings.imgPath.bytes.length
  · rw [adminImg, Machine.wp_bind, wp_isDir]
    have noDir : ¬HasDir settings w h := by
      intro dir
      refine tells dir ?_
      rw [originalOf, if_pos mode, origPath_full full, ← wholePath_full full h, dir]
    have unfound : w.disk.tree.lookup (wholePath settings h.bytes) ≠ some .dir := noDir
    rw [if_neg unfound, if_pos rfl]
    exact missing noDir
  by_cases short : settings.imgPath.bytes.length ≤ 254
  · have stored (hd : t.node (imageDir base h) = some .dir) : Stored settings w h := by
      have dir : HasDir settings w h := by
        rw [HasDir, wholePath_short short, idle]
        exact ((shape short).lookup_whole h).trans hd
      exact ⟨fun _ => dir, tells dir⟩
    have same := World.eq_at idle
    have run : env.machine.wp (adminImg settings h.bytes cmd) (Reports settings w h cmd Im)
        (w.at t n) := by
      refine wp_adminImg short (shape short) (fun hd => ?_) (fun hd _ => ?_)
        fun t' hd isDelete prunes => ?_
      · rw [← same]
        refine missing fun dir => hd ?_
        rw [HasDir, wholePath_short short, idle] at dir
        exact ((shape short).lookup_whole h).symm.trans dir
      · exact reports_refused (stored hd) same.symm
      · rw [wp_addAdminPage]
        refine reports_deleted (fun _ => short) (stored hd) isDelete
          (.of_tree mode rfl ((shape short).prunes prunes) ?_) rfl
        rw [prunes.node, if_pos List.suffix_rfl]
    rwa [← same] at run
  · have flat := flat (by omega) (by omega)
    have same := World.eq_at idle
    have noDir : ¬HasDir settings w h := by
      obtain ⟨q, path, head⟩ := wholePath_head settings (by omega) h
      rw [HasDir, path, idle]
      exact flat.lookup_ne_dir head
    rw [same, wp_adminImg_long (by omega) flat, ← same]
    exact missing noDir

theorem wp_adminImgModeDb_reports (mode : settings.mode ≠ 1)
    (tells : Stored settings w h → DeleteWorks settings env thrArg cmd)
    (heard : settings.mode = 3 → Backend settings thrArg → env.deletes.ignores = false) :
    env.machine.wp (adminImgModeDb settings thrArg h.bytes cmd) (Reports settings w h cmd Im) w := by
  have present (held : w.db h.bytes ≠ none) : Stored settings w h :=
    ⟨fun same => absurd same mode, by rwa [originalOf, if_neg mode]⟩
  have missing (gone : w.db h.bytes = none) : Reports settings w h cmd Im 2 w :=
    reports_missing (not_stored_of_gone (fun same => absurd same mode)
      (.of_db mode gone : Gone settings [] h w))
  have deleted (held : w.db h.bytes ≠ none) (w' : World)
      (db : w'.db = env.deleted w.db h.bytes) (survived : w'.crashed = w.crashed) :
      Reports settings w h cmd Im 1 w' := by
    obtain ⟨-, isDelete, works, -⟩ := tells (present held)
    have gone : Gone settings [] h w' := .of_db mode ?_
    · exact reports_deleted (fun same => absurd same mode) (present held) isDelete gone survived
    rw [db, Env.deleted, works, if_neg Bool.false_ne_true]
    exact Function.update_self _ _ _
  by_cases backend : Backend settings thrArg
  · refine wp_adminImgModeDb backend (fun isSsdb ignores => ?_) missing (fun held other => ?_)
      (fun held _ _ => deleted held _ rfl rfl) (fun held _ isSsdb loses => ?_) fun held _ => ?_
    · exact absurd ignores (by simp [heard isSsdb backend])
    · exact absurd (tells (present held)).2.1 other
    · exact absurd loses (by simp [(tells (present held)).2.2.2 isSsdb])
    · rw [wp_addAdminPage]
      exact deleted held _ rfl rfl
  · rw [adminImgModeDb, h.strLcpy, existDb_unconnected backend, Prog.ret_bind, if_pos rfl]
    refine missing ?_
    by_contra held
    exact backend (tells (present held)).1

theorem wp_adminImg_found (dir : HasDir settings w h) :
    env.machine.wp (adminImg settings h.bytes cmd) (fun r _ => r ≠ 2) w := by
  have found : w.disk.tree.lookup (wholePath settings h.bytes) = some .dir := dir
  rw [adminImg, Machine.wp_bind, wp_isDir, if_pos found, if_neg (by decide)]
  split
  · rw [Machine.wp_bind]
    refine Machine.wp_mono (Machine.wp_true _ _) fun r w' _ => ?_
    split
    · rw [Machine.wp_bind, wp_addAdminPage]
      exact (by decide : (1 : Int) ≠ 2)
    · exact (by decide : (-1 : Int) ≠ 2)
  · exact (by decide : (-1 : Int) ≠ 2)

theorem wp_adminImgModeDb_found (backend : Backend settings thrArg) (held : w.db h.bytes ≠ none) :
    env.machine.wp (adminImgModeDb settings thrArg h.bytes cmd) (fun r w' =>
      w'.crashed = true ∨ r = 1 ∧ (cmd ≠ 1 ∨ env.deletes.spares = true → w'.db = w.db)) w := by
  have kept (isDelete : cmd = 1) (spared : cmd ≠ 1 ∨ env.deletes.spares = true) :
      env.deleted w.db h.bytes = w.db := by
    rw [Env.deleted, if_pos (spared.resolve_left (absurd isDelete))]
  refine wp_adminImgModeDb backend (fun _ _ => .inl rfl) (absurd · held)
    (fun _ _ => .inr ⟨rfl, fun _ => rfl⟩) (fun _ isDelete _ => .inr ⟨rfl, kept isDelete⟩)
    (fun _ _ _ _ => .inl rfl) fun _ isDelete => ?_
  rw [wp_addAdminPage]
  exact .inr ⟨rfl, kept isDelete⟩

theorem adminImgModeDb_heard (mode : settings.mode = 3) (backend : Backend settings thrArg)
    (survives : env.machine.wp (adminImgModeDb settings thrArg h.bytes cmd)
      (fun _ w' => w'.crashed = false) w) : env.deletes.ignores = false := by
  rw [adminImgModeDb, h.strLcpy, Machine.wp_bind, wp_existDb backend] at survives
  by_contra ignores
  have crashed := survives.2 mode (by simpa using ignores)
  rw [if_pos rfl] at crashed
  exact Bool.noConfusion (show true = false from crashed)

theorem adminImgModeDb_answered (mode : settings.mode = 3) (backend : Backend settings thrArg)
    (held : w.db h.bytes ≠ none) (isDelete : cmd = 1)
    (survives : env.machine.wp (adminImgModeDb settings thrArg h.bytes cmd)
      (fun _ w' => w'.crashed = false) w) : env.deletes.loses = false := by
  by_contra loses
  rw [Bool.not_eq_false] at loses
  have conn : thrArg.ssdbConn = true := by
    rcases backend with ⟨other, -⟩ | ⟨-, conn⟩
    · rw [mode] at other
      cases other
    · exact conn
  have unreliable : env.deletes ≠ .reliable := by
    intro reliable
    simp [reliable, Deletes.loses] at loses
  rw [adminImgModeDb, h.strLcpy, Machine.wp_bind, wp_existDb backend] at survives
  replace survives := survives.1
  rw [if_pos (Option.isSome_iff_ne_none.mpr held), if_neg (by decide), if_pos isDelete,
    Machine.wp_bind, delDb, if_neg (by simp [mode]), if_pos mode, Machine.wp_bind, delSsdb,
    if_neg (by simp [conn])] at survives
  have crashed := survives none (.inr ⟨unreliable, fun _ => loses⟩) () (.inl rfl)
  exact Bool.noConfusion (show true = false from crashed)

theorem admin_reports (settings : Settings) (env : Env Im) (base : Loc) (w : World) (h : Md5)
    (thrArg : ThrArg) (cmd : Int32) (state : StoreState settings base w)
    (alive : w.crashed = false) :
    (∀ r w', env.machine.Runs (callAdminImg settings thrArg h.bytes cmd) w r w' →
      Reports settings w h cmd Im r w') ↔ DeleteTells settings env thrArg w h cmd := by
  obtain ⟨r, w', run⟩ := Machine.runs_exists env.answers (callAdminImg settings thrArg h.bytes cmd) w
  rw [← Machine.wp_iff_runs]
  unfold callAdminImg DeleteTells at *
  split
  · rename_i mode
    rw [if_pos mode] at run
    constructor
    · intro reports dir
      have report := run.post reports
      have found := run.post (wp_adminImg_found dir)
      by_contra missing
      exact found (report.missing.mpr fun stored => stored.2 missing)
    · exact fun tells => wp_adminImg_reports mode state tells
  · rename_i mode
    rw [if_neg mode] at run
    constructor
    · intro reports
      have survives : env.machine.wp (adminImgModeDb settings thrArg h.bytes cmd)
          (fun _ w' => w'.crashed = false) w :=
        Machine.wp_mono reports fun _ _ report => report.survived.trans alive
      refine ⟨fun stored => ?_, fun isSsdb backend => adminImgModeDb_heard isSsdb backend survives⟩
      have report := run.post reports
      have held := stored.2
      rw [originalOf, if_neg mode] at held
      have backend : Backend settings thrArg := by
        by_contra unconnected
        rw [adminImgModeDb, h.strLcpy, existDb_unconnected unconnected] at run
        exact report.missing.mp run.1 stored
      have alive' : w'.crashed ≠ true := by
        rw [run.post survives]
        decide
      obtain ⟨rfl, kept⟩ := (run.post (wp_adminImgModeDb_found backend held)).resolve_left alive'
      have gone := (report.deleted.mp rfl).2
      have changed : ¬(cmd ≠ 1 ∨ env.deletes.spares = true) := fun spared => gone
        ⟨fun same => absurd same mode, by rwa [originalOf, if_neg mode, kept spared]⟩
      rw [not_or, ne_eq, not_not, Bool.not_eq_true] at changed
      exact ⟨backend, changed.1, changed.2, fun isSsdb =>
        adminImgModeDb_answered isSsdb backend held changed.1 survives⟩
    · exact fun tells => wp_adminImgModeDb_reports mode tells.1 tells.2

theorem Fresh.state (fresh : Fresh settings base w) : StoreState settings base w := by
  refine ⟨fun mode => ?_⟩
  obtain ⟨t, n, idle, resolved, leaf⟩ := fresh.disk mode
  exact ⟨t, n, idle, fun _ => .of_empty resolved leaf, fun _ _ => .of_empty resolved leaf⟩

def heldWorld : World := { smallWorld with
  db := Env.stored (fun _ => none) (md5Of (ascii "a")).bytes (ascii "a") }

theorem heldWorld_stored {mode : Int32} (other : mode ≠ 1) :
    Stored (smallSettings mode 0) heldWorld (md5Of (ascii "a")) := by
  refine ⟨fun same => absurd same other, ?_⟩
  have other' : (smallSettings mode 0).mode ≠ 1 := other
  rw [originalOf, if_neg other']
  simp [heldWorld, Env.stored]

theorem admin_reports_small :
    (∀ r w', (smallEnv some).machine.Runs (callAdminImg (smallSettings 1 0) smallThread
      (md5Of (ascii "a")).bytes 1) smallWorld r w' →
      Reports (smallSettings 1 0) smallWorld (md5Of (ascii "a")) 1 Bytes r w') ∧
    (∀ r w', (smallEnv some).machine.Runs (callAdminImg (smallSettings 3 0) smallThread
      (md5Of (ascii "a")).bytes 1) heldWorld r w' →
      Reports (smallSettings 3 0) heldWorld (md5Of (ascii "a")) 1 Bytes r w') := by
  have fresh := smallWorld_fresh 1 0
  constructor
  · refine (admin_reports _ _ [ascii "img"] _ _ _ _ fresh.state rfl).mpr ?_
    obtain ⟨t, n, idle, resolved, leaf⟩ := fresh.disk rfl
    have shape : Shape (smallSettings 1 0) [ascii "img"] t := .of_empty resolved leaf
    rw [DeleteTells, if_pos (by rfl)]
    intro dir
    rw [HasDir, wholePath_short (by decide), idle] at dir
    rw [Disk.idle, shape.lookup_whole] at dir
    rw [imageDir, levels, Tree.node_under_leaf leaf] at dir
    cases dir
  · refine (admin_reports _ _ [ascii "img"] _ _ _ _ ⟨fun same => ?_⟩ rfl).mpr ?_
    · exact absurd same (by decide)
    · rw [DeleteTells, if_neg (by decide)]
      exact ⟨fun _ => ⟨.inr ⟨rfl, rfl⟩, rfl, rfl, fun _ => rfl⟩, fun _ _ => rfl⟩

/-- A command that deletes nothing reports a success. -/
theorem admin_reports_kept : ¬∀ r w', (smallEnv some).machine.Runs
    (callAdminImg (smallSettings 2 0) smallThread (md5Of (ascii "a")).bytes 0) heldWorld r w' →
    Reports (smallSettings 2 0) heldWorld (md5Of (ascii "a")) 0 Bytes r w' := by
  intro reports
  obtain ⟨r, w', run⟩ := Machine.runs_exists (smallEnv some).answers
    (callAdminImg (smallSettings 2 0) smallThread (md5Of (ascii "a")).bytes 0) heldWorld
  have report := reports r w' run
  rw [callAdminImg, if_neg (by decide)] at run
  have stored := @heldWorld_stored 2 (by decide)
  have held := stored.2
  rw [originalOf, if_neg (by decide)] at held
  have survived : w'.crashed ≠ true := by
    rw [report.survived]
    decide
  obtain ⟨rfl, kept⟩ :=
    (run.post (wp_adminImgModeDb_found (.inl ⟨rfl, rfl⟩) held)).resolve_left survived
  refine (report.deleted.mp rfl).2 ⟨fun same => absurd same (by decide), ?_⟩
  rw [originalOf, if_neg (by decide), kept (.inl (by decide))]
  exact held

end Ximg
