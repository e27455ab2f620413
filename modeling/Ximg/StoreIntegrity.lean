import Ximg.LongPaths
import Ximg.StoreMap

/-!
# What failed writes leave behind

Originals and renditions in the disk mode when calls fail. A file that exists is taken for a
finished one, so a failed `flock` or `write` in `new_img` is seen by the requests after it.
-/

namespace Ximg
open Text Vfs Calls

variable {Im : Type} {env : Env Im} {settings : Settings} {base : Loc} {w : World}
  {t t' : Tree} {h : Md5} {buff : Bytes} {history : History Im}

def Uploads (history : History Im) (buff : Bytes) : Prop :=
  ∃ thrArg env reply, ((.upload thrArg buff, env), reply) ∈ history

def WrittenFor (settings : Settings) (history : History Im) (blob : Bytes) : Prop :=
  ∃ req request env reply im toSave, ((.get req request, env), reply) ∈ history ∧
    converted settings req env im = some (blob, toSave)

def NoCollision (history : History Im) : Prop :=
  ∀ buff buff', Uploads history buff → Uploads history buff' → md5Of buff = md5Of buff' →
    buff = buff'

structure Intact (settings : Settings) (history : History Im) (w : World) : Prop where
  /-- An upload that was just accepted has its original. -/
  accepted : ∀ earlier thrArg buff env name,
    history = earlier ++ [((.upload thrArg buff, env), (1, name))] →
    w.disk.tree.lookup (origPath settings (md5Of buff).bytes) = some (.file buff)
  originals : ∀ h content, w.disk.tree.lookup (origPath settings h.bytes) = some (.file content) →
    Uploads history content ∧ md5Of content = h
  renditions : ∀ req blob, rspPath settings req ≠ origPath settings req.md5.bytes →
    w.disk.tree.lookup (rspPath settings req) = some (.file blob) →
    WrittenFor settings history blob

/-- No call fails whose failure leaves an unfinished file, and no reply to a request for an
original is saved over it. -/
structure NoDebris (settings : Settings) (q : StoreOp × Env Im) : Prop where
  flock : q.2.faults.flock = false
  write : q.2.faults.write = false
  openRead : ∀ req request, q.1 = .get req request →
    rspPath settings req = origPath settings req.md5.bytes → saveNew settings req true = true →
    q.2.faults.openRead = false

/-! ## Sound trees -/

structure Sound (settings : Settings) (base : Loc) (history : History Im) (t : Tree) : Prop where
  shape : Shape settings base t
  originals : ∀ h content, t.node (origLoc base h) = some (.file content) →
    Uploads history content ∧ md5Of content = h
  renditions : ∀ h q blob, q ≠ ascii "0*0" → t.node (q :: imageDir base h) = some (.file blob) →
    WrittenFor settings history blob

namespace Sound

theorem of_empty (resolved : t.resolve (settings.imgPath.bytes ++ [slash]) = some base)
    (leaf : ∀ n, t.node (n :: base) = none) (history : History Im) :
    Sound settings base history t := by
  have nothing (h : Md5) (q : Bytes) : t.node (q :: imageDir base h) = none :=
    Tree.node_under_leaf leaf q (levels h)
  refine ⟨.of_empty resolved leaf, fun h content hx => ?_, fun h q blob _ hx => ?_⟩
  · rw [origLoc, nothing] at hx
    cases hx
  · rw [nothing] at hx
    cases hx

theorem grown (sound : Sound settings base history t) (grown : Grown settings base h t t') :
    Sound settings base history t' := by
  refine ⟨grown.shape sound.shape, fun k content hx => ?_, fun k q blob other hx => ?_⟩
  · rw [origLoc, grown.inside] at hx
    exact sound.originals k content hx
  · rw [grown.inside] at hx
    exact sound.renditions k q blob other hx

theorem original (sound : Sound settings base history t)
    (short : settings.imgPath.bytes.length ≤ 254) (uploaded : Uploads history buff)
    (sets : t.Sets (origLoc base (md5Of buff)) (some (.file buff)) t') :
    Sound settings base history t' := by
  refine ⟨sound.shape.sets sets (orig_length short _), fun k content hx => ?_,
    fun k q blob other hx => ?_⟩
  · rw [sets.node] at hx
    split at hx
    · rename_i here
      cases hx
      exact ⟨uploaded, (imageDir_inj (List.cons.inj here).2).symm⟩
    · exact sound.originals k content hx
  · rw [sets.other fun here => other (List.cons.inj here).1] at hx
    exact sound.renditions k q blob other hx

theorem rendition (sound : Sound settings base history t) {q blob : Bytes}
    (other : q ≠ ascii "0*0") (written : WrittenFor settings history blob)
    (short : pathLen settings (q :: levels h) ≤ 511)
    (sets : t.Sets (q :: imageDir base h) (some (.file blob)) t') :
    Sound settings base history t' := by
  refine ⟨sound.shape.sets sets short, fun k content hx => ?_, fun k r blob' other' hx => ?_⟩
  · rw [sets.other fun here => other (List.cons.inj here).1.symm] at hx
    exact sound.originals k content hx
  · rw [sets.node] at hx
    split at hx
    · cases hx
      exact written
    · exact sound.renditions k r blob' other' hx

theorem prunes (sound : Sound settings base history t) (prunes : t.Prunes (imageDir base h) t') :
    Sound settings base history t' := by
  have kept {l : Loc} {x : Node} (hx : t'.node l = some x) : t.node l = some x := by
    rw [prunes.node] at hx
    split at hx
    · cases hx
    · exact hx
  exact ⟨sound.shape.prunes prunes, fun k content hx => sound.originals k content (kept hx),
    fun k q blob other hx => sound.renditions k q blob other (kept hx)⟩

end Sound

/-! ## The operations -/

structure Ordered (settings : Settings) (base : Loc) (history : History Im) (w : World) : Prop where
  disk : ∃ t n, w.disk = .idle t n ∧
    (settings.imgPath.bytes.length ≤ 254 → Sound settings base history t) ∧
    (254 < settings.imgPath.bytes.length → Flat settings base t)

def Keeps (settings : Settings) (op : StoreOp) (reply : Int × Bytes) (w : World) : Prop :=
  ∀ thrArg buff, op = .upload thrArg buff → reply.1 = 1 →
    w.disk.tree.lookup (origPath settings (md5Of buff).bytes) = some (.file buff)

section Short
variable (short : settings.imgPath.bytes.length ≤ 254)

include short

theorem Ordered.of_sound {n : Nat} (sound : Sound settings base history t)
    (idle : w.disk = .idle t n) : Ordered settings base history w :=
  ⟨t, n, idle, fun _ => sound, fun long => by omega⟩

theorem wp_saveImg_sound {thrArg : ThrArg} {n : Nat} (sound : Sound settings base history t)
    (flock : env.faults.flock = false) (write : env.faults.write = false)
    (uploaded : Uploads history buff) (distinct : NoCollision history) :
    env.machine.wp (saveImgModeDisk settings thrArg (md5Of buff).bytes buff) (fun r w' =>
      Ordered settings base history w' ∧ (r = 1 →
        w'.disk.tree.lookup (origPath settings (md5Of buff).bytes) = some (.file buff)))
      (w.at t n) := by
  refine wp_saveImgModeDisk short sound.shape (fun t' x cache grown hx _ => ?_)
    (fun t' grown _ _ => ?_) (fun t' t'' b _ _ _ fault => ?_)
    fun t' t'' cache grown _ _ sets _ => ?_
  · have sound' := sound.grown grown
    obtain ⟨uploaded', same⟩ := sound.originals _ _ hx
    refine ⟨.of_sound short sound' rfl, fun _ => ?_⟩
    change t'.lookup _ = _
    rw [sound'.shape.lookup_orig short, grown.inside, hx, distinct x buff uploaded' uploaded same]
  · exact ⟨.of_sound short (sound.grown grown) rfl, by simp⟩
  · rw [flock, write] at fault
    simp at fault
  · have sound' := (sound.grown grown).original short uploaded sets
    refine ⟨.of_sound short sound' rfl, fun _ => ?_⟩
    change t''.lookup _ = _
    rw [sound'.shape.lookup_orig short, sets.here]

theorem no_source {req : ZimgReq} {cache cache' : Bytes → Option Bytes} {im : Im} {n : Nat}
    (shape : Shape settings base t) (name : keptName settings req = ascii "0*0")
    (missed : Missed settings req.thrArg (rspCacheKey settings req) w.cache cache)
    (missing : t.node (origLoc base req.md5) = none)
    (source : Source settings req env ((w.caching cache).at t n) cache' im) : False := by
  have found {content : Bytes}
      (hf : t.lookup (origPath settings req.md5.bytes) = some (.file content)) : False := by
    rw [shape.lookup_orig short, missing] at hf
    cases hf
  cases source with
  | cached content im on held decoded =>
      obtain ⟨script, original⟩ := (keptName_eq_original short).mp name
      have gone := missed.gone on
      rw [rspCacheKey_original script original] at gone
      change cache req.md5.bytes = some content at held
      rw [gone] at held
      cases held
  | large content im cache missed hf => exact found hf
  | small content im buff cache cache' missed hf => exact found hf

theorem wp_getImg_sound {req : ZimgReq} {request : EvhtpRequest} {reply : Int × Bytes} {n : Nat}
    (sound : Sound settings base history t) (noDebris : NoDebris settings (.get req request, env))
    (member : ((.get req request, env), reply) ∈ history) :
    env.machine.wp (getImg settings req request) (fun _ w' => Ordered settings base history w')
      (w.at t n) := by
  refine wp_getImg_tree short sound.shape (fun _ => .of_sound short sound rfl)
    (fun _ _ _ _ => .of_sound short sound rfl)
    fun _ _ _ _ im buff toSave t' n' hd unkept missed source result saved => ?_
  refine .of_sound short ?_ rfl
  cases saved with
  | unsaved => exact sound
  | partial_ b t' save fault part sets =>
      rw [noDebris.flock, noDebris.write] at fault
      simp at fault
  | saved t' save sets =>
      by_cases name : keptName settings req = ascii "0*0"
      · exfalso
        have same : rspPath settings req = origPath settings req.md5.bytes := by
          rw [rspPath_short short, origPath_short short, name]
        have mayKeep : saveNew settings req true = true := by
          simp only [saveNew, decide_eq_true_eq] at save ⊢
          exact ⟨trivial, save.2⟩
        have reopened := noDebris.openRead req request rfl same mayKeep
        rw [keptLoc, name, reopened] at unkept
        have missing : t.node (origLoc base req.md5) = none := by
          simpa [orig_plain] using unkept
        exact no_source short sound.shape name missed missing source
      · exact sound.rendition name ⟨req, request, env, reply, im, toSave, member, result⟩
          (keptName_length short req) sets

theorem wp_handle_short {op : StoreOp} {reply : Int × Bytes} (mode : settings.mode = 1)
    (ordered : Ordered settings base history w) (noDebris : NoDebris settings (op, env))
    (member : ((op, env), reply) ∈ history) (distinct : NoCollision history) :
    env.machine.wp (handle settings op)
      (fun r w' => Ordered settings base history w' ∧ Keeps settings op r w') w := by
  obtain ⟨t, n, idle, sound, -⟩ := ordered
  have sound := sound short
  have keepsNone {op : StoreOp} (other : ∀ thrArg buff, op ≠ .upload thrArg buff) (r : Int × Bytes)
      (w' : World) : Keeps settings op r w' := fun thrArg buff same => absurd same (other thrArg buff)
  cases op with
  | upload thrArg buff =>
      rw [handle, saveImg]
      dsimp only
      rw [if_neg (by simp [mode]), Machine.wp_bind, World.eq_at idle]
      refine Machine.wp_mono (wp_saveImg_sound short sound noDebris.flock noDebris.write
        ⟨thrArg, env, reply, member⟩ distinct) ?_
      rintro r w' ⟨ordered', kept⟩
      refine ⟨ordered', fun thrArg' buff' same accepted => ?_⟩
      cases same
      exact kept accepted
  | get req request =>
      rw [handle, wp_replying, callGetImg, if_pos mode, World.eq_at idle,
        World.requested_at]
      exact Machine.wp_mono (wp_getImg_sound short sound noDebris member)
        fun r w' ordered' => ⟨ordered', keepsNone (by simp) _ _⟩
  | info thrArg md5 =>
      rw [handle, wp_replying, callInfoImg, if_pos mode, World.eq_at idle,
        World.requested_at]
      exact wp_infoImg short sound.shape (fun _ => ⟨.of_sound short sound rfl, keepsNone (by simp) _ _⟩)
        fun _ _ _ => ⟨.of_sound short sound rfl, keepsNone (by simp) _ _⟩
  | admin thrArg md5 cmd =>
      rw [handle, wp_replying, callAdminImg, if_pos mode, World.eq_at idle,
        World.requested_at]
      refine wp_adminImg short sound.shape
        (fun _ => ⟨.of_sound short sound rfl, keepsNone (by simp) _ _⟩)
        (fun _ _ => ⟨.of_sound short sound rfl, keepsNone (by simp) _ _⟩) fun t' _ _ prunes => ?_
      rw [wp_addAdminPage]
      exact ⟨.of_sound short (sound.prunes prunes) rfl, keepsNone (by simp) _ _⟩

end Short

theorem wp_handle_long (long : 254 < settings.imgPath.bytes.length)
    (cuts : settings.imgPath.bytes.length ≤ 505) {op : StoreOp} (mode : settings.mode = 1)
    (ordered : Ordered settings base history w) :
    env.machine.wp (handle settings op)
      (fun r w' => Ordered settings base history w' ∧ Keeps settings op r w') w := by
  obtain ⟨t, n, idle, -, flat⟩ := ordered
  have flat := flat long
  have stays (w' : World) (n' : Nat) : Ordered settings base history (w'.at t n') :=
    ⟨t, n', rfl, fun short => by omega, fun _ => flat⟩
  cases op with
  | upload thrArg buff =>
      rw [handle, saveImg]
      dsimp only
      rw [if_neg (by simp [mode]), Machine.wp_bind, World.eq_at idle]
      refine Machine.wp_mono (wp_saveImgModeDisk_long (h := md5Of buff) long (by omega) flat) ?_
      rintro r w' ⟨-, refused⟩
      obtain ⟨rfl, n', rfl⟩ := refused cuts
      exact ⟨stays w n', fun thrArg' buff' _ accepted => by simp at accepted⟩
  | get req request =>
      rw [handle, wp_replying, callGetImg, if_pos mode, World.eq_at idle,
        World.requested_at, wp_getImg_long (by omega) flat]
      exact ⟨stays _ n, fun _ _ impossible => by cases impossible⟩
  | info thrArg md5 =>
      rw [handle, wp_replying, callInfoImg, if_pos mode, World.eq_at idle,
        World.requested_at, wp_infoImg_long (by omega) flat]
      exact ⟨stays _ n, fun _ _ impossible => by cases impossible⟩
  | admin thrArg md5 cmd =>
      rw [handle, wp_replying, callAdminImg, if_pos mode, World.eq_at idle,
        World.requested_at, wp_adminImg_long (by omega) flat]
      exact ⟨stays _ n, fun _ _ impossible => by cases impossible⟩

theorem wp_handle_ordered (cuts : settings.imgPath.bytes.length ≤ 505) {op : StoreOp}
    {reply : Int × Bytes} (mode : settings.mode = 1) (ordered : Ordered settings base history w)
    (noDebris : NoDebris settings (op, env)) (member : ((op, env), reply) ∈ history)
    (distinct : NoCollision history) :
    env.machine.wp (handle settings op)
      (fun r w' => Ordered settings base history w' ∧ Keeps settings op r w') w := by
  by_cases short : settings.imgPath.bytes.length ≤ 254
  · exact wp_handle_short short mode ordered noDebris member distinct
  · exact wp_handle_long (by omega) cuts mode ordered

/-! ## Whole histories -/

theorem lookup_rsp_long (long : 254 < settings.imgPath.bytes.length)
    (cuts : settings.imgPath.bytes.length ≤ 505) (flat : Flat settings base t) (h : Md5)
    (name : Bytes) : t.lookup (cut 512 (wholePath settings h.bytes ++ name)) = none := by
  have deep := keptBelow_deep cuts h name
  rw [cut_whole (by omega), Tree.lookup, flat.resolve (keptBelow_head (by omega) h name),
    if_pos deep, Option.bind_none]

theorem Ordered.originals (ordered : Ordered settings base history w)
    (cuts : settings.imgPath.bytes.length ≤ 505) {content : Bytes}
    (found : w.disk.tree.lookup (origPath settings h.bytes) = some (.file content)) :
    Uploads history content ∧ md5Of content = h := by
  obtain ⟨t, n, idle, sound, flat⟩ := ordered
  rw [idle] at found
  change t.lookup _ = _ at found
  by_cases short : settings.imgPath.bytes.length ≤ 254
  · rw [(sound short).shape.lookup_orig short] at found
    exact (sound short).originals h content found
  · rw [origPath, snprintf, lookup_rsp_long (by omega) cuts (flat (by omega))] at found
    cases found

theorem Ordered.renditions (ordered : Ordered settings base history w)
    (cuts : settings.imgPath.bytes.length ≤ 505) {req : ZimgReq} {blob : Bytes}
    (other : rspPath settings req ≠ origPath settings req.md5.bytes)
    (found : w.disk.tree.lookup (rspPath settings req) = some (.file blob)) :
    WrittenFor settings history blob := by
  obtain ⟨t, n, idle, sound, flat⟩ := ordered
  rw [idle] at found
  change t.lookup _ = _ at found
  by_cases short : settings.imgPath.bytes.length ≤ 254
  · have sound := sound short
    rw [rspPath_short short] at found other
    by_cases hd : t.node (imageDir base req.md5) = some .dir
    · rw [sound.shape.lookup_file hd (keptName_head short req)] at found
      split at found
      · cases found
      · refine sound.renditions req.md5 _ blob (fun name => other ?_) found
        rw [name, origPath_short short]
    · rw [Tree.lookup, sound.shape.no_file hd] at found
      cases found
  · rw [rspPath_eq, lookup_rsp_long (by omega) cuts (flat (by omega))] at found
    cases found

theorem Fresh.ordered (fresh : Fresh settings base w) (mode : settings.mode = 1) :
    Ordered settings base history w := by
  obtain ⟨t, n, idle, resolved, leaf⟩ := fresh.disk mode
  exact ⟨t, n, idle, fun _ => .of_empty resolved leaf history, fun _ => .of_empty resolved leaf⟩

theorem disk_store_intact (settings : Settings) (base : Loc) (w w' : World) (history : History Im)
    (mode : settings.mode = 1) (cuts : settings.imgPath.bytes.length ≤ 505)
    (fresh : Fresh settings base w) (run : Handled settings w history w')
    (distinct : NoCollision history) (noDebris : ∀ x ∈ history, NoDebris settings x.1) :
    Intact settings history w' := by
  have step (q : StoreOp × Env Im) (s : World)
      (known : (∃ reply, (q, reply) ∈ history) ∧ NoDebris settings q)
      (ordered : Ordered settings base history s) :=
    have ⟨⟨reply, member⟩, complete⟩ := known
    wp_handle_ordered cuts mode ordered complete member distinct
  have ordered {earlier : History Im} {s : World} (run : Handled settings w earlier s)
      (within : ∀ x ∈ earlier, x ∈ history) : Ordered settings base history s :=
    (run.always (G := fun _ _ => True)
      (fun q s known ordered => Machine.wp_mono (step q s known ordered) fun _ _ h => ⟨trivial, h.1⟩)
      (fun x member => ⟨⟨x.2, within x member⟩, noDebris x (within x member)⟩)
      (fresh.ordered mode)).2
  have last := ordered run fun _ => id
  refine ⟨fun earlier thrArg buff env name same => ?_, fun h content => last.originals cuts,
    fun req blob => last.renditions cuts⟩
  rw [same] at run
  obtain ⟨s, first, _ | ⟨final, ⟨⟩⟩⟩ := serves_append.mp run
  have member : ((.upload thrArg buff, env), (1, name)) ∈ history := by simp [same]
  have before := ordered first fun x inside => by simp [same, inside]
  exact (final.post (step _ _ ⟨⟨_, member⟩, noDebris _ member⟩ before)).2 thrArg buff rfl rfl

theorem noCollision_single
    (same : ∀ x ∈ history, ∀ thrArg b, x.1.1 = .upload thrArg b → b = buff) :
    NoCollision history := by
  rintro b b' ⟨_, _, _, member⟩ ⟨_, _, _, member'⟩ _
  rw [same _ member _ b rfl, same _ member' _ b' rfl]

/-! ## A refused lock -/

def faultyEnv (faults : Faults) : Env Bytes := { smallEnv some with faults := faults }

def smallSteps : List (StoreOp × Env Bytes) :=
  [(smallUpload, faultyEnv ⟨false, true, false, false⟩), (smallUpload, smallEnv some),
    (smallGet 5, faultyEnv ⟨true, false, false, false⟩)]

theorem disk_store_intact_small : ∃ (history : History Bytes) (w' : World),
    history.map Prod.fst = smallSteps ∧ Intact (smallSettings 1 0) history w' := by
  obtain ⟨history, w', run, same⟩ := serves_exists
    (fun (q : StoreOp × Env Bytes) => q.2.answers) (fun q => handle (smallSettings 1 0) q.1)
    smallWorld smallSteps
  have known {x : (StoreOp × Env Bytes) × (Int × Bytes)} (inside : x ∈ history) :
      x.1 ∈ smallSteps := same ▸ List.mem_map_of_mem inside
  simp only [smallSteps, List.mem_cons, List.not_mem_nil, or_false] at known
  refine ⟨history, w', same, disk_store_intact _ [ascii "img"] _ _ _ rfl (by decide)
    (smallWorld_fresh 1 0) run ?_ fun x inside => ?_⟩
  · have single : ∀ x ∈ history, ∀ thrArg b, x.1.1 = .upload thrArg b → b = ascii "a" := by
      intro x inside thrArg b upload
      rcases known inside with here | here | here <;> rw [here] at upload <;> cases upload <;> rfl
    exact noCollision_single single
  · rcases known inside with here | here | here <;> rw [here]
    · exact ⟨rfl, rfl, fun _ _ impossible => by cases impossible⟩
    · exact ⟨rfl, rfl, fun _ _ impossible => by cases impossible⟩
    · refine ⟨rfl, rfl, fun req request same path => ?_⟩
      cases same
      exact absurd path (by decide +kernel)

def lockEnv : Env Bytes := faultyEnv ⟨false, false, true, false⟩

def refuseLock : World → (op : SysOp Bytes) → op.Res
  | _, .disk (.flock _) => false
  | w, op => lockEnv.calm w op

theorem refuseLock_legal (w : World) (op : SysOp Bytes) :
    lockEnv.machine.Legal w op (refuseLock w op) := by
  unfold refuseLock
  split
  · exact .inr ⟨rfl, rfl⟩
  · exact .inl rfl

def refusedUpload : (Int × Bytes) × World :=
  lockEnv.machine.exec refuseLock (handle (smallSettings 1 0) smallUpload) smallWorld

def repeatedUpload : (Int × Bytes) × World :=
  (smallEnv some).machine.exec (smallEnv some).calm (handle (smallSettings 1 0) smallUpload)
    refusedUpload.2

/-- The second upload takes the empty file that the first one left for the original. -/
theorem disk_store_debris : ¬∀ (history : History Bytes) (w' : World),
    Handled (smallSettings 1 0) smallWorld history w' → NoCollision history →
    Intact (smallSettings 1 0) history w' := by
  intro intact
  have run : Handled (smallSettings 1 0) smallWorld
      [((smallUpload, lockEnv), refusedUpload.1), ((smallUpload, smallEnv some), repeatedUpload.1)]
      repeatedUpload.2 := by
    refine .cons (Machine.exec_runs refuseLock_legal _ _) (.cons ?_ (.nil _))
    exact Machine.exec_runs (fun _ _ => Or.inl rfl) _ _
  have single : ∀ x ∈ [((smallUpload, lockEnv), refusedUpload.1),
      ((smallUpload, smallEnv some), repeatedUpload.1)],
      ∀ thrArg b, x.1.1 = .upload thrArg b → b = ascii "a" := by
    intro x inside thrArg b upload
    simp only [List.mem_cons, List.not_mem_nil, or_false] at inside
    rcases inside with rfl | rfl <;> cases upload <;> rfl
  have code : repeatedUpload.1.1 = 1 := by decide +kernel
  have reply : repeatedUpload.1 = (1, repeatedUpload.1.2) := by rw [← code]
  have accepted := (intact _ _ run (noCollision_single single)).accepted
    [((smallUpload, lockEnv), refusedUpload.1)] smallThread (ascii "a") (smallEnv some)
    repeatedUpload.1.2 (congrArg (fun r => [((smallUpload, lockEnv), refusedUpload.1),
      ((smallUpload, smallEnv some), r)]) reply)
  revert accepted
  decide +kernel

end Ximg
