import Ximg.DiskStore

/-!
# Paths that do not fit

`mk_dirs` keeps 255 bytes of a path, so below a longer `img_path` it makes no directory and no image
has one. The buffers of 512 bytes cut the names of images short.
-/

namespace Ximg
open Text Vfs Calls

variable {Im : Type} {env : Env Im} {settings : Settings} {base : Loc} {w : World}
  {t t' : Tree} {n : Nat} {h : Md5}

structure Flat (settings : Settings) (base : Loc) (t : Tree) : Prop where
  anchored : t.Anchored settings.imgPath.bytes base
  flat : ∀ m, t.node (m :: base) ≠ some .dir

namespace Flat

theorem of_empty (resolved : t.resolve (settings.imgPath.bytes ++ [slash]) = some base)
    (leaf : ∀ m, t.node (m :: base) = none) : Flat settings base t :=
  ⟨.of_empty resolved (Tree.node_under_leaf leaf), fun m => by simp [leaf m]⟩

theorem resolve (flat : Flat settings base t) {q : Bytes}
    (head : ∃ c s, q = c :: s ∧ c ≠ dot ∧ c ≠ slash) :
    t.resolve (settings.imgPath.bytes ++ slash :: q) =
      if slash ∈ q then none else some (q :: base) := by
  obtain ⟨c, s, rfl, hc, hs⟩ := head
  rw [flat.anchored.resolve_below]
  exact walk_file flat.anchored.dir flat.flat hc hs

theorem lookup_ne_dir (flat : Flat settings base t) {q : Bytes}
    (head : ∃ c s, q = c :: s ∧ c ≠ dot ∧ c ≠ slash) :
    t.lookup (settings.imgPath.bytes ++ slash :: q) ≠ some .dir := by
  rw [Tree.lookup, flat.resolve head]
  split
  · simp
  · exact flat.flat q

theorem sets (flat : Flat settings base t) {m b : Bytes}
    (sets : t.Sets (m :: base) (some (.file b)) t') : Flat settings base t' := by
  refine ⟨flat.anchored.mono sets.cwd fun l outside hl => ?_, fun m' => ?_⟩
  · rw [sets.other (outside m [])]
    exact hl
  · rw [sets.node]
    split
    · simp
    · exact flat.flat m'

end Flat

/-! ## The text of the paths -/

section Long
variable (long : 254 < settings.imgPath.bytes.length)
  (cuts : settings.imgPath.bytes.length ≤ 509)

def belowImgPath (h : Md5) : Bytes := lvl1 h ++ slash :: (lvl2 h ++ slash :: h.bytes)

theorem belowImgPath_head (h : Md5) {k : Nat} (hk : 0 < k) :
    ∃ c s, (belowImgPath h).take k = c :: s ∧ c ≠ dot ∧ c ≠ slash := by
  have name := isName_decimalNat (strHash h.bytes)
  have digits := decimalNat_digits (strHash h.bytes)
  obtain ⟨k, rfl⟩ := Nat.exists_eq_succ_of_ne_zero hk.ne'
  cases hs : decimalNat (strHash h.bytes) with
  | nil => exact absurd hs name.1
  | cons c s =>
      rw [hs] at digits
      refine ⟨c, _, by simp [belowImgPath, lvl1, hs, List.take_succ_cons]; rfl, ?_, ?_⟩ <;>
        rintro rfl <;> exact absurd (digits _ List.mem_cons_self) (by decide)

theorem wholePath_long (h : Md5) : wholePath settings h.bytes =
    cut 512 (settings.imgPath.bytes ++ slash :: belowImgPath h) := by
  rw [wholePath_eq]
  simp [pathTo, levels, belowImgPath]

theorem cut_below {q : Bytes} (cuts : settings.imgPath.bytes.length ≤ 509) :
    cut 512 (settings.imgPath.bytes ++ slash :: q) =
      settings.imgPath.bytes ++ slash :: q.take (510 - settings.imgPath.bytes.length) := by
  have room : 512 - 1 - settings.imgPath.bytes.length =
      (510 - settings.imgPath.bytes.length) + 1 := by omega
  rw [cut, List.take_append, room, List.take_succ_cons, List.take_of_length_le (by omega)]

def keptBelow (settings : Settings) (h : Md5) (more : Bytes) : Bytes :=
  ((belowImgPath h).take (510 - settings.imgPath.bytes.length) ++ more).take
    (510 - settings.imgPath.bytes.length)

theorem cut_whole (cuts : settings.imgPath.bytes.length ≤ 509) (h : Md5) (more : Bytes) :
    cut 512 (wholePath settings h.bytes ++ more) =
      settings.imgPath.bytes ++ slash :: keptBelow settings h more := by
  rw [wholePath_long, cut_below cuts, List.append_assoc, List.cons_append, cut_below cuts,
    keptBelow]

theorem keptBelow_head (cuts : settings.imgPath.bytes.length ≤ 509) (h : Md5) (more : Bytes) :
    ∃ c s, keptBelow settings h more = c :: s ∧ c ≠ dot ∧ c ≠ slash := by
  have room : 0 < 510 - settings.imgPath.bytes.length := by omega
  obtain ⟨c, s, head, plain⟩ := belowImgPath_head h room
  obtain ⟨k, hk⟩ := Nat.exists_eq_succ_of_ne_zero room.ne'
  rw [keptBelow, head, hk, List.cons_append, List.take_succ_cons]
  exact ⟨c, _, rfl, plain⟩

theorem keptBelow_deep (short : settings.imgPath.bytes.length ≤ 505) (h : Md5) (more : Bytes) :
    slash ∈ keptBelow settings h more := by
  have level := (lvl_length h).1
  obtain ⟨k, hk⟩ : ∃ k, 510 - settings.imgPath.bytes.length = (lvl1 h).length + (k + 1) :=
    ⟨509 - settings.imgPath.bytes.length - (lvl1 h).length, by omega⟩
  rw [keptBelow, hk, belowImgPath, List.take_length_add_append, List.take_succ_cons,
    List.append_assoc, List.take_length_add_append, List.cons_append, List.take_succ_cons]
  simp

theorem wholePath_head (settings : Settings) (cuts : settings.imgPath.bytes.length ≤ 509) (h : Md5) :
    ∃ q, wholePath settings h.bytes = settings.imgPath.bytes ++ slash :: q ∧
      ∃ c s, q = c :: s ∧ c ≠ dot ∧ c ≠ slash := by
  have room : 0 < 510 - settings.imgPath.bytes.length := by omega
  obtain ⟨c, s, head, plain⟩ := belowImgPath_head h room
  exact ⟨_, by rw [wholePath_long, cut_below cuts], c, s, head, plain⟩

/-! ## The image functions -/

theorem isDir_long (cuts : settings.imgPath.bytes.length ≤ 509) (flat : Flat settings base t)
    {Q : Int → World → Prop} :
    env.machine.wp (isDir (wholePath settings h.bytes)) Q (w.at t n) ↔ Q (-1) (w.at t n) := by
  obtain ⟨q, path, head⟩ := wholePath_head settings cuts h
  rw [wp_isDir, path]
  simp [Disk.idle, flat.lookup_ne_dir head]

theorem wp_getImg_long (cuts : settings.imgPath.bytes.length ≤ 509) (flat : Flat settings base t)
    {req : ZimgReq} {request : EvhtpRequest} {Q : Int → World → Prop} :
    env.machine.wp (getImg settings req request) Q (w.at t n) ↔ Q (-1) (w.at t n) := by
  rw [getImg, Machine.wp_bind, isDir_long cuts flat, if_pos rfl]
  rfl

theorem wp_infoImg_long (cuts : settings.imgPath.bytes.length ≤ 509) (flat : Flat settings base t)
    {Q : Int → World → Prop} :
    env.machine.wp (infoImg settings h.bytes) Q (w.at t n) ↔ Q 0 (w.at t n) := by
  rw [infoImg, Machine.wp_bind, isDir_long cuts flat, if_pos rfl]
  rfl

theorem wp_adminImg_long (cuts : settings.imgPath.bytes.length ≤ 509) (flat : Flat settings base t)
    {cmd : Int32} {Q : Int → World → Prop} :
    env.machine.wp (adminImg settings h.bytes cmd) Q (w.at t n) ↔ Q 2 (w.at t n) := by
  rw [adminImg, Machine.wp_bind, isDir_long cuts flat, if_pos rfl]
  rfl

theorem imgPath_prefix (settings : Settings) (h : Md5) : settings.imgPath.bytes <+: wholePath settings h.bytes := by
  have fits := settings.imgPath.fits
  rw [wholePath_long]
  refine List.prefix_of_prefix_length_le (List.prefix_append _ _) (List.take_prefix _ _) ?_
  rw [cut, List.length_take, List.length_append]
  omega

theorem wp_mkDirs_long (long : 254 < settings.imgPath.bytes.length) (flat : Flat settings base t) :
    env.machine.wp (mkDirs (wholePath settings h.bytes)) (fun _ w' => w' = w.at t n) (w.at t n) := by
  rw [mkDirs]
  have whole (tmp : Bytes) : tmp.take 1 ++ tmp.drop 1 = tmp := List.take_append_drop 1 tmp
  refine Machine.wp_mono (wp_mkDirsLoop (I := (t = ·)) ?_ rfl) ?_
  · rintro _ q m l rfl makes free
    rw [whole] at makes
    exfalso
    obtain ⟨small, part⟩ := mkDirsTmp_prefix makes.2
    have start := imgPath_prefix settings h
    have inside : q ++ [slash] <+: settings.imgPath.bytes := by
      rcases part with part | rfl
      · refine List.prefix_of_prefix_length_le part start ?_
        rw [List.length_append, List.length_singleton]
        omega
      · have := start.length_le
        omega
    obtain ⟨r, hr⟩ := inside.trans (List.prefix_append _ [slash])
    have found : t.lookup q = some .dir := by
      refine Tree.lookup_prefix (q := r) (l := base) (makes_ne_nil makes) ?_
      rw [← flat.anchored.resolve, ← hr]
      simp
    obtain ⟨resolved, missing⟩ := Tree.vacant_iff.mp free
    rw [Tree.lookup, resolved, Option.bind_some, missing] at found
    cases found
  · rintro r _ ⟨t', rfl, rfl, -⟩
    rfl

theorem wp_newImg_long (flat : Flat settings base t) {buff q : Bytes}
    (head : ∃ c s, q = c :: s ∧ c ≠ dot ∧ c ≠ slash) :
    env.machine.wp (newImg buff (settings.imgPath.bytes ++ slash :: q)) (fun r w' =>
      (∃ t' n', w' = w.at t' n' ∧ Flat settings base t') ∧
        (slash ∈ q → r = -1 ∧ ∃ n', w' = w.at t n')) (w.at t n) := by
  have target (m : Bytes) (l : Loc)
      (ht : t.target (settings.imgPath.bytes ++ slash :: q) = some (m, l)) :
      slash ∉ q ∧ m = q ∧ l = base := by
    obtain ⟨resolved, -⟩ := Tree.target_iff.mp ht
    rw [flat.resolve head] at resolved
    split at resolved
    · cases resolved
    · obtain ⟨rfl, rfl⟩ := List.cons.inj (Option.some.inj resolved)
      exact ⟨by assumption, rfl, rfl⟩
  refine wp_newImg (fun _ => ⟨⟨t, n, rfl, flat⟩, fun _ => ⟨rfl, n, rfl⟩⟩)
    (fun m l b t' ht _ _ sets => ?_) fun m l t' ht sets => ?_
  all_goals
    obtain ⟨plain, rfl, rfl⟩ := target m l ht
    exact ⟨⟨t', n + 1, rfl, flat.sets sets⟩, fun inside => absurd inside plain⟩

theorem wp_saveImgModeDisk_long (long : 254 < settings.imgPath.bytes.length)
    (cuts : settings.imgPath.bytes.length ≤ 509) (flat : Flat settings base t) {thrArg : ThrArg}
    {buff : Bytes} :
    env.machine.wp (saveImgModeDisk settings thrArg h.bytes buff) (fun r w' =>
      (∃ t' n' cache, w' = (w.caching cache).at t' n' ∧ Flat settings base t') ∧
        (settings.imgPath.bytes.length ≤ 505 → r = -1 ∧ ∃ n', w' = w.at t n')) (w.at t n) := by
  have path := cut_whole cuts h (ascii "/0*0")
  have head := keptBelow_head cuts h (ascii "/0*0")
  have deep (short : settings.imgPath.bytes.length ≤ 505) := keptBelow_deep short h (ascii "/0*0")
  rw [saveImgModeDisk, Machine.wp_bind, ensureDir, Machine.wp_bind, isDir_long cuts flat,
    if_pos (by decide)]
  refine Machine.wp_mono (wp_mkDirs_long long flat) ?_
  rintro r _ rfl
  have kept : ∃ t' n' cache, w.at t n = (w.caching cache).at t' n' ∧ Flat settings base t' :=
    ⟨t, n, w.cache, rfl, flat⟩
  split
  · exact ⟨kept, fun _ => ⟨rfl, n, rfl⟩⟩
  rw [Machine.wp_bind, origPath, snprintf, path]
  refine wp_ensureFile (fun found => ?_) fun _ => ?_
  · rw [if_neg (by decide), Machine.wp_bind]
    refine wp_cacheImg fun cache _ => ⟨⟨t, n, cache, rfl, flat⟩, fun short => ?_⟩
    simp [Disk.idle, Tree.lookup, flat.resolve head, deep short, isRegular] at found
  · refine Machine.wp_mono (wp_newImg_long flat head) ?_
    rintro r w' ⟨⟨t', n', rfl, flat'⟩, unopened⟩
    split
    · exact ⟨⟨t', n', w.cache, rfl, flat'⟩, fun short => ⟨rfl, (unopened (deep short)).2⟩⟩
    · rename_i hr
      rw [Machine.wp_bind]
      exact wp_cacheImg fun cache _ =>
        ⟨⟨t', n', cache, rfl, flat'⟩, fun short => absurd (unopened (deep short)).1 hr⟩

end Long

/-! ## Paths that end with `img_path` -/

section Full
variable (full : 509 < settings.imgPath.bytes.length)

def fullPath (settings : Settings) : Bytes := cut 512 (settings.imgPath.bytes ++ [slash])

include full

theorem length_fullPath : (fullPath settings).length = 511 := by
  rw [fullPath, cut, List.length_take, List.length_append, List.length_singleton]
  omega

theorem wholePath_full (h : Md5) : wholePath settings h.bytes = fullPath settings := by
  have long : 512 - 1 ≤ (settings.imgPath.bytes ++ [slash]).length := by
    rw [List.length_append, List.length_singleton]
    omega
  have text : settings.imgPath.bytes ++ slash :: belowImgPath h =
      (settings.imgPath.bytes ++ [slash]) ++ belowImgPath h := by simp
  rw [wholePath_long, text, cut, List.take_append_of_le_length long]
  rfl

theorem cut_full (h : Md5) (more : Bytes) :
    cut 512 (wholePath settings h.bytes ++ more) = fullPath settings := by
  have long := length_fullPath full
  rw [wholePath_full full, cut, List.take_append_of_le_length long.ge,
    List.take_of_length_le long.le]

theorem origPath_full (h : Md5) : origPath settings h.bytes = fullPath settings := cut_full full h _

theorem rspPath_full (req : ZimgReq) : rspPath settings req = fullPath settings := by
  rw [rspPath_eq, cut_full full]

def Quiet (settings : Settings) (cache : Bytes → Option Bytes) (t : Tree) : Prop :=
  (∀ key, cache key = none) ∨ ∃ b, t.lookup (fullPath settings) = some (.file b)

omit full in
theorem Quiet.empty {cache : Bytes → Option Bytes} (quiet : Quiet settings cache t)
    (dir : t.lookup (fullPath settings) = some .dir) (key : Bytes) : cache key = none := by
  refine quiet.resolve_right ?_ key
  rintro ⟨b, file⟩
  rw [dir] at file
  cases file

omit full in
theorem Missed.none {thrArg : ThrArg} {key : Bytes} {cache cache' : Bytes → Option Bytes}
    (missed : Missed settings thrArg key cache cache') (empty : ∀ key, cache key = none)
    (key' : Bytes) : cache' key' = none := by
  rcases missed.change with rfl | rfl
  · exact empty key'
  · simp [Env.erased, Function.update_apply, empty]

theorem isDir_full {Q : Int → World → Prop} :
    env.machine.wp (isDir (wholePath settings h.bytes)) Q (w.at t n) ↔
      Q (if t.lookup (fullPath settings) = some .dir then 1 else -1) (w.at t n) := by
  rw [wp_isDir, wholePath_full full]
  rfl

theorem wp_getImg_full (calm : env.faults = .none) (quiet : Quiet settings w.cache t)
    {req : ZimgReq} {request : EvhtpRequest} :
    env.machine.wp (getImg settings req request) (fun r w' => r = -1 ∧ w'.out = w.out ∧
      ∃ n', w'.disk = .idle t n' ∧ Quiet settings w'.cache t) (w.at t n) := by
  simp only [getImg, disk_bind, Prog.pure_eq]
  rw [Machine.wp_bind, isDir_full full]
  by_cases dir : t.lookup (fullPath settings) = some .dir
  swap
  · rw [if_neg dir, if_pos rfl]
    exact ⟨rfl, rfl, n, rfl, quiet⟩
  have empty := quiet.empty dir
  rw [if_pos dir, if_neg (by decide), Machine.wp_bind]
  refine wp_findCacheBin (fun cache missed => ?_) fun value _ held => ?_
  swap
  · have gone : (w.at t n).cache (rspCacheKey settings req) = none := empty _
    rw [gone] at held
    cases held
  have quiet' : Quiet settings cache t := .inl (missed.none empty)
  dsimp only
  rw [rspPath_full full]
  change env.machine.wp _ _ ((w.caching cache).at t n)
  refine wp_openRead (fun unopened => ?_) fun l x hl hx => ?_
  · simp [dir, calm, Faults.none] at unopened
  · have isDir : t.node l = some .dir := by
      rw [Tree.lookup, hl] at dir
      exact dir
    simp only [sendRsp, disk_bind, Prog.pure_eq]
    rw [Machine.wp_bind]
    refine wp_readRsp (fun _ => wp_close ⟨rfl, rfl, n + 1, rfl, quiet'⟩) fun b hb => ?_
    rw [isDir] at hb
    cases hb

omit full in
theorem wp_mkDirs_keeps (dir : Bytes) :
    env.machine.wp (mkDirs dir) (fun _ w' => ∃ t', w' = w.at t' n ∧ t.Keeps t') (w.at t n) := by
  rw [mkDirs]
  refine Machine.wp_mono (wp_mkDirsLoop (I := t.Keeps) ?_ (.refl t)) ?_
  · intro t₁ q m l keeps _ free
    exact keeps.trans (.made free)
  · rintro r _ ⟨t', rfl, keeps, -⟩
    exact ⟨t', rfl, keeps⟩

omit full in
theorem wp_ensureDir_keeps (dir : Bytes) :
    env.machine.wp (ensureDir dir) (fun _ w' => ∃ t', w' = w.at t' n ∧ t.Keeps t') (w.at t n) := by
  rw [ensureDir, Machine.wp_bind, wp_isDir]
  by_cases found : (w.at t n).disk.tree.lookup dir = some .dir
  · rw [if_pos found, if_neg (by decide)]
    exact ⟨t, rfl, .refl t⟩
  · rw [if_neg found, if_pos (by decide)]
    exact wp_mkDirs_keeps dir

theorem wp_saveImgModeDisk_full (calm : env.faults = .none) (quiet : Quiet settings w.cache t)
    {thrArg : ThrArg} {buff : Bytes} :
    env.machine.wp (saveImgModeDisk settings thrArg h.bytes buff) (fun _ w' =>
      ∃ t' n', w'.disk = .idle t' n' ∧ Quiet settings w'.cache t') (w.at t n) := by
  rw [saveImgModeDisk, Machine.wp_bind, wholePath_full full]
  refine Machine.wp_mono (wp_ensureDir_keeps _) ?_
  rintro r _ ⟨t', rfl, keeps⟩
  have quiet' : Quiet settings w.cache t' := quiet.imp_right (Exists.imp fun b file => keeps.lookup file)
  have accepted {t'' : Tree} {n' : Nat} {b : Bytes}
      (file : t''.lookup (fullPath settings) = some (.file b)) :
      env.machine.wp (cacheImg settings thrArg h.bytes buff) (fun _ w' =>
        ∃ t' n', w'.disk = .idle t' n' ∧ Quiet settings w'.cache t') (w.at t'' n') :=
    wp_cacheImg fun cache _ => ⟨t'', n', rfl, .inr ⟨b, file⟩⟩
  split
  · exact ⟨t', n, rfl, quiet'⟩
  rw [Machine.wp_bind, origPath_full full]
  refine wp_ensureFile (fun found => ?_) fun _ => ?_
  · rw [if_neg (by decide), Machine.wp_bind]
    change isRegular (t'.lookup (fullPath settings)) = true at found
    cases file : t'.lookup (fullPath settings) with
    | none => simp [file, isRegular] at found
    | some x =>
        cases x with
        | dir => simp [file, isRegular] at found
        | file b => exact accepted file
  · refine wp_newImg (fun _ => ?_) (fun m l b t'' _ fault => ?_) fun m l t'' target sets => ?_
    · rw [if_pos rfl]
      exact ⟨t', n, rfl, quiet'⟩
    · simp [calm, Faults.none] at fault
    · rw [if_neg (by decide), Machine.wp_bind]
      obtain ⟨resolved, noDir⟩ := Tree.target_iff.mp target
      refine accepted (b := buff) ?_
      rw [Tree.lookup, Tree.resolve_mono (sets.keeps_dirs noDir) sets.cwd resolved]
      exact sets.here

theorem wp_adminImg_full (quiet : Quiet settings w.cache t) {cmd : Int32} :
    env.machine.wp (adminImg settings h.bytes cmd) (fun _ w' =>
      ∃ t' n', w'.disk = .idle t' n' ∧ Quiet settings w'.cache t') (w.at t n) := by
  rw [adminImg, Machine.wp_bind, isDir_full full, wholePath_full full]
  by_cases dir : t.lookup (fullPath settings) = some .dir
  swap
  · rw [if_neg dir, if_pos rfl]
    exact ⟨t, n, rfl, quiet⟩
  have empty := quiet.empty dir
  rw [if_pos dir, if_neg (by decide)]
  split
  · rw [Machine.wp_bind]
    refine Machine.wp_mono wp_deleteFile ?_
    rintro r _ ⟨t', rfl⟩
    split
    · rw [Machine.wp_bind, addAdminPage]
      simp only [sys_bind, Env.wp_evbufferAddPrintf]
      rw [sys, Env.wp_headersAddHeader]
      exact ⟨t', n, rfl, .inl empty⟩
    · exact ⟨t', n, rfl, .inl empty⟩
  · exact ⟨t, n, rfl, quiet⟩

end Full
end Ximg
