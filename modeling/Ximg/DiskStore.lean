import Ximg.Conversion
import Ximg.Layout

/-!
# The tree below `img_path`

The directories of the two levels, the directories of the images, and files in these. Each image
function keeps the tree in this shape.
-/

namespace Ximg
open Text Vfs Calls

variable {settings : Settings} {base : Loc} {t t' t'' : Tree} {h : Md5}

/-- Below `img_path` there are only the directories of images and files inside these. -/
structure Shape (settings : Settings) (base : Loc) (t : Tree) : Prop where
  anchored : t.Anchored settings.imgPath.bytes base
  dir : ∀ n ns, t.node (n :: ns ++ base) = some .dir →
    pathLen settings (n :: ns) ≤ 254 ∧ ∃ h, n :: ns <:+ levels h
  file : ∀ n ns b, t.node (n :: ns ++ base) = some (.file b) →
    pathLen settings (n :: ns) ≤ 511 ∧ ∃ h, ns = levels h

namespace Shape

theorem of_empty (resolved : t.resolve (settings.imgPath.bytes ++ [slash]) = some base)
    (empty : ∀ n, t.node (n :: base) = none) : Shape settings base t := by
  have nothing := Tree.node_under_leaf empty
  refine ⟨.of_empty resolved nothing, fun n ns => ?_, fun n ns b => ?_⟩ <;> rw [nothing] <;>
    intro impossible <;> cases impossible

theorem lookup_whole (shape : Shape settings base t) (h : Md5) :
    t.lookup (pathTo settings (levels h)) = t.node (imageDir base h) :=
  lookup_pathTo shape.anchored (levels_names h)

theorem resolve_whole (shape : Shape settings base t) {x : Node}
    (hx : t.node (imageDir base h) = some x) :
    t.resolve (pathTo settings (levels h)) = some (imageDir base h) := by
  have parent : t.node ([lvl2 h, lvl1 h] ++ base) = some .dir := Tree.node_parent hx
  rw [levels, resolve_pathTo shape.anchored (levels_names h), if_pos parent]
  rfl

theorem not_file (shape : Shape settings base t) (ns : Loc) (shallow : ns.length ≤ 3) {x : Node}
    (hx : t.node (ns ++ base) = some x) : x = .dir := by
  cases x with
  | dir => rfl
  | file b =>
      cases ns with
      | nil =>
          rw [List.nil_append, shape.anchored.dir] at hx
          cases hx
      | cons n ns =>
          obtain ⟨-, h, rfl⟩ := shape.file n ns b hx
          simp [levels] at shallow

theorem imageDir_dir (shape : Shape settings base t) {x : Node}
    (hx : t.node (imageDir base h) = some x) : t.node (imageDir base h) = some .dir := by
  rw [hx, shape.not_file (levels h) (by simp [levels]) hx]

theorem fits (shape : Shape settings base t) (hd : t.node (imageDir base h) = some .dir) :
    Fits settings h := (shape.dir h.bytes [lvl2 h, lvl1 h] hd).1

theorem inside (shape : Shape settings base t) {n : Bytes} {x : Node}
    (hx : t.node (n :: imageDir base h) = some x) : ∃ b, x = .file b := by
  cases x with
  | file b => exact ⟨b, rfl⟩
  | dir =>
      obtain ⟨-, k, tail⟩ := shape.dir n (levels h) hx
      have := tail.length_le
      simp [levels] at this

theorem flat (shape : Shape settings base t) (n : Bytes) :
    t.node (n :: imageDir base h) ≠ some .dir := by
  intro hx
  obtain ⟨b, impossible⟩ := shape.inside hx
  cases impossible

theorem no_file (shape : Shape settings base t) (hd : t.node (imageDir base h) ≠ some .dir)
    (q : Bytes) : t.resolve (pathTo settings (levels h) ++ slash :: q) = none := by
  rw [resolve_below shape.anchored (levels_names h)]
  exact if_neg hd

theorem resolve_file (shape : Shape settings base t) (hd : t.node (imageDir base h) = some .dir)
    {q : Bytes} (head : ∃ c s, q = c :: s ∧ c ≠ dot ∧ c ≠ slash) :
    t.resolve (pathTo settings (levels h) ++ slash :: q) =
      if slash ∈ q then none else some (q :: imageDir base h) := by
  obtain ⟨c, s, rfl, hc, hs⟩ := head
  rw [resolve_below shape.anchored (levels_names h), ← imageDir, if_pos hd]
  exact walk_file hd shape.flat hc hs

theorem lookup_file (shape : Shape settings base t) (hd : t.node (imageDir base h) = some .dir)
    {q : Bytes} (head : ∃ c s, q = c :: s ∧ c ≠ dot ∧ c ≠ slash) :
    t.lookup (pathTo settings (levels h) ++ slash :: q) =
      if slash ∈ q then none else t.node (q :: imageDir base h) := by
  rw [Tree.lookup, shape.resolve_file hd head]
  split <;> rfl

theorem target_file (shape : Shape settings base t) (hd : t.node (imageDir base h) = some .dir)
    {q : Bytes} (head : ∃ c s, q = c :: s ∧ c ≠ dot ∧ c ≠ slash) :
    t.target (pathTo settings (levels h) ++ slash :: q) =
      if slash ∈ q then none else some (q, imageDir base h) := by
  rw [Tree.target, shape.resolve_file hd head]
  split
  · rename_i n l found
    split at found
    · cases found
    · rename_i plain
      obtain ⟨rfl, rfl⟩ := List.cons.inj (Option.some.inj found)
      rw [if_neg (shape.flat q), if_neg plain]
  · rename_i missing
    split
    · rfl
    · rename_i plain
      rw [if_neg plain] at missing
      exact absurd rfl (missing _ _)

theorem target_none (shape : Shape settings base t) (hd : t.node (imageDir base h) ≠ some .dir)
    (q : Bytes) : t.target (pathTo settings (levels h) ++ slash :: q) = none := by
  rw [Tree.target, shape.no_file hd]

theorem sets (shape : Shape settings base t) {q b : Bytes}
    (sets : t.Sets (q :: imageDir base h) (some (.file b)) t')
    (short : pathLen settings (q :: levels h) ≤ 511) : Shape settings base t' := by
  refine ⟨shape.anchored.mono sets.cwd fun l outside hl => ?_, fun n ns hx => ?_,
    fun n ns x hx => ?_⟩
  · rw [sets.other (outside q (levels h))]
    exact hl
  · rw [sets.node] at hx
    split at hx
    · cases hx
    · exact shape.dir n ns hx
  · rw [sets.node] at hx
    split at hx
    · rename_i here
      have same : n :: ns ++ base = (q :: levels h) ++ base := here
      obtain ⟨rfl, rfl⟩ := List.cons.inj (List.append_cancel_right same)
      exact ⟨short, h, rfl⟩
    · exact shape.file n ns x hx

theorem prunes (shape : Shape settings base t) (prunes : t.Prunes (imageDir base h) t') :
    Shape settings base t' := by
  refine ⟨shape.anchored.mono prunes.cwd fun l outside hl => ?_, fun n ns hx => ?_,
    fun n ns b hx => ?_⟩
  · rw [prunes.node, if_neg]
    · exact hl
    · rintro ⟨ns, rfl⟩
      cases ns with
      | nil => exact outside h.bytes [lvl2 h, lvl1 h] rfl
      | cons n ns => exact outside n (ns ++ levels h) (by simp [imageDir])
  · rw [prunes.node] at hx
    split at hx
    · cases hx
    · exact shape.dir n ns hx
  · rw [prunes.node] at hx
    split at hx
    · cases hx
    · exact shape.file n ns b hx

end Shape

theorem below_imageDir {k : Md5} : imageDir base h <:+ imageDir base k ↔ k = h := by
  constructor
  · intro tail
    exact (imageDir_inj (tail.eq_of_length (by simp [imageDir, levels]))).symm
  · rintro rfl
    exact List.suffix_rfl

theorem below_file {k : Md5} {q : Bytes} : imageDir base h <:+ q :: imageDir base k ↔ k = h := by
  rw [List.suffix_cons_iff, below_imageDir]
  refine or_iff_right fun same => ?_
  have := congrArg List.length same
  simp [imageDir, levels] at this

/-! ## Growing by directories -/

structure Grown (settings : Settings) (base : Loc) (h : Md5) (t t' : Tree) : Prop where
  cwd : t'.cwd = t.cwd
  node : ∀ l, t'.node l = t.node l ∨ (t.node l = none ∧ t'.node l = some .dir ∧
    ∃ n ns, l = n :: ns ++ base ∧ n :: ns <:+ levels h ∧ pathLen settings (n :: ns) ≤ 254)

namespace Grown

theorem refl (t : Tree) : Grown settings base h t t := ⟨rfl, fun _ => .inl rfl⟩

theorem keeps (grown : Grown settings base h t t') : t.Keeps t' := by
  refine ⟨grown.cwd, fun l x hx => ?_⟩
  rcases grown.node l with same | ⟨missing, -⟩
  · rw [same, hx]
  · rw [missing] at hx
    cases hx

theorem put {n : Bytes} {ns : Loc} (grown : Grown settings base h t t')
    (hd : t'.node (ns ++ base) = some .dir) (hn : IsName n)
    (free : t'.node (n :: ns ++ base) = none) (tail : n :: ns <:+ levels h)
    (short : pathLen settings (n :: ns) ≤ 254) :
    Grown settings base h t (t'.put n (ns ++ base) .dir) := by
  refine ⟨(Tree.put_cwd _ _ _ _).trans grown.cwd, fun l => ?_⟩
  have vacant : t'.node (n :: (ns ++ base)) ≠ some .dir := by
    rw [← List.cons_append, free]
    simp
  rw [Tree.node_put hd hn vacant]
  split
  · rename_i here
    refine .inr ⟨?_, rfl, n, ns, here, tail, short⟩
    rcases grown.node l with same | ⟨missing, -⟩
    · rw [← same, here]
      exact free
    · exact missing
  · exact grown.node l

theorem shape (grown : Grown settings base h t t') (shape : Shape settings base t) :
    Shape settings base t' := by
  refine ⟨shape.anchored.mono grown.cwd fun l _ => grown.keeps.node l .dir, ?_, ?_⟩
  · intro n ns hx
    rcases grown.node (n :: ns ++ base) with same | ⟨-, -, m, ms, same, tail, short⟩
    · exact shape.dir n ns (same ▸ hx)
    · rw [List.append_cancel_right same]
      exact ⟨short, h, tail⟩
  · intro n ns b hx
    rcases grown.node (n :: ns ++ base) with same | ⟨-, made, -⟩
    · exact shape.file n ns b (same ▸ hx)
    · rw [made] at hx
      cases hx

theorem other (grown : Grown settings base h t t') {k : Md5} (hk : k ≠ h) :
    t'.node (imageDir base k) = t.node (imageDir base k) := by
  rcases grown.node (imageDir base k) with same | ⟨-, -, n, ns, same, tail, -⟩
  · exact same
  · have := List.append_cancel_right same
    rw [← this] at tail
    exact absurd (levels_inj (tail.eq_of_length rfl)) hk

theorem inside (grown : Grown settings base h t t') (n : Bytes) (k : Md5) :
    t'.node (n :: imageDir base k) = t.node (n :: imageDir base k) := by
  rcases grown.node (n :: imageDir base k) with same | ⟨-, -, m, ms, same, tail, -⟩
  · exact same
  · have same' : (n :: levels k) ++ base = m :: ms ++ base := same
    rw [← List.append_cancel_right same'] at tail
    have := tail.length_le
    simp [levels] at this

end Grown

/-! ## The image functions on the tree -/

section Specs
variable {Im : Type} {env : Env Im} {w : World} {n : Nat}

theorem suffix_names {ns : Loc} (tail : ns <:+ levels h) : ∀ n ∈ ns, IsName n :=
  fun n member => levels_names h n (tail.subset member)

theorem makes_ne_nil {tmp q : Bytes} (makes : Makes (tmp.take 1) tmp q) : q ≠ [] := by
  rintro rfl
  have first := List.prefix_nil.mp makes.1
  have long := makes.2.length_le
  have : (tmp.take 1).length = 0 := by rw [first, List.length_nil]
  simp at this long
  simp [this] at long

theorem makes_pathTo {q : Bytes} {tmp : Bytes} (buffer : tmp = mkDirsTmp (pathTo settings (levels h)))
    (makes : Makes (tmp.take 1) tmp q)
    (resolved : t.resolve (settings.imgPath.bytes ++ [slash]) = some base) :
    t.lookup q = some .dir ∨ ∃ m ms, m :: ms <:+ levels h ∧ pathLen settings (m :: ms) ≤ 254 ∧
      q = pathTo settings (m :: ms) := by
  obtain ⟨short, part⟩ := mkDirsTmp_prefix (buffer ▸ makes.2)
  rcases pathTo_prefix (levels_names h) part with ⟨m, ms, tail, rfl⟩ | ⟨r, hr⟩
  · exact .inr ⟨m, ms, tail, length_pathTo settings _ ▸ short, rfl⟩
  · refine .inl (Tree.lookup_prefix (q := r) (l := base) (makes_ne_nil makes) ?_)
    rw [← resolved, ← hr]
    simp

theorem Grown.vacant {q m : Bytes} {tmp : Bytes} {l : Loc} (shape : Shape settings base t)
    (buffer : tmp = mkDirsTmp (pathTo settings (levels h))) (grown : Grown settings base h t t')
    (makes : Makes (tmp.take 1) tmp q) (free : t'.vacant q = some (m, l)) :
    Grown settings base h t (t'.put m l .dir) := by
  obtain ⟨hq, missing⟩ := Tree.vacant_iff.mp free
  have anchored := (grown.shape shape).anchored
  rcases makes_pathTo buffer makes anchored.resolve with found | ⟨m', ms, tail, short, rfl⟩
  · rw [Tree.lookup, hq, Option.bind_some, missing] at found
    cases found
  · rw [resolve_pathTo anchored (suffix_names tail)] at hq
    split at hq
    · rename_i above
      obtain ⟨rfl, rfl⟩ := List.cons.inj (Option.some.inj hq)
      exact grown.put above (suffix_names tail _ List.mem_cons_self) missing tail short
    · cases hq

theorem pathTo_last (h : Md5) : (pathTo settings (levels h)).getLast? ≠ some slash := by
  intro last
  have long := h.length
  cases hs : h.bytes using List.reverseRecOn with
  | nil => simp [hs] at long
  | append_singleton s c =>
      rw [levels, pathTo, hs, ← List.cons_append, ← List.append_assoc, List.getLast?_concat] at last
      refine h.isName.2.2.2 ?_
      rw [hs, Option.some.inj last]
      simp

theorem takes_one {tmp q : Bytes} (inside : q <+: tmp) (hq : q ≠ []) : tmp.take 1 <+: q := by
  refine List.prefix_of_prefix_length_le (List.take_prefix 1 tmp) inside ?_
  have := List.length_pos_of_ne_nil hq
  rw [List.length_take]
  omega

theorem Made.all {tmp : Bytes} {r : Int} (shape : Shape settings base t) (fits : Fits settings h)
    (buffer : tmp = mkDirsTmp (pathTo settings (levels h)))
    (made : Made (tmp.take 1) tmp r t) : r = 1 ∧ t.node (imageDir base h) = some .dir := by
  have short : (pathTo settings (levels h)).length ≤ 254 := length_pathTo settings _ ▸ fits
  have whole : tmp = pathTo settings (levels h) ++ [slash] :=
    buffer.trans (mkDirsTmp_short short (pathTo_last h))
  rcases made with ⟨rfl, all⟩ | ⟨-, q, makes, missing, stuck, earlier⟩
  · have found := all (pathTo settings (levels h))
      ⟨takes_one ⟨_, whole.symm⟩ (pathTo_ne_nil settings _ _), by rw [whole]⟩
    rw [shape.lookup_whole] at found
    obtain ⟨x, hx⟩ := Option.isSome_iff_exists.mp found
    exact ⟨rfl, shape.imageDir_dir hx⟩
  · exfalso
    rcases makes_pathTo buffer makes shape.anchored.resolve with found | ⟨m, ms, tail, -, rfl⟩
    · rw [missing] at found
      cases found
    · have above : t.node (ms ++ base) = some .dir := by
        cases ms with
        | nil => exact shape.anchored.dir
        | cons m' ms =>
            have inside : pathTo settings (m' :: ms) ++ [slash] <+: pathTo settings (m :: m' :: ms) :=
              ⟨m, by simp [pathTo]⟩
            have before : pathTo settings (m' :: ms) <+: tmp :=
              ((List.prefix_append _ _).trans inside).trans ((List.prefix_append _ _).trans makes.2)
            have found := earlier (pathTo settings (m' :: ms))
              (takes_one before (pathTo_ne_nil settings m' ms)) inside
            rw [lookup_pathTo shape.anchored fun k member =>
              suffix_names tail k (List.mem_cons_of_mem m member)] at found
            obtain ⟨x, hx⟩ := Option.isSome_iff_exists.mp found
            have shallow := tail.length_le
            rw [hx, shape.not_file (m' :: ms) ?_ hx]
            simp [levels] at shallow ⊢
            omega
      rw [lookup_pathTo shape.anchored (suffix_names tail)] at missing
      have resolved := resolve_pathTo shape.anchored (suffix_names tail)
      rw [if_pos above] at resolved
      have := Tree.vacant_iff.mpr ⟨resolved, missing⟩
      rw [stuck] at this
      cases this

theorem wp_mkDirs_whole (shape : Shape settings base t) :
    env.machine.wp (mkDirs (pathTo settings (levels h))) (fun r w' => ∃ t', w' = w.at t' n ∧
      Grown settings base h t t' ∧
      (Fits settings h → r = 1 ∧ t'.node (imageDir base h) = some .dir)) (w.at t n) := by
  rw [mkDirs]
  have whole (tmp : Bytes) : tmp.take 1 ++ tmp.drop 1 = tmp := List.take_append_drop 1 tmp
  refine Machine.wp_mono (wp_mkDirsLoop (I := Grown settings base h t) ?_ (.refl t)) ?_
  · intro t₁ q m l grown makes free
    rw [whole] at makes
    exact grown.vacant shape rfl makes free
  · rintro r _ ⟨t', rfl, grown, -, made⟩
    rw [whole] at made
    exact ⟨t', rfl, grown, fun fits => Made.all (grown.shape shape) fits rfl made⟩

abbrev origLoc (base : Loc) (h : Md5) : Loc := ascii "0*0" :: imageDir base h

theorem orig_head : ∃ c s, ascii "0*0" = c :: s ∧ c ≠ dot ∧ c ≠ slash :=
  ⟨48, [42, 48], rfl, by decide, by decide⟩

theorem orig_plain : slash ∉ ascii "0*0" := by decide

theorem orig_length (short : settings.imgPath.bytes.length ≤ 254) (h : Md5) :
    pathLen settings (ascii "0*0" :: levels h) ≤ 511 := by
  have := pathLen_levels_le settings h
  have : (ascii "0*0").length = 3 := rfl
  rw [pathLen_cons]
  omega

theorem Shape.lookup_orig (shape : Shape settings base t)
    (short : settings.imgPath.bytes.length ≤ 254) (h : Md5) :
    t.lookup (origPath settings h.bytes) = t.node (origLoc base h) := by
  rw [origPath_short short]
  by_cases hd : t.node (imageDir base h) = some .dir
  · rw [shape.lookup_file hd orig_head, if_neg orig_plain]
  · rw [Tree.lookup, shape.no_file hd, Option.bind_none, eq_comm, ← Option.not_isSome_iff_eq_none,
      Option.isSome_iff_exists]
    rintro ⟨x, hx⟩
    exact hd (Tree.node_parent hx)

theorem Shape.target_orig (shape : Shape settings base t)
    (short : settings.imgPath.bytes.length ≤ 254) (h : Md5) :
    t.target (origPath settings h.bytes) =
      if t.node (imageDir base h) = some .dir then some (ascii "0*0", imageDir base h) else none := by
  rw [origPath_short short]
  split
  · rename_i hd
    rw [shape.target_file hd orig_head, if_neg orig_plain]
  · rename_i hd
    exact shape.target_none hd _

theorem isDir_whole (short : settings.imgPath.bytes.length ≤ 254) (shape : Shape settings base t)
    {Q : Int → World → Prop} : env.machine.wp (isDir (wholePath settings h.bytes)) Q (w.at t n) ↔
      Q (if t.node (imageDir base h) = some .dir then 1 else -1) (w.at t n) := by
  rw [wp_isDir, wholePath_short short]
  simp only [World.on_disk, Disk.idle, shape.lookup_whole]

theorem wp_ensureDir_whole (short : settings.imgPath.bytes.length ≤ 254)
    (shape : Shape settings base t) :
    env.machine.wp (ensureDir (wholePath settings h.bytes)) (fun r w' => ∃ t', w' = w.at t' n ∧
      Grown settings base h t t' ∧
      (Fits settings h → r = 1 ∧ t'.node (imageDir base h) = some .dir)) (w.at t n) := by
  rw [ensureDir, Machine.wp_bind, isDir_whole short shape]
  split
  · rename_i hd
    exact ⟨t, rfl, .refl t, fun _ => ⟨rfl, hd⟩⟩
  · rw [wholePath_short short]
    exact wp_mkDirs_whole shape

section SaveImg
variable {thrArg : ThrArg} {buff : Bytes} {Q : Int → World → Prop}

theorem wp_saveImgModeDisk (short : settings.imgPath.bytes.length ≤ 254)
    (shape : Shape settings base t)
    (kept : ∀ t' x cache, Grown settings base h t t' → t.node (origLoc base h) = some (.file x) →
      Cached settings thrArg h.bytes buff w.cache cache → Q 1 ((w.caching cache).at t' n))
    (undone : ∀ t', Grown settings base h t t' → t.node (origLoc base h) = none →
      (Fits settings h → env.faults.openTrunc = true) → Q (-1) (w.at t' n))
    (failed : ∀ t' t'' b, Grown settings base h t t' → t.node (origLoc base h) = none →
      t'.node (imageDir base h) = some .dir → env.faults.flock = true ∨ env.faults.write = true →
      b <+: buff → t'.Sets (origLoc base h) (some (.file b)) t'' → Q (-1) (w.at t'' (n + 1)))
    (written : ∀ t' t'' cache, Grown settings base h t t' → t.node (origLoc base h) = none →
      t'.node (imageDir base h) = some .dir →
      t'.Sets (origLoc base h) (some (.file buff)) t'' →
      Cached settings thrArg h.bytes buff w.cache cache →
      Q 1 ((w.caching cache).at t'' (n + 1))) :
    env.machine.wp (saveImgModeDisk settings thrArg h.bytes buff) Q (w.at t n) := by
  rw [saveImgModeDisk, Machine.wp_bind]
  refine Machine.wp_mono (wp_ensureDir_whole (h := h) short shape) ?_
  rintro r _ ⟨t', rfl, grown, made⟩
  have inside : t'.node (origLoc base h) = t.node (origLoc base h) := grown.inside (ascii "0*0") h
  have shape' := grown.shape shape
  split
  · rename_i hr
    refine undone t' grown ?_ fun fits => by simp [(made fits).1] at hr
    rw [← Option.not_isSome_iff_eq_none, Option.isSome_iff_exists]
    rintro ⟨x, hx⟩
    simp [(made (shape.fits (Tree.node_parent hx))).1] at hr
  · rw [Machine.wp_bind]
    have lookup := shape'.lookup_orig short h
    refine wp_ensureFile (fun found => ?_) fun absent => ?_
    · change isRegular (t'.lookup _) = true at found
      rw [lookup, inside] at found
      cases hx : t.node (origLoc base h) with
      | none => simp [hx, isRegular] at found
      | some x =>
          obtain ⟨b, rfl⟩ := shape.inside hx
          rw [if_neg (by decide), Machine.wp_bind]
          exact wp_cacheImg fun cache cached => kept t' b cache grown hx cached
    · change isRegular (t'.lookup _) = false at absent
      rw [lookup, inside] at absent
      have hx : t.node (origLoc base h) = none := by
        rw [← Option.not_isSome_iff_eq_none, Option.isSome_iff_exists]
        rintro ⟨x, hx⟩
        obtain ⟨b, rfl⟩ := shape.inside hx
        simp [hx, isRegular] at absent
      refine wp_newImg (fun unopened => ?_) (fun m l b t'' target fault part sets => ?_)
        (fun m l t'' target sets => ?_)
      · refine undone t' grown hx fun fits => unopened.resolve_left ?_
        simp [shape'.target_orig short, (made fits).2]
      all_goals
        rw [shape'.target_orig short] at target
        split at target <;> cases target
        rename_i hd
      · exact failed t' t'' b grown hx hd fault part sets
      · rw [if_neg (by decide), Machine.wp_bind]
        exact wp_cacheImg fun cache cached => written t' t'' cache grown hx hd sets cached

end SaveImg

theorem getFilePath_inside {m : Bytes} (fits : pathLen settings (m :: levels h) ≤ 511) :
    getFilePath (pathTo settings (levels h)) m = pathTo settings (levels h) ++ slash :: m := by
  have whole := length_pathTo settings (levels h)
  have room : ([slash] : Bytes).length = 1 := rfl
  rw [pathLen_cons] at fits
  have first : strLcat (pathTo settings (levels h)) [slash] PATH_MAX_SIZE =
      pathTo settings (levels h) ++ [slash] :=
    strLcat_room (by unfold PATH_MAX_SIZE; omega) le_rfl
  have second : strLcat (pathTo settings (levels h) ++ [slash]) m PATH_MAX_SIZE =
      pathTo settings (levels h) ++ [slash] ++ m := by
    refine strLcat_room ?_ le_rfl
    rw [List.length_append]
    unfold PATH_MAX_SIZE
    omega
  simp only [getFilePath, if_pos (pathTo_last h), first, second]
  simp

theorem wp_adminImg {cmd : Int32} {Q : Int → World → Prop}
    (short : settings.imgPath.bytes.length ≤ 254) (shape : Shape settings base t)
    (missing : t.node (imageDir base h) ≠ some .dir → Q 2 (w.at t n))
    (refused : t.node (imageDir base h) = some .dir → cmd ≠ 1 → Q (-1) (w.at t n))
    (deleted : ∀ t', t.node (imageDir base h) = some .dir → cmd = 1 →
      t.Prunes (imageDir base h) t' →
      env.machine.wp (addAdminPage h.bytes cmd) (fun _ => Q 1) (w.at t' n)) :
    env.machine.wp (adminImg settings h.bytes cmd) Q (w.at t n) := by
  rw [adminImg, Machine.wp_bind, isDir_whole short shape]
  by_cases hd : t.node (imageDir base h) = some .dir
  swap
  · rw [if_neg hd, if_pos rfl]
    exact missing hd
  rw [if_pos hd, if_neg (by decide)]
  split
  swap
  · exact refused hd (by assumption)
  rename_i isDelete
  rw [Machine.wp_bind, wholePath_short short]
  refine wp_deleteFile_dir (shape.resolve_whole hd) hd (fun m' x hx => shape.inside hx) ?_ ?_
  · intro m' member
    obtain ⟨x, hx⟩ := Tree.mem_children.mp member
    obtain ⟨b, rfl⟩ := shape.inside hx
    exact getFilePath_inside (shape.file m' (levels h) b hx).1
  · intro t' prunes
    have page := deleted t' hd isDelete prunes
    simpa [Machine.wp_bind] using page

theorem wp_infoImg_dir {Q : Int → World → Prop}
    (missing : w.disk.tree.lookup (wholePath settings h.bytes) ≠ some .dir → Q 0 w)
    (shown : ∀ r out, w.disk.tree.lookup (wholePath settings h.bytes) = some .dir →
      Q r { w with out := out }) :
    env.machine.wp (infoImg settings h.bytes) Q w := by
  simp only [infoImg, sys_bind, magick_bind, Prog.pure_eq]
  rw [Machine.wp_bind, wp_isDir]
  by_cases hd : w.disk.tree.lookup (wholePath settings h.bytes) = some .dir
  swap
  · rw [if_neg hd, if_pos rfl]
    exact missing hd
  rw [if_pos hd, if_neg (by decide), Env.wp_magick]
  split
  · exact shown _ w.out hd
  rw [Env.wp_readImage]
  split
  · exact shown _ w.out hd
  · rw [Machine.wp_bind]
    exact wp_addInfo fun text => shown _ _ hd

theorem wp_infoImg {Q : Int → World → Prop} (short : settings.imgPath.bytes.length ≤ 254)
    (shape : Shape settings base t)
    (missing : t.node (imageDir base h) ≠ some .dir → Q 0 (w.at t n))
    (shown : ∀ r out, t.node (imageDir base h) = some .dir →
      Q r (World.at { w with out := out } t n)) :
    env.machine.wp (infoImg settings h.bytes) Q (w.at t n) := by
  have lookup := shape.lookup_whole h
  rw [← wholePath_short short] at lookup
  exact wp_infoImg_dir (fun noDir => missing (lookup ▸ noDir)) fun r out hd =>
    shown r out (lookup ▸ hd)

section GetImg
variable {req : ZimgReq} {request : EvhtpRequest} {Q : Int → World → Prop}

abbrev keptLoc (settings : Settings) (base : Loc) (req : ZimgReq) : Loc :=
  keptName settings req :: imageDir base req.md5

theorem wp_sendRsp {key b : Bytes} {l : Loc} (hb : t.node l = some (.file b))
    (empty : b = [] → Q (-1) (w.at t (n + 1)))
    (sent : ∀ cache, b ≠ [] → Cached settings req.thrArg key b w.cache cache →
      Q (replyCode settings request b)
        (((w.caching cache).replied settings request b).at t (n + 1))) :
    env.machine.wp (sendRsp settings req request key n) Q (w.on (.opened t n ⟨l, 0⟩ false)) := by
  simp only [sendRsp, disk_bind, Prog.pure_eq]
  rw [Machine.wp_bind]
  refine wp_readRsp (fun none_ => wp_close (empty (none_ b hb))) fun b' hb' some_ => ?_
  rw [hb] at hb'
  cases hb'
  rw [Machine.wp_bind]
  refine wp_cacheImg fun cache cached => ?_
  rw [Machine.wp_bind, wp_respond]
  change env.machine.wp _ _ (((w.caching cache).on _).replied settings request b)
  rw [World.replied_on]
  exact wp_close (sent cache some_ cached)

theorem wp_getImg (short : settings.imgPath.bytes.length ≤ 254) (shape : Shape settings base t)
    (missing : t.node (imageDir base req.md5) ≠ some .dir → Q (-1) (w.at t n))
    (hit : ∀ b, t.node (imageDir base req.md5) = some .dir → Caching settings req.thrArg →
      w.cache (rspCacheKey settings req) = some b →
      Q (replyCode settings request b) ((w.replied settings request b).at t n))
    (kept : ∀ b cache cache', t.node (keptLoc settings base req) = some (.file b) → b ≠ [] →
      Missed settings req.thrArg (rspCacheKey settings req) w.cache cache →
      Cached settings req.thrArg (rspCacheKey settings req) b cache cache' →
      Q (replyCode settings request b)
        (((w.caching cache').replied settings request b).at t (n + 1)))
    (empty : ∀ cache, t.node (keptLoc settings base req) = some (.file []) →
      Missed settings req.thrArg (rspCacheKey settings req) w.cache cache → Q (-1) ((w.caching cache).at t (n + 1)))
    (unkept : ∀ cache, t.node (imageDir base req.md5) = some .dir →
      (slash ∈ keptName settings req ∨ t.node (keptLoc settings base req) = none ∨
        env.faults.openRead = true) →
      Missed settings req.thrArg (rspCacheKey settings req) w.cache cache →
      env.machine.wp (makeRsp settings req request (rspCacheKey settings req)
        (rspPath settings req)) Q ((w.caching cache).at t n)) :
    env.machine.wp (getImg settings req request) Q (w.at t n) := by
  simp only [getImg, disk_bind, Prog.pure_eq]
  rw [Machine.wp_bind, isDir_whole short shape]
  by_cases hd : t.node (imageDir base req.md5) = some .dir
  swap
  · rw [if_neg hd, if_pos rfl]
    exact missing hd
  rw [if_pos hd, if_neg (by decide), Machine.wp_bind]
  refine wp_findCacheBin (fun cache missed => ?_) fun b caching held => ?_
  swap
  · rw [wp_respond, World.replied_on]
    exact hit b hd caching held
  have lookup := shape.lookup_file hd (keptName_head short req)
  have resolve := shape.resolve_file hd (keptName_head short req)
  dsimp only
  rw [rspPath_short short] at unkept ⊢
  change env.machine.wp _ Q ((w.caching cache).at t n)
  refine wp_openRead (fun unopened => unkept cache hd ?_ missed) fun l x hl hx => ?_
  · rcases unopened with unopened | fault
    · rw [lookup] at unopened
      split at unopened
      · exact .inl (by assumption)
      · exact .inr (.inl unopened)
    · exact .inr (.inr fault)
  · rw [resolve] at hl
    split at hl <;> cases hl
    obtain ⟨b, rfl⟩ := shape.inside hx
    refine wp_sendRsp hx (fun none_ => ?_) fun cache' some_ cached => ?_
    · subst none_
      exact empty cache hx missed
    · exact kept b cache cache' hx some_ missed cached

inductive RspSaved (settings : Settings) (base : Loc) (req : ZimgReq) (env : Env Im) (buff : Bytes)
    (toSave : Bool) (t : Tree) : Tree → Prop where
  | unsaved : RspSaved settings base req env buff toSave t t
  | partial_ (b : Bytes) (t' : Tree) (save : saveNew settings req toSave = true)
      (fault : env.faults.flock = true ∨ env.faults.write = true) (part : b <+: buff)
      (sets : t.Sets (keptLoc settings base req) (some (.file b)) t') :
      RspSaved settings base req env buff toSave t t'
  | saved (t' : Tree) (save : saveNew settings req toSave = true)
      (sets : t.Sets (keptLoc settings base req) (some (.file buff)) t') :
      RspSaved settings base req env buff toSave t t'

theorem wp_saveRsp {toSave : Bool} {buff : Bytes} {Q : Unit → World → Prop}
    (short : settings.imgPath.bytes.length ≤ 254) (shape : Shape settings base t)
    (hd : t.node (imageDir base req.md5) = some .dir)
    (h : ∀ t' n', RspSaved settings base req env buff toSave t t' → Q () (w.at t' n')) :
    env.machine.wp (saveRsp settings req toSave buff (rspPath settings req)) Q (w.at t n) := by
  unfold saveRsp
  split
  swap
  · exact h t n .unsaved
  rename_i save
  have target := shape.target_file hd (keptName_head short req)
  rw [Machine.wp_bind, rspPath_short short]
  refine wp_newImg (fun _ => h t n .unsaved) (fun m l b t' ht fault part sets => ?_)
    fun m l t' ht sets => ?_
  all_goals
    rw [target] at ht
    split at ht <;> cases ht
  · exact h t' (n + 1) (.partial_ b t' save fault part sets)
  · exact h t' (n + 1) (.saved t' save sets)

theorem wp_makeRsp (short : settings.imgPath.bytes.length ≤ 254) (shape : Shape settings base t)
    (hd : t.node (imageDir base req.md5) = some .dir) {key : Bytes}
    (failed : ∀ cache, cache = w.cache ∨ Missed settings req.thrArg req.md5.bytes w.cache cache →
      NoSource settings req env (w.at t n) → Q (-1) ((w.caching cache).at t n))
    (refused : ∀ cache im, Source settings req env (w.at t n) cache im →
      converted settings req env im = none → Q (-1) ((w.caching cache).at t n))
    (made : ∀ cache cache' im buff toSave t' n', Source settings req env (w.at t n) cache im →
      converted settings req env im = some (buff, toSave) →
      Cached settings req.thrArg key buff cache cache' →
      RspSaved settings base req env buff toSave t t' →
      Q (replyCode settings request buff)
        (((w.caching cache').replied settings request buff).at t' n')) :
    env.machine.wp (makeRsp settings req request key (rspPath settings req)) Q (w.at t n) := by
  rw [makeRsp, Machine.wp_bind]
  refine wp_renderImg failed fun cache im source => ?_
  cases result : converted settings req env im with
  | none => exact refused cache im source result
  | some value =>
      obtain ⟨buff, toSave⟩ := value
      dsimp only
      rw [Machine.wp_bind]
      change env.machine.wp _ _ ((w.caching cache).at t n)
      refine wp_saveRsp short shape hd fun t' n' saved => ?_
      rw [Machine.wp_bind]
      refine wp_cacheImg fun cache' cached => ?_
      rw [wp_respond]
      change Q _ (World.replied settings request buff ((w.caching cache').on (.idle t' n')))
      rw [World.replied_on]
      exact made cache cache' im buff toSave t' n' source result cached saved

theorem wp_getImg_tree (short : settings.imgPath.bytes.length ≤ 254)
    (shape : Shape settings base t)
    (missing : t.node (imageDir base req.md5) ≠ some .dir → Q (-1) (w.at t n))
    (unchanged : ∀ r (w' : World) n', t.node (imageDir base req.md5) = some .dir →
      Q r (w'.at t n'))
    (rendered : ∀ r (w' : World) cache cache' im buff toSave t' n',
      t.node (imageDir base req.md5) = some .dir →
      (slash ∈ keptName settings req ∨ t.node (keptLoc settings base req) = none ∨
        env.faults.openRead = true) →
      Missed settings req.thrArg (rspCacheKey settings req) w.cache cache →
      Source settings req env ((w.caching cache).at t n) cache' im →
      converted settings req env im = some (buff, toSave) →
      RspSaved settings base req env buff toSave t t' → Q r (w'.at t' n')) :
    env.machine.wp (getImg settings req request) Q (w.at t n) := by
  refine wp_getImg short shape missing (fun _ hd _ _ => unchanged _ _ n hd)
    (fun _ _ _ kept _ _ _ => unchanged _ _ (n + 1) (Tree.node_parent kept))
    (fun _ kept _ => unchanged _ _ (n + 1) (Tree.node_parent kept))
    fun cache hd unkept missed => ?_
  exact wp_makeRsp short shape hd (fun _ _ _ => unchanged _ _ n hd)
    (fun _ _ _ _ => unchanged _ _ n hd)
    fun cache' _ im buff toSave t' n' source result _ saved =>
      rendered _ _ cache cache' im buff toSave t' n' hd unkept missed source result saved

theorem RspSaved.shape {buff : Bytes} {toSave : Bool} (short : settings.imgPath.bytes.length ≤ 254)
    (shape : Shape settings base t) (saved : RspSaved settings base req env buff toSave t t') :
    Shape settings base t' := by
  cases saved with
  | unsaved => exact shape
  | partial_ b _ _ _ _ sets => exact shape.sets sets (keptName_length short req)
  | saved _ _ sets => exact shape.sets sets (keptName_length short req)

theorem file_ne_imageDir {k : Md5} (q : Bytes) : imageDir base h ≠ q :: imageDir base k := by
  intro same
  have := congrArg List.length same
  simp [imageDir, levels] at this

theorem RspSaved.imageDir {buff : Bytes} {toSave : Bool}
    (saved : RspSaved settings base req env buff toSave t t') (h : Md5) :
    t'.node (imageDir base h) = t.node (imageDir base h) := by
  cases saved with
  | unsaved => rfl
  | partial_ b _ _ _ _ sets => exact sets.other (file_ne_imageDir _)
  | saved _ _ sets => exact sets.other (file_ne_imageDir _)

end GetImg

end Specs
end Ximg
