import Ximg.StoreMap

/-!
# Deleting a tree

The result of a recursive delete over every shape of the tree and every order in which its
directories are listed.
-/

namespace Ximg
open Text Vfs Calls

variable {Im : Type} {env : Env Im} {order : Loc → List Bytes} {w : World} {t t' : Tree}
  {path m : Bytes} {d : Loc}

/-! ## The paths of the entries -/

/-- The path of an entry of a directory, when the buffer holds it. -/
def filePath (path fileName : Bytes) : Bytes :=
  if path.getLast? ≠ some slash then path ++ slash :: fileName else path ++ fileName

def filePaths (path : Bytes) : Loc → Bytes
  | [] => path
  | n :: ns => filePath (filePaths path ns) n

theorem filePaths_below (path m : Bytes) (ns : Loc) :
    filePaths path (ns ++ [m]) = filePaths (filePath path m) ns := by
  induction ns with
  | nil => rfl
  | cons n ns ih => rw [List.cons_append, filePaths, ih, filePaths]

theorem getFilePath_eq (fits : (filePath path m).length < PATH_MAX_SIZE) :
    getFilePath path m = filePath path m := by
  unfold filePath at fits ⊢
  unfold getFilePath PATH_MAX_SIZE at *
  dsimp only at *
  split at fits
  · rename_i open_
    rw [List.length_append, List.length_cons] at fits
    have first : strLcat path [slash] 512 = path ++ [slash] := by
      apply strLcat_room _ le_rfl
      rw [List.length_singleton]
      omega
    have second : strLcat (path ++ [slash]) m 512 = path ++ [slash] ++ m := by
      apply strLcat_room _ le_rfl
      rw [List.length_append, List.length_singleton]
      omega
    rw [if_pos open_, if_pos open_, first, second, List.append_assoc, List.singleton_append]
  · rename_i closed
    rw [if_neg closed, if_neg closed]
    exact strLcat_room (by simpa using fits) le_rfl

theorem length_filePath (path : Bytes) (name : m ≠ []) :
    path.length < (filePath path m).length := by
  have := List.length_pos_of_ne_nil name
  unfold filePath
  split
  · rw [List.length_append, List.length_cons]
    omega
  · rw [List.length_append]
    omega

theorem resolve_filePath (t : Tree) (hp : path ≠ []) (name : slash ∉ m) :
    t.resolve (filePath path m) = (t.resolve path).bind fun d => t.walk d [m] := by
  unfold filePath
  split
  · rw [Tree.resolve_append, Tree.resolve_slash t hp, Tree.splitOn_name name]
    cases t.resolve path with
    | none => rfl
    | some d =>
        rw [Option.bind_some, Option.bind_some]
        split
        · rfl
        · rename_i leaf
          rw [Tree.walk_cons_not_dir leaf]
          rfl
  · rename_i last
    push Not at last
    obtain ⟨q, rfl⟩ := List.getLast?_eq_some_iff.mp last
    rw [List.append_assoc, List.singleton_append, Tree.resolve_append, Tree.splitOn_name name]

theorem resolve_filePath_child (hp : t.resolve path = some d) (hd : t.node d = some .dir)
    (name : IsName m) : t.resolve (filePath path m) = some (m :: d) := by
  have nonempty : path ≠ [] := by
    rintro rfl
    cases hp
  rw [resolve_filePath t nonempty name.2.2.2, hp, Option.bind_some, Tree.walk_name name hd]

theorem anchored_filePath (anchored : t.Anchored path d) (nonempty : path ≠ [])
    (dir : t.node (m :: d) = some .dir) : t.Anchored (filePath path m) (m :: d) := by
  intro t' cwd keep
  have inner (l : Loc) (outside : ∀ n ns, l ≠ n :: ns ++ d) (here : t.node l = some .dir) :
      t'.node l = some .dir := by
    refine keep l (fun n ns same => outside n (ns ++ [m]) ?_) here
    rw [same]
    simp
  have above := anchored.mono cwd inner
  have here : t'.node (m :: d) = some .dir := by
    refine keep _ (fun n ns same => ?_) dir
    have := congrArg List.length same
    simp at this
    omega
  exact Tree.resolve_dir_slash (resolve_filePath_child (above.found nonempty) above.dir (Tree.node_name dir)) here

/-! ## Listing in an order -/

/-- The answers of a calm world in which each directory is listed in a given order, where that is an
order of what it holds. -/
def Env.listed (env : Env Im) (order : Loc → List Bytes) (w : World) : (op : SysOp Im) → op.Res
  | .disk (.opendir p) => (w.disk.tree.resolve p).bind fun l =>
      (w.disk.calm (.opendir p)).map fun names => if (order l).Perm names then order l else names
  | op => env.calm w op

def Env.ordered (env : Env Im) (order : Loc → List Bytes) : Machine (Sys Im) World where
  Legal w op r := r = env.listed order w op
  effect := env.effect

section Calls
variable {α : Type} {Q : α → World → Prop} {fuel : Nat}

theorem wp_ordered (op : SysOp Im) (k : op.Res → Prog (Sys Im) α) :
    (env.ordered order).wp (.call op k) Q w ↔
      (env.ordered order).wp (k (env.listed order w op)) Q
        (env.effect w op (env.listed order w op)) :=
  (env.ordered order).wp_calm k Q fun _ => Iff.rfl

@[simp] theorem wp_ordered_stat (k : Option Kind → Prog (Sys Im) α) :
    (env.ordered order).wp (.call (.disk (.stat path)) k) Q w ↔
      (env.ordered order).wp (k ((w.disk.tree.lookup path).map Node.kind)) Q w :=
  wp_ordered (.disk (.stat path)) k

theorem wp_ordered_isDir {Q : Int → World → Prop} :
    (env.ordered order).wp (isDir path) Q w ↔
      Q (if w.disk.tree.lookup path = some .dir then 1 else -1) w := by
  simp only [isDir_eq, wp_ordered_stat, Machine.wp_ret, kind_directory]

theorem wp_ordered_isFile {Q : Int → World → Prop} :
    (env.ordered order).wp (isFile path) Q w ↔
      Q (if isRegular (w.disk.tree.lookup path) then 1 else -1) w := by
  simp only [isFile_eq, wp_ordered_stat, Machine.wp_ret, kind_regular]

theorem wp_ordered_remove {k : Bool → Prog (Sys Im) α} {x : Node}
    (hp : t.resolve path = some (m :: d)) (hx : t.node (m :: d) = some x)
    (leaf : t.children (m :: d) = []) :
    (env.ordered order).wp (.call (.disk (.remove path)) k) Q (w.withTree t) ↔
      (env.ordered order).wp (k true) Q (w.withTree (t.erase m d)) := by
  rw [wp_ordered]
  have answer : env.listed order (w.withTree t) (.disk (.remove path)) = true := by
    simp [Env.listed, Env.calm, Disk.calm, hp, hx, leaf]
  have erased : env.effect (w.withTree t) (.disk (.remove path)) true =
      w.withTree (t.erase m d) := by
    simp only [Env.effect, Disk.effect, World.withTree_tree, hp]
    rfl
  rw [answer, erased]

theorem wp_ordered_rmdir {k : Bool → Prog (Sys Im) α} (hp : t.resolve path = some (m :: d))
    (hd : t.node (m :: d) = some .dir) (leaf : t.children (m :: d) = []) :
    (env.ordered order).wp (.call (.disk (.rmdir path)) k) Q (w.withTree t) ↔
      (env.ordered order).wp (k true) Q (w.withTree (t.erase m d)) := by
  rw [wp_ordered]
  have answer : env.listed order (w.withTree t) (.disk (.rmdir path)) = true := by
    simp [Env.listed, Env.calm, Disk.calm, hp, hd, leaf]
  have erased : env.effect (w.withTree t) (.disk (.rmdir path)) true =
      w.withTree (t.erase m d) := by
    simp only [Env.effect, Disk.effect, World.withTree_tree, hp]
    rfl
  rw [answer, erased]

theorem wp_ordered_rmdir_refused {k : Bool → Prog (Sys Im) α}
    (refused : ∀ n l, t.resolve path = some (n :: l) → t.children (n :: l) ≠ []) :
    (env.ordered order).wp (.call (.disk (.rmdir path)) k) Q (w.withTree t) ↔
      (env.ordered order).wp (k false) Q (w.withTree t) := by
  rw [wp_ordered]
  have answer : env.listed order (w.withTree t) (.disk (.rmdir path)) = false := by
    simp only [Env.listed, Env.calm, Disk.calm, World.withTree_tree]
    split
    · rename_i n l hp
      simp [refused n l hp]
    · rfl
  rw [answer]
  rfl

theorem wp_ordered_opendir {k : Option (List Bytes) → Prog (Sys Im) α}
    (hp : t.resolve path = some d) (hd : t.node d = some .dir)
    (perm : (order d).Perm ([dot] :: [dot, dot] :: t.children d)) :
    (env.ordered order).wp (.call (.disk (.opendir path)) k) Q (w.withTree t) ↔
      (env.ordered order).wp (k (some (order d))) Q (w.withTree t) := by
  rw [wp_ordered]
  have answer : env.listed order (w.withTree t) (.disk (.opendir path)) = some (order d) := by
    simp [Env.listed, Disk.calm, hp, hd, perm]
  rw [answer]
  rfl

end Calls

/-! ## The trees that are deleted -/

def plainNames (names : List Bytes) : List Bytes := names.filter fun n => isSpecialDir n ≠ 1

def EndsWithFile (order : Loc → List Bytes) (t : Tree) (l : Loc) : Prop :=
  ∀ n, (plainNames (order l)).getLast? = some n → ∃ b, t.node (n :: l) = some (.file b)

def FilesLast (order : Loc → List Bytes) (t : Tree) (d : Loc) : Prop :=
  ∀ l, d <:+ l → t.node l = some .dir → EndsWithFile order t l

/-- The path leads to a directory other than the root without passing through anything below it, and
each directory at or below it lists a file last. -/
structure Removable (order : Loc → List Bytes) (t : Tree) (path : Bytes) (d : Loc) : Prop where
  inner : d ≠ []
  anchored : t.Anchored path d
  last : FilesLast order t d

/-- The orders are orders of what the directories hold, and the buffer holds every path. -/
structure Readable (order : Loc → List Bytes) (t : Tree) (path : Bytes) (d : Loc) : Prop where
  perm : ∀ l, d <:+ l → t.node l = some .dir →
    (order l).Perm ([dot] :: [dot, dot] :: t.children l)
  fits : ∀ ns, t.node (ns ++ d) ≠ none → (filePaths path ns).length < PATH_MAX_SIZE

theorem mem_plainNames {names : List Bytes} :
    m ∈ plainNames names ↔ m ∈ names ∧ isSpecialDir m ≠ 1 := by
  simp [plainNames]

theorem below_cases {l : Loc} (below : d <:+ l) : l = d ∨ ∃ n, n :: d <:+ l := by
  obtain ⟨ns, rfl⟩ := below
  cases ns using List.reverseRecOn with
  | nil => exact .inl rfl
  | append_singleton ns n => exact .inr ⟨n, ns, by simp⟩

theorem FilesLast.of_not_dir (leaf : t.node d ≠ some .dir) : FilesLast order t d := by
  intro l below here
  cases below_cases below with
  | inl same =>
      rw [same] at here
      exact absurd here leaf
  | inr deeper =>
      obtain ⟨n, ns, rfl⟩ := deeper
      rw [Tree.node_below_none leaf] at here
      cases here

theorem FilesLast.of_entries (here : EndsWithFile order t d)
    (entries : ∀ n, t.node (n :: d) ≠ none → FilesLast order t (n :: d)) :
    FilesLast order t d := by
  intro l below dir
  cases below_cases below with
  | inl same => exact same ▸ here
  | inr deeper =>
      obtain ⟨n, deeper⟩ := deeper
      refine entries n (fun missing => ?_) l deeper dir
      have nothing : FilesLast order t (n :: d) ∧ t.node l ≠ some .dir := by
        refine ⟨.of_not_dir (by simp [missing]), fun _ => ?_⟩
        cases below_cases deeper with
        | inl same => simp [same, missing] at dir
        | inr further =>
            obtain ⟨k, ns, rfl⟩ := further
            rw [Tree.node_below_none (by simp [missing])] at dir
            cases dir
      exact nothing.2 dir

section Agreement
variable (same : ∀ l, d <:+ l → t'.node l = t.node l)

include same

theorem FilesLast.agree (last : FilesLast order t d) : FilesLast order t' d := by
  intro l below dir n listed
  rw [same l below] at dir
  obtain ⟨b, file⟩ := last l below dir n listed
  exact ⟨b, by rw [same _ (below.trans (List.suffix_cons n l)), file]⟩

theorem Readable.agree (readable : Readable order t path d) : Readable order t' path d := by
  constructor
  · intro l below dir
    rw [same l below] at dir
    refine (readable.perm l below dir).trans (.cons _ (.cons _ ?_))
    refine (List.perm_ext_iff_of_nodup (Tree.children_nodup t l) (Tree.children_nodup t' l)).mpr
      fun n => ?_
    rw [Tree.mem_children, Tree.mem_children, same _ (below.trans (List.suffix_cons n l))]
  · intro ns here
    rw [same _ (List.suffix_append ns d)] at here
    exact readable.fits ns here

end Agreement

theorem Readable.entry (readable : Readable order t path d) (n : Bytes) :
    Readable order t (filePath path n) (n :: d) := by
  constructor
  · exact fun l below dir => readable.perm l ((List.suffix_cons n d).trans below) dir
  · intro ns here
    rw [← filePaths_below]
    exact readable.fits (ns ++ [n]) (by simpa using here)

/-! ## What a delete does -/

def returned (x : Option Node) : Int := if x = some .dir then 0 else 1

structure Deletion (order : Loc → List Bytes) (t : Tree) (path : Bytes) (d : Loc) (r : Int)
    (t' : Tree) : Prop where
  trims : t.Trims d t'
  removed : (t.node d = some .dir → Removable order t path d) →
    r = returned (t.node d) ∧ t'.node d = none
  kept : t.node d = some .dir → ¬Removable order t path d → t'.node d = some .dir

def lastReturned (t : Tree) (d : Loc) (ret : Int) (names : List Bytes) : Int :=
  match names.getLast? with
  | none => ret
  | some n => returned (t.node (n :: d))

theorem lastReturned_cons (ret : Int) (n : Bytes) (names : List Bytes) :
    lastReturned t d ret (n :: names) = lastReturned t d (returned (t.node (n :: d))) names := by
  cases names with
  | nil => rfl
  | cons n' names =>
      unfold lastReturned
      rw [List.getLast?_cons_cons]
      rfl

theorem lastReturned_one (names : List Bytes) : lastReturned t d 1 names = 1 ↔
    ∀ n, names.getLast? = some n → t.node (n :: d) ≠ some .dir := by
  unfold lastReturned
  cases names.getLast? with
  | none => simp
  | some n => simp [returned]

theorem lastReturned_congr {names : List Bytes} (ret : Int)
    (same : ∀ n ∈ names, t'.node (n :: d) = t.node (n :: d)) :
    lastReturned t' d ret names = lastReturned t d ret names := by
  unfold lastReturned
  cases last : names.getLast? with
  | none => rfl
  | some n => exact congrArg returned (same n (List.mem_of_getLast? last))

structure Emptying (order : Loc → List Bytes) (t : Tree) (path : Bytes) (d : Loc)
    (names : List Bytes) (ret r : Int) (t' : Tree) : Prop where
  cwd : t'.cwd = t.cwd
  node : ∀ l, t'.node l = t.node l ∨ t'.node l = none ∧ ∃ n ∈ plainNames names, n :: d <:+ l
  removed : t.Anchored path d → (∀ n ∈ plainNames names, FilesLast order t (n :: d)) →
    r = lastReturned t d ret (plainNames names) ∧ ∀ n ∈ plainNames names, t'.node (n :: d) = none
  kept : t.Anchored path d → ∀ n ∈ plainNames names, ¬FilesLast order t (n :: d) →
    t'.node (n :: d) ≠ none

namespace Emptying
variable {names : List Bytes} {ret r r' : Int} {t'' : Tree}

theorem nothing (t : Tree) (path : Bytes) (d : Loc) (ret : Int) :
    Emptying order t path d [] ret ret t := by
  refine ⟨rfl, fun _ => .inl rfl, fun _ _ => ⟨rfl, ?_⟩, fun _ => ?_⟩ <;> simp [plainNames]

theorem skip (special : isSpecialDir m = 1) (rest : Emptying order t path d names ret r t') :
    Emptying order t path d (m :: names) ret r t' := by
  have same : plainNames (m :: names) = plainNames names := by simp [plainNames, special]
  obtain ⟨cwd, node, removed, kept⟩ := rest
  constructor
  · exact cwd
  · rw [same]
    exact node
  · rw [same]
    exact removed
  · rw [same]
    exact kept

theorem lost (nowhere : t.resolve path = none) (nonempty : path ≠ []) :
    Emptying order t path d names ret r t := by
  have never : ¬t.Anchored path d := by
    intro anchored
    have found := anchored.found nonempty
    rw [nowhere] at found
    cases found
  exact ⟨rfl, fun _ => .inl rfl, fun anchored => absurd anchored never,
    fun anchored => absurd anchored never⟩

theorem plainNames_cons (plain : isSpecialDir m ≠ 1) (names : List Bytes) :
    plainNames (m :: names) = m :: plainNames names := by
  simp [plainNames, plain]

theorem later_same (new : m ∉ names) (first : t.Trims (m :: d) t') {n : Bytes}
    (later : n ∈ plainNames names) (l : Loc) (below : n :: d <:+ l) : t'.node l = t.node l := by
  refine first.outside fun below' => new ?_
  rw [Tree.siblings_apart below' below]
  exact (mem_plainNames.mp later).1

theorem first_removed (nonempty : path ≠ [])
    (first : Deletion order t (filePath path m) (m :: d) r t') (anchored : t.Anchored path d)
    (last : FilesLast order t (m :: d)) : r = returned (t.node (m :: d)) ∧ t'.node (m :: d) = none :=
  first.removed fun dir =>
    ⟨List.cons_ne_nil m d, anchored_filePath anchored nonempty dir, last⟩

theorem first_kept (first : Deletion order t (filePath path m) (m :: d) r t')
    (bad : ¬FilesLast order t (m :: d)) : t'.node (m :: d) = some .dir := by
  refine first.kept ?_ fun removable => bad removable.last
  by_contra leaf
  exact bad (.of_not_dir leaf)

theorem trims (emptying : Emptying order t path d names ret r t') : t.Trims d t' := by
  refine ⟨emptying.cwd, fun l => (emptying.node l).imp_right ?_⟩
  rintro ⟨gone, n, -, below⟩
  exact ⟨(List.suffix_cons n d).trans below, gone⟩

theorem same_above (emptying : Emptying order t path d names ret r t') {l : Loc}
    (outside : ∀ n ns, l ≠ n :: ns ++ d) : t'.node l = t.node l := by
  refine (emptying.node l).resolve_right ?_
  rintro ⟨-, n, -, ns, rfl⟩
  obtain ⟨k, ks, same⟩ := List.exists_cons_of_ne_nil
    (List.append_ne_nil_of_right_ne_nil ns (List.cons_ne_nil n []))
  refine outside k ks ?_
  rw [← same, List.append_assoc, List.singleton_append]

theorem same_here (emptying : Emptying order t path d names ret r t') : t'.node d = t.node d := by
  refine emptying.same_above fun n ns same => ?_
  have := congrArg List.length same
  simp at this
  omega

theorem anchored (emptying : Emptying order t path d names ret r t') (anchored : t.Anchored path d) :
    t'.Anchored path d :=
  anchored.mono emptying.cwd fun l outside dir => by rw [emptying.same_above outside, dir]

section First
variable (plain : isSpecialDir m ≠ 1) (new : m ∉ names) (nonempty : path ≠ [])

include plain new nonempty

theorem stop (first : Deletion order t (filePath path m) (m :: d) (-1) t')
    (entries : ∀ n ∈ plainNames names, t.node (n :: d) ≠ none) :
    Emptying order t path d (m :: names) ret (-1) t' := by
  have mine := plainNames_cons plain names
  refine ⟨first.trims.cwd, fun l => ?_, fun anchored all => ?_, fun anchored n listed bad => ?_⟩
  · refine (first.trims.node l).imp_right fun gone => ⟨gone.2, m, ?_, gone.1⟩
    rw [mine]
    exact List.mem_cons_self
  · rw [mine] at all
    have impossible := (first_removed nonempty first anchored (all m List.mem_cons_self)).1
    unfold returned at impossible
    split at impossible <;> cases impossible
  · rw [mine] at listed
    cases listed with
    | head =>
        rw [first_kept first bad]
        simp
    | tail _ later =>
        rw [later_same new first.trims later _ List.suffix_rfl]
        exact entries n later

theorem step (first : Deletion order t (filePath path m) (m :: d) r t')
    (rest : Emptying order t' path d names r r' t'') :
    Emptying order t path d (m :: names) ret r' t'' := by
  have mine := plainNames_cons plain names
  have same {n : Bytes} (later : n ∈ plainNames names) (l : Loc) (below : n :: d <:+ l) :=
    later_same new first.trims later l below
  refine ⟨rest.cwd.trans first.trims.cwd, fun l => ?_, fun anchored all => ?_,
    fun anchored n listed bad => ?_⟩
  · rw [mine]
    cases rest.node l with
    | inl kept =>
        rw [kept]
        exact (first.trims.node l).imp_right fun gone =>
          ⟨gone.2, m, List.mem_cons_self, gone.1⟩
    | inr gone =>
        obtain ⟨gone, n, later, below⟩ := gone
        exact .inr ⟨gone, n, List.mem_cons_of_mem m later, below⟩
  · rw [mine] at all ⊢
    obtain ⟨result, gone⟩ := first_removed nonempty first anchored (all m List.mem_cons_self)
    obtain ⟨result', gone'⟩ := rest.removed (first.trims.anchored anchored) fun n later =>
      (all n (List.mem_cons_of_mem m later)).agree (same later)
    constructor
    · rw [result', lastReturned_cons, ← result]
      exact lastReturned_congr r fun n later => same later _ List.suffix_rfl
    · intro n listed
      cases listed with
      | head =>
          cases rest.node (m :: d) with
          | inl kept => rw [kept, gone]
          | inr gone => exact gone.1
      | tail _ later => exact gone' n later
  · rw [mine] at listed
    cases listed with
    | head =>
        have kept := first_kept first bad
        cases rest.node (m :: d) with
        | inl same => simp [same, kept]
        | inr gone =>
            obtain ⟨-, n, later, below⟩ := gone
            have : n = m := Tree.siblings_apart below List.suffix_rfl
            exact absurd (mem_plainNames.mp (this ▸ later)).1 new
    | tail _ later =>
        refine rest.kept (first.trims.anchored anchored) n later fun last => bad ?_
        exact last.agree fun l below => (same later l below).symm

end First
end Emptying

/-! ## The listing of a directory -/

theorem mem_listing {names : List Bytes}
    (perm : names.Perm ([dot] :: [dot, dot] :: t.children d)) (n : Bytes) :
    n ∈ plainNames names ↔ t.node (n :: d) ≠ none := by
  rw [mem_plainNames, perm.mem_iff, List.mem_cons, List.mem_cons, Tree.mem_children,
    ← Option.ne_none_iff_exists']
  constructor
  · rintro ⟨rfl | rfl | here, plain⟩
    · exact absurd (isSpecialDir_iff.mpr (.inl rfl)) plain
    · exact absurd (isSpecialDir_iff.mpr (.inr rfl)) plain
    · exact here
  · refine fun here => ⟨.inr (.inr here), fun special => here ?_⟩
    exact node_special special d

/-! ## The loop and the recursion -/

def DeletesBelow (env : Env Im) (order : Loc → List Bytes) (fuel : Nat) : Prop :=
  ∀ (w : World) (t : Tree) (path : Bytes) (d : Loc), t.resolve path = some d → t.node d ≠ none →
    Readable order t path d → PATH_MAX_SIZE ≤ path.length + fuel →
    (env.ordered order).wp (deleteFile fuel path)
      (fun r w' => ∃ t', w' = w.withTree t' ∧ Deletion order t path d r t') (w.withTree t)

theorem wp_ordered_missing (missing : w.disk.tree.lookup path = none) (fuel : Nat) :
    (env.ordered order).wp (deleteFile fuel path) (fun r w' => r = -1 ∧ w' = w) w := by
  cases fuel with
  | zero => exact ⟨rfl, rfl⟩
  | succ fuel =>
      rw [deleteFile, removeFile, Machine.wp_bind, Machine.wp_bind, wp_ordered_isFile, missing]
      change (env.ordered order).wp (isDir path >>= _) _ w
      rw [Machine.wp_bind, wp_ordered_isDir, missing]
      exact ⟨rfl, rfl⟩

theorem wp_ordered_entries {fuel : Nat} (child : DeletesBelow env order fuel)
    (enough : PATH_MAX_SIZE ≤ path.length + (fuel + 1)) (nonempty : path ≠ [])
    {names : List Bytes} (nodup : names.Nodup) (ret : Int) (dir : t.node d = some .dir)
    (found : t.resolve path = some d ∨ t.resolve path = none)
    (entries : ∀ n ∈ plainNames names, t.node (n :: d) ≠ none ∧
      Readable order t (filePath path n) (n :: d)) :
    (env.ordered order).wp (deleteEntries (deleteFile fuel) path ret names)
      (fun r w' => ∃ t', w' = w.withTree t' ∧ Emptying order t path d names ret r t')
      (w.withTree t) := by
  induction names generalizing t ret with
  | nil => exact ⟨t, rfl, .nothing t path d ret⟩
  | cons m names ih =>
      obtain ⟨new, nodup⟩ := List.nodup_cons.mp nodup
      rw [deleteEntries]
      split
      · rename_i special
        have same : plainNames (m :: names) = plainNames names := by simp [plainNames, special]
        rw [same] at entries
        refine Machine.wp_mono (ih nodup ret dir found entries) ?_
        rintro r w' ⟨t', after, rest⟩
        exact ⟨t', after, rest.skip special⟩
      rename_i plain
      rw [Emptying.plainNames_cons plain] at entries
      obtain ⟨here, readable⟩ := entries m List.mem_cons_self
      obtain ⟨x, hx⟩ := Option.ne_none_iff_exists'.mp here
      have name : IsName m := Tree.node_name hx
      have fits : (filePath path m).length < PATH_MAX_SIZE := readable.fits [] here
      rw [getFilePath_eq fits, Machine.wp_bind]
      cases found with
      | inr nowhere =>
          have missing : (w.withTree t).disk.tree.lookup (filePath path m) = none := by
            rw [World.withTree_tree, Tree.lookup, resolve_filePath t nonempty name.2.2.2, nowhere]
            rfl
          refine Machine.wp_mono (wp_ordered_missing missing fuel) ?_
          rintro _ _ ⟨rfl, rfl⟩
          exact ⟨t, rfl, .lost nowhere nonempty⟩
      | inl found =>
          have longer := length_filePath path name.1
          refine Machine.wp_mono (child w t _ _ (resolve_filePath_child found dir name) here readable
            (by omega)) ?_
          rintro r _ ⟨t', rfl, first⟩
          have trims : t.Trims d t' := first.trims.above
          split
          · rename_i failed
            rw [failed] at first ⊢
            exact ⟨t', rfl, .stop plain new nonempty first fun n later =>
              (entries n (List.mem_cons_of_mem m later)).1⟩
          · have dir' : t'.node d = some .dir := by
              rw [first.trims.outside]
              · exact dir
              · intro below
                have := below.length_le
                simp at this
            have found' : t'.resolve path = some d ∨ t'.resolve path = none := by
              cases again : t'.resolve path with
              | none => exact .inr rfl
              | some d' =>
                  have same := trims.resolve again
                  rw [found] at same
                  exact .inl same.symm
            refine Machine.wp_mono (ih nodup r dir' found' fun n later => ?_) ?_
            · have same := Emptying.later_same new first.trims later
              obtain ⟨present, readable⟩ := entries n (List.mem_cons_of_mem m later)
              exact ⟨by rwa [same _ List.suffix_rfl], readable.agree same⟩
            · rintro r' _ ⟨t'', rfl, rest⟩
              exact ⟨t'', rfl, .step plain new nonempty first rest⟩

theorem Emptying.removable {r : Int} (emptying : Emptying order t path d (order d) 1 r t')
    (listed : ∀ n, n ∈ plainNames (order d) ↔ t.node (n :: d) ≠ none)
    (found : t'.resolve path = some d) (dir : t'.node d = some .dir) (leaf : t'.children d = [])
    (last : r = 1) (inner : d ≠ []) : Removable order t path d := by
  have empty := Tree.children_eq_nil.mp leaf
  have anchored : t.Anchored path d :=
    (Tree.Anchored.of_empty (Tree.resolve_dir_slash found dir)
      (Tree.node_under_leaf empty)).mono emptying.cwd.symm fun _ _ => emptying.trims.was
  have all (n : Bytes) (member : n ∈ plainNames (order d)) : FilesLast order t (n :: d) := by
    by_contra bad
    exact emptying.kept anchored n member bad (empty n)
  refine ⟨inner, anchored, .of_entries (fun n final => ?_) fun n here =>
    all n ((listed n).mpr here)⟩
  have result := (emptying.removed anchored all).1
  rw [last] at result
  have notDir := (lastReturned_one _).mp result.symm n final
  obtain ⟨x, hx⟩ := Option.ne_none_iff_exists'.mp ((listed n).mp (List.mem_of_getLast? final))
  cases x with
  | dir => exact absurd hx notDir
  | file b => exact ⟨b, hx⟩

theorem Emptying.emptied {r : Int} (emptying : Emptying order t path d (order d) 1 r t')
    (listed : ∀ n, n ∈ plainNames (order d) ↔ t.node (n :: d) ≠ none)
    (dir : t.node d = some .dir) (removable : Removable order t path d) :
    r = 1 ∧ t'.children d = [] := by
  obtain ⟨result, gone⟩ := emptying.removed removable.anchored fun n _ l below =>
    removable.last l ((List.suffix_cons n d).trans below)
  constructor
  · rw [result, lastReturned_one]
    intro n final
    obtain ⟨b, file⟩ := removable.last d List.suffix_rfl dir n final
    simp [file]
  · refine Tree.children_eq_nil.mpr fun n => ?_
    by_contra here
    obtain ⟨x, hx⟩ := Option.ne_none_iff_exists'.mp here
    have was : t.node (n :: d) ≠ none := by simp [emptying.trims.was hx]
    exact here (gone n ((listed n).mpr was))

theorem wp_ordered_last {r : Int} (found : t.resolve path = some d) (dir : t.node d = some .dir)
    (listed : ∀ n, n ∈ plainNames (order d) ↔ t.node (n :: d) ≠ none)
    (emptying : Emptying order t path d (order d) 1 r t') :
    (env.ordered order).wp
      (do
        if r = 1 then
          if ← disk (.rmdir path) then return 0 else return -1
        else return r)
      (fun r w' => ∃ t', w' = w.withTree t' ∧ Deletion order t path d r t') (w.withTree t') := by
  have nonempty : path ≠ [] := by
    rintro rfl
    cases found
  have dir' : t'.node d = some .dir := by rw [emptying.same_here, dir]
  by_cases removable : Removable order t path d
  · obtain ⟨last, leaf⟩ := emptying.emptied listed dir removable
    have found' := (emptying.anchored removable.anchored).found nonempty
    cases d with
    | nil => exact absurd rfl removable.inner
    | cons m l =>
        have sets := Tree.sets_erase leaf
        rw [if_pos last, disk_bind, wp_ordered_rmdir found' dir' leaf]
        refine ⟨t'.erase m l, rfl, emptying.trims.trans (.of_sets sets), fun _ => ?_,
          fun _ other => absurd removable other⟩
        rw [dir]
        exact ⟨rfl, sets.here⟩
  · have stays (r' : Int) : Deletion order t path d r' t' :=
      ⟨emptying.trims, fun all => absurd (all dir) removable, fun _ _ => dir'⟩
    split
    · rename_i last
      rw [disk_bind, wp_ordered_rmdir_refused]
      · exact ⟨t', rfl, stays (-1)⟩
      -- A path that leads to the emptied directory now led to it through nothing below it.
      intro n l found' leaf
      have same := emptying.trims.resolve found'
      rw [found, Option.some.injEq] at same
      subst same
      exact removable (emptying.removable listed found' dir' leaf last (List.cons_ne_nil n l))
    · exact ⟨t', rfl, stays r⟩

theorem wp_ordered_dir {fuel : Nat} (child : DeletesBelow env order fuel)
    (found : t.resolve path = some d) (dir : t.node d = some .dir)
    (readable : Readable order t path d) (enough : PATH_MAX_SIZE ≤ path.length + (fuel + 1)) :
    (env.ordered order).wp (deleteFile (fuel + 1) path)
      (fun r w' => ∃ t', w' = w.withTree t' ∧ Deletion order t path d r t') (w.withTree t) := by
  have lookup : t.lookup path = some .dir := by rw [Tree.lookup, found, Option.bind_some, dir]
  have nonempty : path ≠ [] := by
    rintro rfl
    cases found
  have perm := readable.perm d List.suffix_rfl dir
  have nodup : (order d).Nodup := perm.nodup_iff.mpr (listing_nodup t d)
  have listed := mem_listing perm
  rw [deleteFile, removeFile, Machine.wp_bind, Machine.wp_bind, wp_ordered_isFile,
    World.withTree_tree, lookup]
  change (env.ordered order).wp (isDir path >>= _) _ (w.withTree t)
  rw [Machine.wp_bind, wp_ordered_isDir, World.withTree_tree, lookup, if_pos rfl, if_pos rfl,
    disk_bind, wp_ordered_opendir found dir perm, Machine.wp_bind]
  refine Machine.wp_mono (wp_ordered_entries child enough nonempty nodup 1 dir (.inl found)
    fun n member => ⟨(listed n).mp member, readable.entry n⟩) ?_
  rintro r _ ⟨t', rfl, emptying⟩
  exact wp_ordered_last found dir listed emptying

theorem wp_ordered_file {fuel : Nat} {b : Bytes} (found : t.resolve path = some d)
    (file : t.node d = some (.file b)) :
    (env.ordered order).wp (deleteFile (fuel + 1) path)
      (fun r w' => ∃ t', w' = w.withTree t' ∧ Deletion order t path d r t') (w.withTree t) := by
  have lookup : t.lookup path = some (.file b) := by rw [Tree.lookup, found, Option.bind_some, file]
  cases d with
  | nil =>
      rw [Tree.node_root] at file
      cases file
  | cons m l =>
      have leaf : t.children (m :: l) = [] := Tree.children_of_not_dir (by simp [file])
      have sets := Tree.sets_erase leaf
      have gone : (t.erase m l).lookup path = none := by
        rw [Tree.lookup, Tree.resolve_mono (sets.keeps_dirs (by simp [file])) sets.cwd found,
          Option.bind_some, sets.here]
      rw [deleteFile, removeFile, Machine.wp_bind, Machine.wp_bind, wp_ordered_isFile,
        World.withTree_tree, lookup]
      change (env.ordered order).wp (.call (.disk (.remove path)) _) _ (w.withTree t)
      rw [wp_ordered_remove found file leaf]
      change (env.ordered order).wp (isDir path >>= _) _ (w.withTree (t.erase m l))
      rw [Machine.wp_bind, wp_ordered_isDir, World.withTree_tree, gone]
      refine ⟨t.erase m l, rfl, .of_sets sets, fun _ => ?_, fun dir => ?_⟩
      · rw [file]
        exact ⟨rfl, sets.here⟩
      · rw [file] at dir
        cases dir

theorem wp_ordered_delete (env : Env Im) (order : Loc → List Bytes) (fuel : Nat) :
    DeletesBelow env order fuel := by
  induction fuel with
  | zero =>
      intro w t path d found here readable enough
      have := readable.fits [] here
      rw [filePaths] at this
      omega
  | succ fuel ih =>
      intro w t path d found here readable enough
      obtain ⟨x, hx⟩ := Option.ne_none_iff_exists'.mp here
      cases x with
      | dir => exact wp_ordered_dir ih found hx readable enough
      | file b => exact wp_ordered_file found hx

/-! ## Deleting -/

/-- The delete reports failure only for what does not exist, after any other result nothing of the
tree is left, and nothing outside the tree changes. -/
structure DeletesTree (t : Tree) (path : Bytes) (r : Int) (t' : Tree) : Prop where
  reported : r ≠ -1 ↔ t.lookup path ≠ none
  removed : r ≠ -1 → ∀ d l, t.resolve path = some d → d <:+ l → t'.node l = none
  outside : ∀ l, (∀ d, t.resolve path = some d → ¬d <:+ l) → t'.node l = t.node l

theorem Deletion.deletes {r : Int} (deletion : Deletion order t path d r t')
    (found : t.resolve path = some d) (here : t.node d ≠ none) :
    DeletesTree t path r t' ↔ (t.node d = some .dir → Removable order t path d) := by
  have present : t.lookup path ≠ none := by rwa [Tree.lookup, found, Option.bind_some]
  constructor
  · intro deleted dir
    by_contra stuck
    have gone := deleted.removed (deleted.reported.mpr present) d d found List.suffix_rfl
    rw [deletion.kept dir stuck] at gone
    cases gone
  · intro removable
    obtain ⟨result, gone⟩ := deletion.removed removable
    have pruned := deletion.trims.prunes gone
    have success : r ≠ -1 := by
      rw [result, returned]
      split <;> decide
    refine ⟨iff_of_true success present, fun _ d' l found' below => ?_, fun l outside => ?_⟩
    · rw [found, Option.some.injEq] at found'
      rw [pruned.node, if_pos (found' ▸ below)]
    · exact deletion.trims.outside (outside d found)

theorem delete_tree (env : Env Im) (order : Loc → List Bytes) (w : World) (path : Bytes)
    (readable : ∀ d, w.disk.tree.resolve path = some d → Readable order w.disk.tree path d) :
    (env.ordered order).Returns (deleteFile PATH_MAX_SIZE path)
        (fun r w' => DeletesTree w.disk.tree path r w'.disk.tree) w ↔
      ∀ d, w.disk.tree.resolve path = some d → w.disk.tree.node d = some .dir →
        Removable order w.disk.tree path d := by
  apply Machine.returns_iff (Machine.runs_exists (fun _ _ => ⟨_, rfl⟩) _ _)
  cases lookup : w.disk.tree.lookup path with
  | none =>
      refine Machine.wp_mono (wp_ordered_missing lookup PATH_MAX_SIZE) ?_
      rintro _ _ ⟨rfl, rfl⟩
      apply iff_of_true
      · exact ⟨by simp [lookup], fun other => absurd rfl other, fun _ _ => rfl⟩
      · intro d found dir
        rw [Tree.lookup, found, Option.bind_some, dir] at lookup
        cases lookup
  | some x =>
      obtain ⟨d, found, hx⟩ := Option.bind_eq_some_iff.mp lookup
      have here : w.disk.tree.node d ≠ none := by simp [hx]
      refine Machine.wp_mono (wp_ordered_delete env order PATH_MAX_SIZE w _ path d found here
        (readable d found) (Nat.le_add_left _ _)) ?_
      rintro r _ ⟨t', rfl, deletion⟩
      refine (deletion.deletes found here).trans ?_
      simp only [found, Option.some.injEq, forall_eq']

def flatTree : Tree := smallTree.put (ascii "0*0") [ascii "img"] (.file [])

def flatOrder (_ : Loc) : List Bytes := [[dot], ascii "0*0", [dot, dot]]

theorem flatTree_node (l : Loc) : flatTree.node l =
    if l = [ascii "0*0", ascii "img"] then some (.file [])
    else if l = [ascii "img"] then some .dir else if l = [] then some .dir else none := by
  rw [flatTree, Tree.node_put (by decide +kernel) (by decide) (by decide +kernel),
    smallTree_node, Tree.node_root_tree]

theorem flatTree_readable (d : Loc) (found : flatTree.resolve (ascii "/img") = some d) :
    Readable flatOrder flatTree (ascii "/img") d := by
  have here : flatTree.resolve (ascii "/img") = some [ascii "img"] := by decide +kernel
  rw [here] at found
  cases found
  constructor
  · intro l below dir
    rw [flatTree_node] at dir
    split_ifs at dir with file image root
    · cases dir
    · rw [image]
      decide +kernel
    · rw [root] at below
      exact absurd below (by decide)
  · intro ns present
    rw [flatTree_node] at present
    split_ifs at present with file image root
    · have one : ns = [ascii "0*0"] := List.append_cancel_right file
      rw [one]
      decide
    · have none_ : ns = [] := List.append_cancel_right image
      rw [none_]
      decide
    · simp at root
    · exact absurd rfl present

theorem delete_tree_small :
    ((smallEnv some).ordered flatOrder).Returns (deleteFile PATH_MAX_SIZE (ascii "/img"))
        (fun r w' => DeletesTree flatTree (ascii "/img") r w'.disk.tree)
        (smallWorld.withTree flatTree) ↔
      ∀ d, flatTree.resolve (ascii "/img") = some d → flatTree.node d = some .dir →
        Removable flatOrder flatTree (ascii "/img") d :=
  delete_tree (smallEnv some) flatOrder (smallWorld.withTree flatTree) (ascii "/img")
    flatTree_readable

def nestedTree : Tree := smallTree.put (ascii "1") [ascii "img"] .dir

theorem nested_stays :
    ¬((smallEnv some).ordered fun _ => [[dot], [dot, dot], ascii "1"]).Returns
      (deleteFile PATH_MAX_SIZE (ascii "/img"))
      (fun r w' => DeletesTree nestedTree (ascii "/img") r w'.disk.tree)
      (smallWorld.withTree nestedTree) := by
  intro returns
  have run := Machine.exec_runs (M := (smallEnv some).ordered fun _ => [[dot], [dot, dot], ascii "1"])
    (fun _ _ => rfl) (deleteFile PATH_MAX_SIZE (ascii "/img")) (smallWorld.withTree nestedTree)
  have deleted := run.post returns.2
  have gone := deleted.removed (by decide +kernel) [ascii "img"] [ascii "img"] (by decide +kernel)
    List.suffix_rfl
  exact absurd gone (by decide +kernel)

end Ximg
