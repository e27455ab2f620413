import Ximg.Library.Places
import Ximg.StoreMap

/-!
# Making directories

When a path is a directory after `mk_dirs`, and when its parent is one after `mk_dirf`, for every
path and every tree.
-/

namespace Ximg
open Text Vfs Calls

variable {Im : Type} {env : Env Im} {w : World} {t t' : Tree} {dir target q : Bytes}

/-! ## The parts of the buffer -/

/-- A part of the buffer that is made into a directory. -/
def MadePart (dir q : Bytes) : Prop := Makes ((mkDirsTmp dir).take 1) (mkDirsTmp dir) q

def Obstructed (t : Tree) (dir : Bytes) : Prop :=
  ∃ q, MadePart dir q ∧
    (t.node (t.start q) ≠ some .dir ∨ ∃ k ∈ t.passed q, ∃ b, t.node k = some (.file b))

def Ready (t : Tree) (dir : Bytes) (l : Loc) : Prop :=
  t.node l = some .dir ∨ t.node l = none ∧ ∃ q, MadePart dir q ∧ l = t.place q

/-- Making the directories of a path fails, or makes another path one of a directory. -/
def Completes (t : Tree) (dir target : Bytes) : Prop :=
  Obstructed t dir ∨ ∀ l, l = t.place target ∨ l ∈ t.passed target → Ready t dir l

theorem MadePart.head (part : MadePart dir q) : q.head? = (mkDirsTmp dir).head? ∧ q ≠ [] := by
  obtain ⟨first, more⟩ := part
  cases buffer : mkDirsTmp dir with
  | nil =>
      rw [buffer] at more
      exact absurd (List.prefix_nil.mp more) (by simp)
  | cons c s =>
      rw [buffer] at first
      obtain ⟨rest, rfl⟩ := first
      exact ⟨rfl, List.cons_ne_nil c rest⟩

theorem MadePart.start {q' : Bytes} (part : MadePart dir q) (part' : MadePart dir q') (t : Tree) :
    t.start q = t.start q' := by
  rw [Tree.start, Tree.start, part.head.1, part'.head.1]

theorem MadePart.shorter {q' : Bytes} (part : MadePart dir q) (nonempty : q' ≠ [])
    (within : q' ++ [slash] <+: q) : (mkDirsTmp dir).take 1 <+: q' := by
  have inside : q' <+: mkDirsTmp dir :=
    ((List.prefix_append q' _).trans within).trans ((List.prefix_append q _).trans part.2)
  refine List.prefix_of_prefix_length_le (List.take_prefix _ _) inside ?_
  rw [List.length_take]
  have := List.length_pos_of_ne_nil nonempty
  omega

theorem MadePart.before {q' : Bytes} (part : MadePart dir q) (nonempty : q' ≠ [])
    (within : q' ++ [slash] <+: q) : MadePart dir q' :=
  ⟨part.shorter nonempty within, within.trans ((List.prefix_append q _).trans part.2)⟩

/-! ## What is made -/

theorem MadePart.stuck (part : MadePart dir q) (widens : t.Widens t')
    (missing : t'.lookup q = none) (none_ : t'.vacant q = none)
    (earlier : ∀ q', (mkDirsTmp dir).take 1 <+: q' → q' ++ [slash] <+: q →
      (t'.lookup q').isSome) : Obstructed t dir := by
  -- Otherwise all that the part passes through is a directory by now, so its name is free.
  by_contra clear
  have noFile (k : Loc) (member : k ∈ t.passed q) (b : Bytes) : t.node k ≠ some (.file b) :=
    fun file => clear ⟨q, part, .inr ⟨k, member, b, file⟩⟩
  have start : t.node (t.start q) = some .dir := by
    by_contra nowhere
    exact clear ⟨q, part, .inl nowhere⟩
  have open_ (k : Loc) (member : k ∈ t.passed q) : t'.node k = some .dir := by
    cases Tree.passed_cases member with
    | inl first =>
        rw [first]
        exact widens.keeps.node _ _ start
    | inr below =>
        obtain ⟨q', nonempty, within, rfl⟩ := below
        obtain ⟨-, here, -⟩ :=
          Tree.lookup_isSome.mp (earlier q' (part.shorter nonempty within) within)
        rw [Tree.place_cwd widens.cwd] at here
        obtain ⟨x, hx⟩ := Option.isSome_iff_exists.mp here
        cases widens.node (t.place q') with
        | inr made => exact made.2
        | inl same =>
            cases x with
            | dir => exact hx
            | file b => exact absurd (same.symm.trans hx) (noFile _ member b)
  have resolved : t'.resolve q = some (t.place q) := by
    refine Tree.resolve_iff.mpr ⟨part.head.2, (Tree.place_cwd widens.cwd q).symm, ?_⟩
    rw [Tree.passed_cwd widens.cwd]
    exact open_
  rw [Tree.lookup, resolved, Option.bind_some] at missing
  cases here : t.place q with
  | nil =>
      rw [here, Tree.node_root] at missing
      cases missing
  | cons m l =>
      have free : t'.vacant q = some (m, l) :=
        Tree.vacant_iff.mpr ⟨by rw [resolved, here], by rw [← here, missing]⟩
      rw [none_] at free
      cases free

theorem Ready.made {l : Loc} (ready : Ready t dir l) (widens : t.Widens t')
    (all : ∀ q, MadePart dir q → (t'.lookup q).isSome) : t'.node l = some .dir := by
  cases ready with
  | inl here => exact widens.keeps.node l _ here
  | inr made =>
      obtain ⟨missing, q, part, rfl⟩ := made
      obtain ⟨-, here, -⟩ := Tree.lookup_isSome.mp (all q part)
      rw [Tree.place_cwd widens.cwd] at here
      exact widens.dir_of_absent missing here

structure Growing (t : Tree) (dir : Bytes) (t' : Tree) : Prop where
  widens : t.Widens t'
  parts : ∀ l, t.node l = none → t'.node l ≠ none → ∃ q, MadePart dir q ∧ l = t.place q
  started : ∀ q, MadePart dir q → t'.node (t.start q) = some .dir → t.node (t.start q) = some .dir

namespace Growing

theorem refl (t : Tree) (dir : Bytes) : Growing t dir t :=
  ⟨.refl t, fun _ missing here => absurd missing here, fun _ _ => id⟩

theorem grow (growing : Growing t dir t') {m : Bytes} {l : Loc} (part : MadePart dir q)
    (free : t'.vacant q = some (m, l)) : Growing t dir (t'.put m l .dir) := by
  obtain ⟨found, -⟩ := Tree.vacant_iff.mp free
  obtain ⟨-, here, passed⟩ := Tree.resolve_iff.mp found
  rw [Tree.place_cwd growing.widens.cwd] at here
  refine ⟨growing.widens.mkdir free, fun k missing made => ?_, fun q' part' _ => ?_⟩
  · rw [Tree.node_put_target (Tree.vacant_target free)] at made
    split at made
    · rename_i new
      exact ⟨q, part, new.trans here⟩
    · exact growing.parts k missing made
  · refine growing.started q' part' (passed _ ?_)
    rw [part'.start part, Tree.passed_cwd growing.widens.cwd]
    exact t.start_passed q

theorem clear (growing : Growing t dir t')
    (all : ∀ q, MadePart dir q → (t'.lookup q).isSome) : ¬Obstructed t dir := by
  rintro ⟨q, part, obstacle⟩
  obtain ⟨-, -, passed⟩ := Tree.lookup_isSome.mp (all q part)
  rw [Tree.passed_cwd growing.widens.cwd] at passed
  cases obstacle with
  | inl nowhere => exact nowhere (growing.started q part (passed _ (t.start_passed q)))
  | inr file =>
      obtain ⟨k, member, b, file⟩ := file
      have same := growing.widens.keeps.node k _ file
      rw [passed k member] at same
      cases same

end Growing

structure MadeDirs (t : Tree) (dir : Bytes) (r : Int) (t' : Tree) : Prop where
  keeps : t.Keeps t'
  done : r = 1 ↔ ¬Obstructed t dir
  node : r = 1 → ∀ l, t'.node l = some .dir ↔ Ready t dir l

theorem wp_mkDirs_parts (dir : Bytes) :
    env.machine.wp (mkDirs dir)
      (fun r w' => ∃ t', w' = w.withTree t' ∧ MadeDirs t dir r t') (w.withTree t) := by
  rw [mkDirs]
  have whole : (mkDirsTmp dir).take 1 ++ (mkDirsTmp dir).drop 1 = mkDirsTmp dir :=
    List.take_append_drop 1 _
  refine Machine.wp_mono (wp_mkDirsLoop_tree (I := Growing t dir) ?_ (.refl t dir)) ?_
  · intro t₁ q m l growing part free
    rw [whole] at part
    exact growing.grow part free
  · rintro r _ ⟨t', rfl, growing, keeps, made⟩
    rw [whole] at made
    refine ⟨t', rfl, keeps, ?_, fun success l => ?_⟩
    · cases made with
      | inl all => exact iff_of_true all.1 (growing.clear all.2)
      | inr failed =>
          obtain ⟨rfl, q, part, missing, none_, earlier⟩ := failed
          exact iff_of_false (by decide) (not_not.mpr
            (MadePart.stuck part growing.widens missing none_ earlier))
    · have all : ∀ q, MadePart dir q → (t'.lookup q).isSome := by
        cases made with
        | inl all => exact all.2
        | inr failed =>
            rw [failed.1] at success
            cases success
      constructor
      · intro here
        cases growing.widens.node l with
        | inl same => exact .inl (same.symm.trans here)
        | inr made => exact .inr ⟨made.1, growing.parts l made.1 (by simp [here])⟩
      · exact fun ready => ready.made growing.widens all

/-! ## The directory of the path -/

def KeepsDirs (w w' : World) : Prop :=
  ∀ l, w.disk.tree.node l = some .dir → w'.disk.tree.node l = some .dir

def Finds (w : World) (target : Bytes) (success : Prop) (w' : World) : Prop :=
  (success → w'.disk.tree.lookup target = some .dir) ∧ KeepsDirs w w'

theorem MadeDirs.finds {r : Int} (made : MadeDirs t dir r t') (nonempty : target ≠ []) :
    Finds (w.withTree t) target (r = 1) (w.withTree t') ↔ Completes t dir target := by
  have kept : KeepsDirs (w.withTree t) (w.withTree t') := fun l => made.keeps.node l .dir
  have same := made.keeps.cwd
  rw [Finds, and_iff_left kept, made.done, World.withTree_tree, Completes]
  by_cases obstructed : Obstructed t dir
  · simp [obstructed]
  have ready := made.node (made.done.mpr obstructed)
  simp only [obstructed, not_false_eq_true, true_imp_iff, false_or]
  rw [Tree.lookup_dir_iff, and_iff_right nonempty, Tree.place_cwd same, Tree.passed_cwd same, ready]
  constructor
  · rintro ⟨here, passed⟩ l (rfl | member)
    · exact here
    · exact (ready l).mp (passed l member)
  · exact fun all => ⟨all _ (.inl rfl), fun k member => (ready k).mpr (all k (.inr member))⟩

theorem returns_iff_of_wp {α : Type} {p : Prog (Sys Im) α} {Q : α → World → Prop} {P : Prop}
    (each : env.machine.wp p (fun r w' => Q r w' ↔ P) w) : env.machine.Returns p Q w ↔ P :=
  Machine.returns_iff (Machine.runs_exists env.answers p w) each

theorem wp_mkDirs_finds (dir : Bytes) (nonempty : target ≠ []) :
    env.machine.wp (mkDirs dir)
      (fun r w' => Finds w target (r = 1) w' ↔ Completes w.disk.tree dir target) w := by
  refine Machine.wp_mono (wp_mkDirs_parts (w := w) (t := w.disk.tree) dir) ?_
  rintro r _ ⟨t', rfl, made⟩
  exact made.finds (w := w) nonempty

/-! ## The buffers -/

theorem mkDirsTmp_length (dir : Bytes) : (mkDirsTmp dir).length ≤ 255 := by
  have copied : (strLcpy dir 256).length ≤ 255 := by
    rw [strLcpy, List.length_take]
    omega
  unfold mkDirsTmp
  dsimp only
  split
  · unfold strLcat wrap
    dsimp only
    split
    · exact copied
    · rw [List.length_append, List.length_take]
      simp only [List.length_singleton]
      omega
  · exact copied

theorem mkDirsLoop_names {Im : Type} {tmp before rest : Bytes} (split : before ++ rest = tmp)
    (started : before = [] → rest = []) :
    (mkDirsLoop before rest : Prog (Sys Im) Int).Uses fun op : SysOp Im =>
      ∃ i < tmp.length, 1 ≤ i ∧ tmp[i]? = some slash ∧
        (op = .disk (.access (tmp.take i)) ∨ op = .disk (.mkdir (tmp.take i))) := by
  induction rest generalizing before with
  | nil => trivial
  | cons c rest ih =>
      have next := @ih (before ++ [c]) (by simpa using split) (by simp)
      have behind : before ≠ [] := fun none => absurd (started none) (List.cons_ne_nil _ _)
      rw [mkDirsLoop]
      by_cases here : c = slash
      · have at_ : tmp[before.length]? = some slash := by rw [← split, here]; simp
        have named : tmp.take before.length = before := by rw [← split, List.take_left]
        have inside : before.length < tmp.length := by rw [← split]; simp
        have some' := List.length_pos_iff.mpr behind
        rw [if_pos here]
        refine ⟨⟨_, inside, some', at_, .inl (by rw [named])⟩, fun exist => ?_⟩
        cases exist with
        | true => exact next
        | false =>
            refine ⟨⟨_, inside, some', at_, .inr (by rw [named])⟩, fun made => ?_⟩
            cases made with
            | true => exact next
            | false => trivial
      · rw [if_neg here]
        exact next

/-- Each name that `mk_dirs` passes on ends at an offset that it has set to zero. -/
theorem mkDirs_names {Im : Type} (dir : Bytes) :
    (mkDirs dir : Prog (Sys Im) Int).Uses fun op : SysOp Im => ∃ i ∈ mkDirsWrites dir,
      op = .disk (.access ((mkDirsTmp dir).take i)) ∨
        op = .disk (.mkdir ((mkDirsTmp dir).take i)) := by
  refine (mkDirsLoop_names (List.take_append_drop 1 _) fun none => ?_).mono ?_
  · cases tmp : mkDirsTmp dir with
    | nil => rfl
    | cons c rest => simp [tmp] at none
  · rintro op ⟨i, inside, behind, slashed, named⟩
    refine ⟨i, List.mem_append_right _ ?_, named⟩
    simpa using ⟨inside, behind, slashed⟩

theorem mkDirsWrites_inside (dir : Bytes) : ∀ i ∈ mkDirsWrites dir, i < 256 := by
  have copied : (strLcpy dir 256).length ≤ 255 := by
    rw [strLcpy, List.length_take]
    omega
  intro i member
  unfold mkDirsWrites at member
  dsimp only at member
  rw [List.mem_append, List.mem_append] at member
  rcases member with (copy | close) | loop
  · simp only [strLcpyWrites, List.mem_append, List.mem_range, List.mem_singleton] at copy
    omega
  · have room : wrap ((256 : Nat) - ((strLcpy dir 256).length + 1 : Int)) =
        255 - (strLcpy dir 256).length := by
      unfold wrap
      omega
    split at close
    · unfold strLcatWrites at close
      dsimp only at close
      rw [room] at close
      split at close
      · cases close
      · simp only [List.mem_append, List.mem_map, List.mem_range, List.mem_singleton,
          List.length_singleton] at close
        cases close with
        | inl byte =>
            obtain ⟨j, inside, same⟩ := byte
            omega
        | inr last => omega
    · cases close
  · have short := mkDirsTmp_length dir
    have inside := List.mem_range.mp (List.mem_filter.mp loop).1
    omega

theorem mkDirfLoop_le (str : Bytes) (i fin : Nat) :
    mkDirfLoop str i fin ≤ max fin (i + str.length) := by
  induction str generalizing i fin with
  | nil => exact le_max_left _ _
  | cons c rest ih =>
      rw [mkDirfLoop, List.length_cons]
      refine (ih _ _).trans ?_
      split <;> omega

theorem mkDirfWrites_inside (filename : Bytes) :
    (∀ i ∈ mkDirfWrites filename, i < 256) ↔ filename.length < 256 := by
  have loop := mkDirfLoop_le (strLcpy filename filename.length) 0 0
  have copied : (strLcpy filename filename.length).length ≤ filename.length := by
    rw [strLcpy, List.length_take]
    omega
  unfold mkDirfWrites strLcpyWrites
  dsimp only
  simp only [List.mem_append, List.mem_range, List.mem_cons, List.not_mem_nil, or_false]
  constructor
  · exact fun inside => inside _ (.inr (.inl rfl))
  · intro short i member
    omega

/-! ## The parent of a path -/

def parentPath (p : Bytes) : Bytes :=
  let above := (p.rdropWhile (· = slash)).rdropWhile (· ≠ slash)
  if above ≠ [] then above else if p.head? = some slash then [slash] else [dot]

theorem parentPath_ne_nil (p : Bytes) : parentPath p ≠ [] := by
  unfold parentPath
  dsimp only
  split
  · assumption
  · split <;> exact List.cons_ne_nil _ _

theorem lookup_root (t : Tree) : t.lookup [slash] = some .dir := by
  rw [Tree.lookup_dir_iff]
  refine ⟨List.cons_ne_nil _ _, t.node_root, fun k member => ?_⟩
  have parts : [slash].splitOn slash = [[], []] := by decide +kernel
  rw [Tree.passed, parts] at member
  have here : k = [] := by simpa [Tree.start, visits, enter] using member
  rw [here]
  exact t.node_root

theorem lookup_parent {p : Bytes} (found : t.lookup p ≠ none) :
    t.lookup (parentPath p) = some .dir := by
  unfold parentPath
  dsimp only
  have part : (p.rdropWhile (· = slash)).rdropWhile (· ≠ slash) <+: p :=
    (List.rdropWhile_prefix _ _).trans (List.rdropWhile_prefix _ _)
  obtain ⟨x, hx⟩ := Option.ne_none_iff_exists'.mp found
  obtain ⟨l, resolved, -⟩ := Option.bind_eq_some_iff.mp hx
  split
  · rename_i nonempty
    have last := List.rdropWhile_last_not (fun c => decide (c ≠ slash)) _ nonempty
    have final : ((p.rdropWhile (· = slash)).rdropWhile (· ≠ slash)).getLast nonempty = slash := by
      simpa using last
    have whole := List.dropLast_append_getLast nonempty
    rw [final] at whole
    rw [← whole] at part ⊢
    generalize ((p.rdropWhile (· = slash)).rdropWhile (· ≠ slash)).dropLast = d at part ⊢
    by_cases hd : d = []
    · rw [hd]
      exact lookup_root t
    · obtain ⟨rest, rfl⟩ := part
      rw [List.append_assoc, List.singleton_append] at resolved
      obtain ⟨k, above, dir⟩ := Option.bind_eq_some_iff.mp (Tree.lookup_prefix hd resolved)
      rw [Tree.lookup, Tree.resolve_dir_slash above dir, Option.bind_some, dir]
  · split
    · exact lookup_root t
    · rename_i relative
      obtain ⟨-, -, passed⟩ := Tree.resolve_iff.mp resolved
      have start := passed _ (t.start_passed p)
      rw [Tree.start, if_neg relative] at start
      have parts : [dot].splitOn slash = [[dot]] := Tree.splitOn_name (by decide)
      have here : t.start [dot] = t.cwd := rfl
      rw [Tree.lookup_dir_iff, Tree.place, Tree.passed, parts, here]
      refine ⟨List.cons_ne_nil _ _, start, fun k member => ?_⟩
      rw [List.mem_singleton.mp member]
      exact start

/-! ## The directory of a file name -/

def CompletesParent (t : Tree) (filename : Bytes) : Prop :=
  let str := strLcpy filename filename.length
  let fin := mkDirfLoop str 0 0
  if fin ≠ 0 then Completes t (str.take fin) (parentPath filename)
  else t.lookup (parentPath filename) = some .dir

theorem wp_mkDirf_finds (filename : Bytes) :
    env.machine.wp (mkDirf filename) (fun r w' =>
      (r ≠ none ∧ Finds w (parentPath filename) (r = some 1) w') ↔
        w.disk.tree.lookup filename ≠ none ∨
          filename.length < 256 ∧ CompletesParent w.disk.tree filename) w := by
  have stays (success : Prop) (here : success → w.disk.tree.lookup (parentPath filename) = some .dir) :
      Finds w (parentPath filename) success w := ⟨here, fun _ => id⟩
  rw [mkDirf, disk_bind, wp_access]
  cases found : w.disk.tree.lookup filename with
  | some x =>
      refine iff_of_true ⟨by simp, stays _ fun _ => lookup_parent (by simp [found])⟩ (.inl (by simp))
  | none =>
      simp only [Option.isSome_none, Bool.false_eq_true, if_false, mkDirfWrites_inside]
      split
      · rename_i short
        simp only [ne_eq, not_true_eq_false, false_or, short, true_and, CompletesParent]
        split
        · rw [map_eq_bind_pure_comp, Machine.wp_bind]
          refine Machine.wp_mono (wp_mkDirs_finds _ (parentPath_ne_nil filename)) fun r w' same => ?_
          change (some r ≠ none ∧ Finds w (parentPath filename) (some r = some 1) w') ↔ _
          rw [and_iff_right (Option.some_ne_none r), Option.some.injEq]
          exact same
        · exact ⟨fun both => both.2.1 rfl, fun here => ⟨Option.some_ne_none 1, stays _ fun _ => here⟩⟩
      · rename_i long
        refine iff_of_false (fun both => both.1 rfl) ?_
        simp [long]

/-! ## Paths that fit -/

theorem last_part (short : dir.length ≤ 254) (nonempty : dir ≠ []) (inner : dir ≠ [slash]) :
    ∃ q, q ≠ [] ∧ mkDirsTmp dir = q ++ [slash] ∧ ∀ t : Tree, t.place dir = t.place q ∧
      ∀ k ∈ t.passed dir, k ∈ t.passed q ∨ k = t.place q := by
  by_cases closed : dir.getLast? = some slash
  · obtain ⟨q, rfl⟩ := List.getLast?_eq_some_iff.mp closed
    have hq : q ≠ [] := by
      rintro rfl
      exact inner rfl
    have copied : strLcpy (q ++ [slash]) 256 = q ++ [slash] := List.take_of_length_le (by omega)
    refine ⟨q, hq, ?_, fun t => ⟨?_, fun k member => ?_⟩⟩
    · rw [mkDirsTmp, copied, if_neg (not_not.mpr closed)]
    · rw [Tree.place_below hq, List.splitOn_nil]
      rfl
    · rw [Tree.passed_below hq, List.splitOn_nil, List.mem_append] at member
      exact member.imp_right List.mem_singleton.mp
  · exact ⟨dir, nonempty, mkDirsTmp_short short closed, fun t => ⟨rfl, fun _ => .inl⟩⟩

theorem last_part_made (nonempty : q ≠ []) (buffer : mkDirsTmp dir = q ++ [slash]) :
    MadePart dir q := by
  refine ⟨?_, by rw [buffer]⟩
  rw [buffer]
  cases q with
  | nil => exact absurd rfl nonempty
  | cons c s => exact ⟨s, rfl⟩

theorem MadePart.ready (part : MadePart dir q) (plain : ∀ b, t.node (t.place q) ≠ some (.file b)) :
    Ready t dir (t.place q) := by
  cases here : t.node (t.place q) with
  | none => exact .inr ⟨here, q, part, rfl⟩
  | some x =>
      cases x with
      | dir => exact .inl here
      | file b => exact absurd here (plain b)

theorem MadePart.passed_ready (part : MadePart dir q) (clear : ¬Obstructed t dir) {l : Loc}
    (member : l ∈ t.passed q) : Ready t dir l := by
  cases Tree.passed_cases member with
  | inl first =>
      refine .inl ?_
      by_contra nowhere
      exact clear ⟨q, part, .inl (first ▸ nowhere)⟩
  | inr below =>
      obtain ⟨q', nonempty, within, rfl⟩ := below
      refine (part.before nonempty within).ready fun b file => ?_
      exact clear ⟨q, part, .inr ⟨t.place q', member, b, file⟩⟩

theorem completes_short (short : dir.length ≤ 254) (nonempty : dir ≠ []) :
    Completes t dir dir ↔ Obstructed t dir ∨ ∀ b, t.node (t.place dir) ≠ some (.file b) := by
  constructor
  · refine Or.imp_right fun ready b file => ?_
    cases ready _ (.inl rfl) with
    | inl here =>
        rw [file] at here
        cases here
    | inr made =>
        rw [file] at made
        cases made.1
  · rintro (obstructed | plain)
    · exact .inl obstructed
    by_cases obstructed : Obstructed t dir
    · exact .inl obstructed
    refine .inr ?_
    by_cases top : dir = [slash]
    · have here := Tree.lookup_dir_iff.mp (lookup_root t)
      rw [← top] at here
      rintro l (rfl | member)
      · exact .inl here.2.1
      · exact .inl (here.2.2 l member)
    obtain ⟨q, hq, buffer, same⟩ := last_part short nonempty top
    have part := last_part_made hq buffer
    obtain ⟨here, passed⟩ := same t
    rw [here] at plain ⊢
    rintro l (rfl | member)
    · exact part.ready plain
    · cases passed l member with
      | inl above => exact part.passed_ready obstructed above
      | inr last => exact last ▸ part.ready plain

/-! ## Both -/

/-- After success the path, or its parent, is a directory; directories stay, and both buffers are
written within their bounds. -/
def DirsMade (env : Env Im) (w : World) (p : Bytes) : Prop :=
  env.machine.Returns (mkDirs p) (fun r w' => Finds w p (r = 1) w') w ∧
  (∀ i ∈ mkDirsWrites p, i < 256) ∧
  env.machine.Returns (mkDirf p) (fun r w' =>
    r ≠ none ∧ Finds w (parentPath p) (r = some 1) w') w

theorem make_dirs (env : Env Im) (w : World) (p : Bytes) (nonempty : p ≠ []) :
    DirsMade env w p ↔ Completes w.disk.tree p p ∧
      (w.disk.tree.lookup p ≠ none ∨ p.length < 256 ∧ CompletesParent w.disk.tree p) := by
  rw [DirsMade, returns_iff_of_wp (wp_mkDirs_finds p nonempty),
    and_iff_right (mkDirsWrites_inside p), returns_iff_of_wp (wp_mkDirf_finds p)]

theorem make_dirs_small : DirsMade (smallEnv some) smallWorld (ascii "/img/1") ↔
    Completes smallTree (ascii "/img/1") (ascii "/img/1") ∧
      (smallTree.lookup (ascii "/img/1") ≠ none ∨
        (ascii "/img/1").length < 256 ∧ CompletesParent smallTree (ascii "/img/1")) :=
  make_dirs (smallEnv some) smallWorld (ascii "/img/1") (by decide)

def longName : Bytes := List.replicate 256 97

theorem longName_overflows : ¬DirsMade (smallEnv some) smallWorld longName := by
  rintro ⟨-, -, ⟨r, w', run⟩, finds⟩
  have overflow : (smallEnv some).machine.wp (mkDirf longName) (fun r _ => r = none) smallWorld := by
    have missing : smallWorld.disk.tree.lookup longName = none := by decide +kernel
    have long : ¬longName.length < 256 := by decide +kernel
    rw [mkDirf, disk_bind, wp_access, missing]
    simp only [Option.isSome_none, Bool.false_eq_true, if_false, mkDirfWrites_inside, long]
    rfl
  exact (run.post finds).1 (run.post overflow)

end Ximg
