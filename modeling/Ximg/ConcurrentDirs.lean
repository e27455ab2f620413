import Ximg.Library.Interleaving
import Ximg.MakeDirs

/-!
# Making directories that run together

The test for a directory and the call that makes it are separate, so another upload can make it in
between. The second one then fails although its directory is there.
-/

namespace Ximg
open Text Vfs Calls

/-! ## Where a call of `mk_dirs` stands -/

structure DirStage where
  dir : Bytes
  exist : List Bytes
  failed : Bool

namespace DirStage
variable {Im : Type}

/-- A part is looked at or made when all parts before it exist. -/
def Turn (stage : DirStage) (q : Bytes) : Prop :=
  MadePart stage.dir q ∧ ∀ q', MadePart stage.dir q' → q' ++ [slash] <+: q → q' ∈ stage.exist

inductive Allows : DirStage → SysOp Im → Prop where
  | access {stage : DirStage} {q : Bytes} (turn : stage.Turn q) : Allows stage (.disk (.access q))
  | mkdir {stage : DirStage} {q : Bytes} (turn : stage.Turn q) : Allows stage (.disk (.mkdir q))

def next (stage : DirStage) : (op : SysOp Im) → op.Res → DirStage
  | .disk (.access q), true | .disk (.mkdir q), true => { stage with exist := q :: stage.exist }
  | .disk (.mkdir _), false => { stage with failed := true }
  | _, _ => stage

def Ends (r : Int) (stage : DirStage) : Prop :=
  stage.failed = false → r = 1 ∧ ∀ q, MadePart stage.dir q → q ∈ stage.exist

end DirStage

section Following
variable {Im : Type} {dir : Bytes}

abbrev Making (Im : Type) (p : Prog (Sys Im) Int) (stage : DirStage) : Prop :=
  p.Follows DirStage.Allows DirStage.next DirStage.Ends stage

theorem MadePart.at_length {q before rest : Bytes} {c : UInt8} (part : MadePart dir q)
    (buffer : mkDirsTmp dir = before ++ c :: rest) (size : q.length = before.length) :
    q = before ∧ c = slash := by
  have within := part.2
  rw [buffer] at within
  have whole : q = before :=
    (List.prefix_of_prefix_length_le ((List.prefix_append q _).trans within)
      (List.prefix_append before _) size.le).eq_of_length size
  rw [whole, List.prefix_append_right_inj, List.cons_prefix_cons] at within
  exact ⟨whole, within.1.symm⟩

theorem making_mkDirsLoop (rest before : Bytes) (buffer : mkDirsTmp dir = before ++ rest)
    (first : (mkDirsTmp dir).take 1 <+: before) (stage : DirStage) (same : stage.dir = dir)
    (done : ∀ q, MadePart dir q → q.length < before.length → q ∈ stage.exist) :
    Making Im (mkDirsLoop before rest) stage := by
  -- The parts as long as what is read so far, or shorter, are known to exist.
  induction rest generalizing before stage with
  | nil =>
      intro _
      refine ⟨rfl, fun q part => done q (same ▸ part) ?_⟩
      rw [same] at part
      have within := part.2.length_le
      rw [buffer, List.append_nil, List.length_append, List.length_singleton] at within
      omega
  | cons c rest ih =>
      have later (stage : DirStage) (same : stage.dir = dir)
          (done : ∀ q, MadePart dir q → q.length < before.length ∨ q = before ∧ c = slash →
            q ∈ stage.exist) : Making Im (mkDirsLoop (before ++ [c]) rest) stage := by
        refine ih (before ++ [c]) (by simp [buffer]) (first.trans (List.prefix_append before [c]))
          stage same fun q part shorter => done q part ?_
        rw [List.length_append, List.length_singleton, Nat.lt_succ_iff_lt_or_eq] at shorter
        exact shorter.imp_right (part.at_length buffer)
      rw [mkDirsLoop]
      split
      swap
      · rename_i other
        exact later stage same fun q part shorter =>
          done q part (shorter.resolve_right fun both => other both.2)
      rename_i slashed
      have part : MadePart dir before := ⟨first, rest, by simp [buffer, slashed]⟩
      have turn : stage.Turn before := by
        refine ⟨same ▸ part, fun q part' within => done q (same ▸ part') ?_⟩
        have := within.length_le
        rw [List.length_append, List.length_singleton] at this
        omega
      have passed : Making Im (mkDirsLoop (before ++ [c]) rest)
          { stage with exist := before :: stage.exist } := by
        refine later _ same fun q part' known => ?_
        cases known with
        | inl shorter => exact List.mem_cons_of_mem before (done q part' shorter)
        | inr last => exact last.1 ▸ List.mem_cons_self
      refine ⟨.access turn, fun present => ?_⟩
      cases present with
      | true => exact passed
      | false =>
          refine ⟨.mkdir turn, fun made => ?_⟩
          cases made with
          | true => exact passed
          | false =>
              intro ended
              cases ended

theorem making_mkDirs (dir : Bytes) : Making Im (mkDirs dir) ⟨dir, [], false⟩ := by
  rw [mkDirs]
  refine making_mkDirsLoop _ _ (List.take_append_drop 1 _).symm List.prefix_rfl _ rfl ?_
  intro q part shorter
  have := part.1.length_le
  omega

end Following

/-! ## The tree between the calls -/

/-- A call alone returns 1 and leaves its directory there. -/
def Succeeds (t : Tree) (dir : Bytes) : Prop :=
  dir ≠ [] ∧ ¬Obstructed t dir ∧ Completes t dir dir

theorem succeeds_iff {Im : Type} {env : Env Im} {w : World} {dir : Bytes} (nonempty : dir ≠ []) :
    env.machine.Returns (mkDirs dir)
        (fun r w' => r = 1 ∧ w'.disk.tree.lookup dir = some .dir) w ↔
      Succeeds w.disk.tree dir := by
  apply returns_iff_of_wp
  refine Machine.wp_mono (wp_mkDirs_parts (w := w) (t := w.disk.tree) dir) ?_
  rintro r _ ⟨t', rfl, made⟩
  have finds := made.finds (w := w) nonempty
  rw [Succeeds, and_iff_right nonempty, ← made.done, ← finds]
  constructor
  · exact fun both => ⟨both.1, fun _ => both.2, fun l => made.keeps.node l .dir⟩
  · exact fun both => ⟨both.1, both.2.1 both.1⟩

def makings {Im ι : Type} (dirs : ι → Bytes) (w : World) : Pool (Sys Im) ι Int World :=
  ⟨fun i => mkDirs (dirs i), w⟩

/-- A directory is made only under a name that nothing has at that moment. -/
def newName {Im : Type} (w : World) : SysOp Im → Bool
  | .disk (.mkdir name) => (w.disk.tree.lookup name).isNone
  | _ => true

structure Making.Kept {ι : Type} (t : Tree) (dirs : ι → Bytes) (stages : ι → DirStage) (w : World) :
    Prop where
  widens : t.Widens w.disk.tree
  dir : ∀ i, (stages i).dir = dirs i
  exist : ∀ i, ∀ q ∈ (stages i).exist, (w.disk.tree.lookup q).isSome
  fine : ∀ i, (stages i).failed = false

section Steps
variable {Im ι : Type} [DecidableEq ι] {env : Env Im} {t : Tree} {dirs : ι → Bytes}
  {stages : ι → DirStage} {w : World}

theorem Making.Kept.moved {w' : World} (kept : Making.Kept t dirs stages w)
    (widens : t.Widens w'.disk.tree) (keeps : w.disk.tree.Keeps w'.disk.tree) {i : ι}
    {stage : DirStage} (dir : stage.dir = dirs i) (fine : stage.failed = false)
    (exist : ∀ q ∈ stage.exist, (w'.disk.tree.lookup q).isSome) :
    Making.Kept t dirs (Function.update stages i stage) w' := by
  constructor
  · exact widens
  · exact (Function.forall_update_iff stages fun j s => s.dir = dirs j).mpr
      ⟨dir, fun j _ => kept.dir j⟩
  · exact (Function.forall_update_iff stages fun _ s =>
      ∀ q ∈ s.exist, (w'.disk.tree.lookup q).isSome).mpr
        ⟨exist, fun j _ q member => keeps.present (kept.exist j q member)⟩
  · exact (Function.forall_update_iff stages fun _ s => s.failed = false).mpr
      ⟨fine, fun j _ => kept.fine j⟩

theorem dirs_step (succeeds : ∀ i, Succeeds t (dirs i)) (i : ι) (op : SysOp Im) (r : op.Res)
    (allowed : (stages i).Allows op) (new : newName w op = true)
    (legal : env.machine.Legal w op r) (kept : Making.Kept t dirs stages w) :
    Making.Kept t dirs (Function.update stages i ((stages i).next op r)) (env.effect w op r) := by
  have dir := kept.dir i
  have fine := kept.fine i
  have exist := kept.exist i
  cases allowed with
  | @access q turn =>
      have answer : r = (w.disk.tree.lookup q).isSome := legal.resolve_right id
      cases r with
      | false => exact kept.moved kept.widens (.refl _) dir fine exist
      | true =>
          refine kept.moved kept.widens (.refl _) dir fine ?_
          exact List.forall_mem_cons.mpr ⟨answer.symm, exist⟩
  | @mkdir q turn =>
      have answer : r = (w.disk.tree.vacant q).isSome := legal.resolve_right id
      have missing : w.disk.tree.lookup q = none := Option.isNone_iff_eq_none.mp new
      cases free : w.disk.tree.vacant q with
      | none =>
          -- Nothing has the name and nothing can get it: the call alone would fail too.
          refine absurd ?_ (succeeds i).2.1
          rw [← dir]
          exact turn.1.stuck kept.widens missing free fun q' first within =>
            exist q' (turn.2 q' ⟨first, within.trans ((List.prefix_append q _).trans turn.1.2)⟩ within)
      | some place =>
          obtain ⟨m, l⟩ := place
          rw [free] at answer
          cases r with
          | false => cases answer
          | true =>
              have after : (env.effect w (.disk (.mkdir q)) true).disk.tree =
                  w.disk.tree.put m l .dir := by
                simp only [Env.effect, Disk.effect, free]
              refine kept.moved ?_ ?_ dir fine ?_
              · rw [after]
                exact kept.widens.mkdir free
              · rw [after]
                exact .made free
              · rw [after]
                exact List.forall_mem_cons.mpr ⟨by simp [Tree.lookup_made free],
                  fun q' member => (Tree.Keeps.made free).present (exist q' member)⟩

theorem concurrent_dirs (env : Env Im) (dirs : ι → Bytes) (w : World)
    (succeeds : ∀ i, Succeeds w.disk.tree (dirs i)) {pool : Pool (Sys Im) ι Int World}
    (run : Relation.ReflTransGen (env.machine.Advances newName)
      (makings dirs w) pool) (i : ι) (r : Int)
    (finished : (pool.progs i).result = some r) :
    r = 1 ∧ pool.state.disk.tree.lookup (dirs i) = some .dir := by
  have start : Machine.Staged DirStage.Allows DirStage.next DirStage.Ends
      (Making.Kept w.disk.tree dirs) (makings dirs w : Pool (Sys Im) ι Int World) := by
    refine ⟨fun i => ⟨dirs i, [], false⟩, fun i => making_mkDirs (dirs i), .refl _, fun _ => rfl,
      fun _ q member => ?_, fun _ => rfl⟩
    cases member
  obtain ⟨stages, follows, kept⟩ := Machine.staged_run
    (fun stages s i op r allowed new legal kept =>
      dirs_step succeeds i op r allowed new legal kept) run start
  obtain ⟨success, all⟩ := (follows i).of_result finished (kept.fine i)
  rw [kept.dir] at all
  obtain ⟨nonempty, clear, completes⟩ := succeeds i
  have ready := completes.resolve_left clear
  have made (l : Loc) (inside : l = w.disk.tree.place (dirs i) ∨ l ∈ w.disk.tree.passed (dirs i)) :
      pool.state.disk.tree.node l = some .dir :=
    (ready l inside).made kept.widens fun q part => kept.exist i q (all q part)
  refine ⟨success, Tree.lookup_dir_iff.mpr ⟨nonempty, ?_, fun k member => ?_⟩⟩
  · rw [Tree.place_cwd kept.widens.cwd]
    exact made _ (.inl rfl)
  · rw [Tree.passed_cwd kept.widens.cwd] at member
    exact made k (.inr member)

end Steps

/-! ## Two calls -/

def sharedDirs (second : Bool) : Bytes :=
  if second then ascii "/img/1/2" else ascii "/img/1/3"

def smallMakings (guard : World → SysOp Bytes → Bool) (turns : List Bool) :
    Pool (Sys Bytes) Bool Int World :=
  (smallEnv some).machine.schedule guard (smallEnv some).calm (makings sharedDirs smallWorld) turns

theorem smallMakings_run (guard : World → SysOp Bytes → Bool) (turns : List Bool) :
    Relation.ReflTransGen ((smallEnv some).machine.Advances guard) (makings sharedDirs smallWorld)
      (smallMakings guard turns) :=
  Machine.schedule_run (fun _ _ => Or.inl rfl) _ _

theorem sharedDirs_succeed (second : Bool) : Succeeds smallTree (sharedDirs second) := by
  have first : (mkDirsTmp (sharedDirs second)).head? = some slash := by cases second <;> decide
  have clear : ¬Obstructed smallTree (sharedDirs second) := by
    rintro ⟨q, part, nowhere | ⟨k, -, b, file⟩⟩
    · rw [Tree.start, part.head.1, first, if_pos rfl] at nowhere
      exact nowhere smallTree.node_root
    · exact smallTree_no_file k b file
  have nonempty : sharedDirs second ≠ [] := by cases second <;> decide
  have short : (sharedDirs second).length ≤ 254 := by cases second <;> decide
  exact ⟨nonempty, clear, (completes_short short nonempty).mpr (.inr (smallTree_no_file _))⟩

theorem concurrent_dirs_small :
    let pool := smallMakings newName (List.replicate 5 false ++ List.replicate 4 true)
    (1 : Int) = 1 ∧ pool.state.disk.tree.lookup (sharedDirs true) = some .dir :=
  concurrent_dirs (smallEnv some) sharedDirs smallWorld sharedDirs_succeed
    (smallMakings_run newName _) true 1 (by decide +kernel)

/-- Both calls miss the directory that they share, and the second one fails to make it. -/
theorem dirs_collide : ¬∀ pool : Pool (Sys Bytes) Bool Int World,
    Relation.ReflTransGen ((smallEnv some).machine.Advances fun _ _ => true)
      (makings sharedDirs smallWorld) pool →
    ∀ i r, (pool.progs i).result = some r →
      r = 1 ∧ pool.state.disk.tree.lookup (sharedDirs i) = some .dir := by
  intro made
  have failed := made _ (smallMakings_run (fun _ _ => true) [false, false, true, true, false, true])
    true (-1) (by decide +kernel)
  cases failed.1

end Ximg
