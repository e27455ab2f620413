import Ximg.Library.FileTree
import Ximg.Library.Program

/-!
# A disk behind system calls

The calls a program makes on a directory tree through paths and descriptors, with advisory locks.
A disk answers each call nominally; which calls may fail instead is a parameter.
-/

namespace Vfs
open Text Calls

inductive Kind where
  | directory
  | regular
  deriving DecidableEq, Repr

def Node.kind : Node → Kind
  | .dir => .directory
  | .file _ => .regular

inductive DiskOp where
  | stat (path : Bytes)
  | access (path : Bytes)
  | mkdir (path : Bytes)
  | openRead (path : Bytes)
  /-- Opens for writing, creating the file or emptying it. -/
  | openTrunc (path : Bytes)
  /-- Takes the exclusive lock without waiting for it. -/
  | flock (fd : Nat)
  | unlock (fd : Nat)
  | fstat (fd : Nat)
  | read (fd len : Nat)
  | write (fd : Nat) (buff : Bytes)
  | close (fd : Nat)
  | opendir (path : Bytes)
  | remove (path : Bytes)
  | rmdir (path : Bytes)

@[reducible] def DiskOp.Res : DiskOp → Type
  | stat _ => Option Kind
  | access _ | mkdir _ | flock _ | remove _ | rmdir _ => Bool
  | openRead _ | openTrunc _ => Option Nat
  | unlock _ | close _ => Unit
  | fstat _ => Nat
  | read _ _ => Option Bytes
  | write _ _ => Option Nat
  | opendir _ => Option (List Bytes)

structure OpenFile where
  loc : Loc
  offset : Nat

structure Disk where
  tree : Tree
  files : Nat → Option OpenFile
  locks : Loc → Option Nat
  /-- Descriptors are numbered in the order they are opened. -/
  next : Nat

/-- Which calls may fail although nothing stands in their way. -/
structure Faults where
  openRead : Bool
  openTrunc : Bool
  flock : Bool
  write : Bool

namespace Faults

def none : Faults := ⟨false, false, false, false⟩

end Faults

namespace Tree

def content (t : Tree) (l : Loc) : Bytes :=
  match t.node l with
  | some (.file b) => b
  | _ => []

theorem content_file {t : Tree} {l : Loc} {b : Bytes} (h : t.node l = some (.file b)) :
    t.content l = b := by
  simp [content, h]

def vacant (t : Tree) (p : Bytes) : Option (Bytes × Loc) :=
  match t.resolve p with
  | some (n :: l) => if t.node (n :: l) = none then some (n, l) else none
  | _ => none

def target (t : Tree) (p : Bytes) : Option (Bytes × Loc) :=
  match t.resolve p with
  | some (n :: l) => if t.node (n :: l) = some .dir then none else some (n, l)
  | _ => none

theorem vacant_iff {t : Tree} {p n : Bytes} {l : Loc} :
    t.vacant p = some (n, l) ↔ t.resolve p = some (n :: l) ∧ t.node (n :: l) = none := by
  unfold vacant
  split
  · rename_i m k hp
    simp only [hp, Option.ite_none_right_eq_some, Option.some.injEq, Prod.mk.injEq, List.cons.injEq]
    constructor
    · rintro ⟨free, rfl, rfl⟩
      exact ⟨⟨rfl, rfl⟩, free⟩
    · rintro ⟨⟨rfl, rfl⟩, free⟩
      exact ⟨free, rfl, rfl⟩
  · rename_i h
    simp only [reduceCtorEq, false_iff, not_and]
    exact fun hp => absurd hp (h n l)

theorem target_iff {t : Tree} {p n : Bytes} {l : Loc} :
    t.target p = some (n, l) ↔ t.resolve p = some (n :: l) ∧ t.node (n :: l) ≠ some .dir := by
  unfold target
  split
  · rename_i m k hp
    simp only [hp, Option.ite_none_left_eq_some, Option.some.injEq, Prod.mk.injEq, List.cons.injEq]
    constructor
    · rintro ⟨free, rfl, rfl⟩
      exact ⟨⟨rfl, rfl⟩, free⟩
    · rintro ⟨⟨rfl, rfl⟩, free⟩
      exact ⟨free, rfl, rfl⟩
  · rename_i h
    simp only [reduceCtorEq, false_iff, not_and]
    exact fun hp => absurd hp (h n l)

theorem target_place {t : Tree} {p n : Bytes} {l : Loc} (h : t.target p = some (n, l)) :
    t.node l = some .dir ∧ IsName n := by
  obtain ⟨hp, hd⟩ := target_iff.mp h
  obtain ⟨m, k, same, name, dir⟩ := resolve_target hp hd
  obtain ⟨rfl, rfl⟩ := List.cons.inj same
  exact ⟨dir, name⟩

theorem vacant_target {t : Tree} {p n : Bytes} {l : Loc} (h : t.vacant p = some (n, l)) :
    t.target p = some (n, l) := by
  obtain ⟨hp, free⟩ := vacant_iff.mp h
  exact target_iff.mpr ⟨hp, by simp [free]⟩

theorem node_put_target {t : Tree} {p n : Bytes} {l : Loc} (h : t.target p = some (n, l))
    (x : Node) (l' : Loc) :
    (t.put n l x).node l' = if l' = n :: l then some x else t.node l' := by
  obtain ⟨dir, name⟩ := target_place h
  exact node_put dir name (target_iff.mp h).2 l'

/-! ## Growing trees -/

structure Keeps (t t' : Tree) : Prop where
  cwd : t'.cwd = t.cwd
  node : ∀ l x, t.node l = some x → t'.node l = some x

namespace Keeps
variable {t t' t'' : Tree}

theorem refl (t : Tree) : t.Keeps t := ⟨rfl, fun _ _ => id⟩

theorem trans (h : t.Keeps t') (h' : t'.Keeps t'') : t.Keeps t'' :=
  ⟨h'.cwd.trans h.cwd, fun l x hx => h'.node l x (h.node l x hx)⟩

theorem resolve (h : t.Keeps t') {p : Bytes} {l : Loc} (hp : t.resolve p = some l) :
    t'.resolve p = some l := resolve_mono (fun l => h.node l .dir) h.cwd hp

theorem lookup (h : t.Keeps t') {p : Bytes} {x : Node} (hp : t.lookup p = some x) :
    t'.lookup p = some x := by
  obtain ⟨l, hl, hx⟩ := Option.bind_eq_some_iff.mp hp
  exact Option.bind_eq_some_iff.mpr ⟨l, h.resolve hl, h.node l x hx⟩

theorem present (h : t.Keeps t') {p : Bytes} (there : (t.lookup p).isSome) :
    (t'.lookup p).isSome := by
  obtain ⟨x, hx⟩ := Option.isSome_iff_exists.mp there
  exact Option.isSome_iff_exists.mpr ⟨x, h.lookup hx⟩

theorem put {n : Bytes} {l : Loc} {x : Node} (hd : t.node l = some .dir) (hn : IsName n)
    (free : t.node (n :: l) = none) : t.Keeps (t.put n l x) := by
  refine ⟨put_cwd t n l x, fun l' y hy => ?_⟩
  rw [node_put hd hn (by simp [free]), if_neg]
  · exact hy
  · rintro rfl
    simp [free] at hy

theorem made {p n : Bytes} {l : Loc} (free : t.vacant p = some (n, l)) :
    t.Keeps (t.put n l .dir) := by
  obtain ⟨dir, name⟩ := target_place (vacant_target free)
  exact .put dir name (vacant_iff.mp free).2

end Keeps

theorem lookup_made {t : Tree} {p n : Bytes} {l : Loc} (free : t.vacant p = some (n, l)) :
    (t.put n l .dir).lookup p = some .dir := by
  have found := (Keeps.made free).resolve (vacant_iff.mp free).1
  rw [lookup, found, Option.bind_some, node_put_target (vacant_target free), if_pos rfl]

structure Widens (t t' : Tree) : Prop where
  cwd : t'.cwd = t.cwd
  node : ∀ l, t'.node l = t.node l ∨ t.node l = none ∧ t'.node l = some .dir

namespace Widens
variable {t t' : Tree}

theorem refl (t : Tree) : t.Widens t := ⟨rfl, fun _ => .inl rfl⟩

theorem mkdir (widens : t.Widens t') {p n : Bytes} {l : Loc} (h : t'.vacant p = some (n, l)) :
    t.Widens (t'.put n l .dir) := by
  refine ⟨(put_cwd t' n l .dir).trans widens.cwd, fun l' => ?_⟩
  rw [node_put_target (vacant_target h)]
  split
  · rename_i here
    have free := (vacant_iff.mp h).2
    rw [← here] at free
    rcases widens.node l' with same | ⟨missing, -⟩
    · exact .inr ⟨same ▸ free, rfl⟩
    · exact .inr ⟨missing, rfl⟩
  · exact widens.node l'

theorem file_absent (widens : t.Widens t') (absent : ∀ l b, t.node l ≠ some (.file b)) (l : Loc)
    (b : Bytes) : t'.node l ≠ some (.file b) := by
  rcases widens.node l with same | ⟨-, dir⟩
  · exact same ▸ absent l b
  · simp [dir]

end Widens

/-! ## Changes of one node -/

structure Sets (t : Tree) (l : Loc) (x : Option Node) (t' : Tree) : Prop where
  cwd : t'.cwd = t.cwd
  node : ∀ l', t'.node l' = if l' = l then x else t.node l'

theorem sets_put {t : Tree} {n : Bytes} {l : Loc} {x : Node} (hd : t.node l = some .dir)
    (hn : IsName n) (hf : t.node (n :: l) ≠ some .dir) :
    t.Sets (n :: l) (some x) (t.put n l x) :=
  ⟨put_cwd t n l x, node_put hd hn hf⟩

theorem sets_erase {t : Tree} {n : Bytes} {l : Loc} (h : t.children (n :: l) = []) :
    t.Sets (n :: l) none (t.erase n l) :=
  ⟨erase_cwd t n l, node_erase h⟩

namespace Sets
variable {t t' t'' : Tree} {l : Loc} {x y : Option Node}

theorem here (h : t.Sets l x t') : t'.node l = x := by rw [h.node, if_pos rfl]

theorem other (h : t.Sets l x t') {l' : Loc} (hl : l' ≠ l) : t'.node l' = t.node l' := by
  rw [h.node, if_neg hl]

theorem again (h : t.Sets l x t') (h' : t'.Sets l y t'') : t.Sets l y t'' := by
  refine ⟨h'.cwd.trans h.cwd, fun l' => ?_⟩
  rw [h'.node]
  split_ifs with hl
  · rfl
  · exact h.other hl

theorem keeps_dirs (h : t.Sets l x t') (hl : t.node l ≠ some .dir) (l' : Loc)
    (hd : t.node l' = some .dir) : t'.node l' = some .dir := by
  rw [h.other]
  · exact hd
  · rintro rfl
    exact hl hd

end Sets

/-! ## Removals -/

structure Drops (t : Tree) (d : Loc) (names : List Bytes) (t' : Tree) : Prop where
  cwd : t'.cwd = t.cwd
  node : ∀ l, t'.node l = if ∃ m ∈ names, l = m :: d then none else t.node l

theorem Drops.cons {t t' t'' : Tree} {d : Loc} {m : Bytes} {names : List Bytes}
    (first : t.Sets (m :: d) none t') (rest : t'.Drops d names t'') :
    t.Drops d (m :: names) t'' := by
  refine ⟨rest.cwd.trans first.cwd, fun l => ?_⟩
  rw [rest.node, first.node]
  by_cases here : l = m :: d
  · rw [if_pos here, ite_self, if_pos ⟨m, List.mem_cons_self, here⟩]
  · simp [here]

structure Prunes (t : Tree) (d : Loc) (t' : Tree) : Prop where
  cwd : t'.cwd = t.cwd
  node : ∀ l, t'.node l = if d <:+ l then none else t.node l

structure Trims (t : Tree) (d : Loc) (t' : Tree) : Prop where
  cwd : t'.cwd = t.cwd
  node : ∀ l, t'.node l = t.node l ∨ d <:+ l ∧ t'.node l = none

namespace Trims
variable {t t' t'' : Tree} {d l : Loc} {n : Bytes} {p : Bytes}

theorem refl (t : Tree) (d : Loc) : t.Trims d t := ⟨rfl, fun _ => .inl rfl⟩

theorem of_sets (sets : t.Sets d none t') : t.Trims d t' := by
  refine ⟨sets.cwd, fun l => ?_⟩
  by_cases here : l = d
  · rw [here]
    exact .inr ⟨List.suffix_rfl, sets.here⟩
  · exact .inl (sets.other here)

theorem of_drops {names : List Bytes} (drops : t.Drops d names t') : t.Trims d t' := by
  refine ⟨drops.cwd, fun l => ?_⟩
  rw [drops.node]
  split
  · rename_i dropped
    obtain ⟨m, -, rfl⟩ := dropped
    exact .inr ⟨List.suffix_cons m d, rfl⟩
  · exact .inl rfl

theorem trans (first : t.Trims d t') (second : t'.Trims d t'') : t.Trims d t'' := by
  refine ⟨second.cwd.trans first.cwd, fun l => ?_⟩
  cases second.node l with
  | inl same =>
      rw [same]
      exact first.node l
  | inr gone => exact .inr gone

theorem above (trims : t.Trims (n :: d) t') : t.Trims d t' :=
  ⟨trims.cwd, fun l => (trims.node l).imp_right fun gone =>
    ⟨(List.suffix_cons n d).trans gone.1, gone.2⟩⟩

theorem outside (trims : t.Trims d t') (other : ¬d <:+ l) : t'.node l = t.node l :=
  (trims.node l).resolve_right fun gone => other gone.1

theorem was (trims : t.Trims d t') {x : Node} (here : t'.node l = some x) : t.node l = some x := by
  cases trims.node l with
  | inl same => rw [← same, here]
  | inr gone =>
      rw [gone.2] at here
      cases here

theorem resolve (trims : t.Trims d t') (h : t'.resolve p = some l) : t.resolve p = some l :=
  resolve_mono (fun _ => trims.was) trims.cwd.symm h

theorem anchored (trims : t.Trims (n :: d) t') (anchored : t.Anchored p d) : t'.Anchored p d := by
  refine anchored.mono trims.cwd fun l outside dir => ?_
  rw [trims.outside]
  · exact dir
  · rintro ⟨ns, rfl⟩
    obtain ⟨k, ks, same⟩ := List.exists_cons_of_ne_nil (List.append_ne_nil_of_right_ne_nil ns (List.cons_ne_nil n []))
    refine outside k ks ?_
    rw [← same, List.append_assoc, List.singleton_append]

theorem prunes (trims : t.Trims d t') (gone : t'.node d = none) : t.Prunes d t' := by
  refine ⟨trims.cwd, fun l => ?_⟩
  split
  · rename_i below
    obtain ⟨ns, rfl⟩ := below
    cases ns using List.reverseRecOn with
    | nil => exact gone
    | append_singleton ns m =>
        rw [List.append_assoc, List.singleton_append]
        exact node_below_none (by simp [gone]) m ns
  · exact trims.outside (by assumption)

end Trims

theorem siblings_apart {m n : Bytes} {d l : Loc} (below : m :: d <:+ l) (below' : n :: d <:+ l) :
    m = n := by
  have same := (List.suffix_of_suffix_length_le below below' le_rfl).eq_of_length rfl
  exact (List.cons.inj same).1

end Tree

def overwrite (content : Bytes) (offset : Nat) (buff : Bytes) : Bytes :=
  content.take offset ++ List.replicate (offset - content.length) 0 ++ buff ++
    content.drop (offset + buff.length)

@[simp] theorem overwrite_nil (buff : Bytes) : overwrite [] 0 buff = buff := by
  simp [overwrite]

namespace Disk

def calm (d : Disk) : (op : DiskOp) → op.Res
  | .stat p => (d.tree.lookup p).map Node.kind
  | .access p => (d.tree.lookup p).isSome
  | .mkdir p => (d.tree.vacant p).isSome
  | .openRead p => if (d.tree.lookup p).isSome then some d.next else none
  | .openTrunc p => if (d.tree.target p).isSome then some d.next else none
  | .flock fd => match d.files fd with
      | some f => d.locks f.loc = none ∨ d.locks f.loc = some fd
      | none => false
  | .unlock _ => ()
  | .fstat fd => match d.files fd with
      | some f => (d.tree.content f.loc).length
      | none => 0
  | .read fd len => (d.files fd).bind fun f => match d.tree.node f.loc with
      | some (.file b) => some ((b.drop f.offset).take len)
      | _ => none
  | .write fd buff => if (d.files fd).isSome then some buff.length else none
  | .close _ => ()
  | .opendir p => match d.tree.resolve p with
      | some l => if d.tree.node l = some .dir then
          some ([dot] :: [dot, dot] :: d.tree.children l) else none
      | none => none
  | .remove p => match d.tree.resolve p with
      | some (n :: l) => d.tree.node (n :: l) ≠ none ∧ d.tree.children (n :: l) = []
      | _ => false
  | .rmdir p => match d.tree.resolve p with
      | some (n :: l) => d.tree.node (n :: l) = some .dir ∧ d.tree.children (n :: l) = []
      | _ => false

def deviates (φ : Faults) (d : Disk) : (op : DiskOp) → op.Res → Prop
  | .openRead _, r => φ.openRead = true ∧ r = none
  | .openTrunc _, r => φ.openTrunc = true ∧ r = none
  | .flock _, r => φ.flock = true ∧ r = false
  | .write _ buff, r => φ.write = true ∧ (r = none ∨ ∃ n < buff.length, r = some n)
  | .opendir p, r => ∃ names names', d.calm (.opendir p) = some names ∧ r = some names' ∧
      names'.Perm names
  | .fstat fd, _ => ∃ f, d.files fd = some f ∧ d.tree.node f.loc = some .dir
  | _, _ => False

def withFile (d : Disk) (l : Loc) : Disk :=
  { d with files := Function.update d.files d.next (some ⟨l, 0⟩), next := d.next + 1 }

def effect (d : Disk) : (op : DiskOp) → op.Res → Disk
  | .mkdir p, true => match d.tree.vacant p with
      | some (n, l) => { d with tree := d.tree.put n l .dir }
      | none => d
  | .openRead p, some _ => match d.tree.resolve p with
      | some l => d.withFile l
      | none => d
  | .openTrunc p, some _ => match d.tree.target p with
      | some (n, l) => { d with tree := d.tree.put n l (.file []) }.withFile (n :: l)
      | none => d
  | .flock fd, true => match d.files fd with
      | some f => { d with locks := Function.update d.locks f.loc (some fd) }
      | none => d
  | .unlock fd, _ => match d.files fd with
      | some f => if d.locks f.loc = some fd then
          { d with locks := Function.update d.locks f.loc none } else d
      | none => d
  | .read fd _, some b => match d.files fd with
      | some f => { d with files := Function.update d.files fd (some ⟨f.loc, f.offset + b.length⟩) }
      | none => d
  | .write fd buff, some n => match d.files fd with
      | some ⟨m :: l, offset⟩ =>
          { d with
            tree := d.tree.put m l
              (.file (overwrite (d.tree.content (m :: l)) offset (buff.take n)))
            files := Function.update d.files fd (some ⟨m :: l, offset + n⟩) }
      | _ => d
  | .close fd, _ => match d.files fd with
      | some f =>
          { d with
            files := Function.update d.files fd none
            locks := if d.locks f.loc = some fd then Function.update d.locks f.loc none
              else d.locks }
      | none => d
  | .remove p, true | .rmdir p, true => match d.tree.resolve p with
      | some (n :: l) => { d with tree := d.tree.erase n l }
      | _ => d
  | _, _ => d

/-! ## What a call can do -/

attribute [local simp] calm effect

theorem mkdir_cases (d : Disk) (p : Bytes) (r : Bool) : d.effect (.mkdir p) r = d ∨
    ∃ n l, d.tree.vacant p = some (n, l) ∧
      d.effect (.mkdir p) r = { d with tree := d.tree.put n l .dir } := by
  cases r with
  | false => exact .inl rfl
  | true =>
      cases free : d.tree.vacant p with
      | none => exact .inl (by simp only [effect, free])
      | some place => exact .inr ⟨place.1, place.2, rfl, by simp only [effect, free]⟩

theorem openTrunc_cases (d : Disk) (p : Bytes) :
    d.calm (.openTrunc p) = none ∨
    ∃ n l, d.tree.target p = some (n, l) ∧ d.calm (.openTrunc p) = some d.next ∧
      d.effect (.openTrunc p) (some d.next) =
        ({ d with tree := d.tree.put n l (.file []) } : Disk).withFile (n :: l) := by
  cases target : d.tree.target p with
  | none => exact .inl (by simp [calm, target])
  | some place =>
      exact .inr ⟨place.1, place.2, rfl, by simp [calm, target], by simp only [effect, target]⟩

def idle (t : Tree) (next : Nat) : Disk := ⟨t, fun _ => none, fun _ => none, next⟩

def opened (t : Tree) (fd : Nat) (f : OpenFile) (locked : Bool) : Disk where
  tree := t
  files := Function.update (fun _ => none) fd (some f)
  locks := if locked then Function.update (fun _ => none) f.loc (some fd) else fun _ => none
  next := fd + 1

section Single
variable {t : Tree} {fd : Nat} {f : OpenFile} {p n : Bytes} {l : Loc}

theorem opendir_calm (h : t.resolve p = some l) (hd : t.node l = some .dir) :
    (idle t fd).calm (.opendir p) = some ([dot] :: [dot, dot] :: t.children l) := by
  simp [calm, idle, h, hd]

theorem remove_calm (h : t.resolve p = some (n :: l)) {x : Node} (hx : t.node (n :: l) = some x)
    (leaf : t.children (n :: l) = []) : (idle t fd).calm (.remove p) = true := by
  simp [calm, idle, h, hx, leaf]

theorem remove_effect (h : t.resolve p = some (n :: l)) :
    (idle t fd).effect (.remove p) true = idle (t.erase n l) fd := by
  simp [effect, idle, h]

theorem rmdir_calm (h : t.resolve p = some (n :: l)) (hd : t.node (n :: l) = some .dir)
    (leaf : t.children (n :: l) = []) : (idle t fd).calm (.rmdir p) = true := by
  simp [calm, idle, h, hd, leaf]

theorem rmdir_effect (h : t.resolve p = some (n :: l)) :
    (idle t fd).effect (.rmdir p) true = idle (t.erase n l) fd := by
  simp [effect, idle, h]

theorem removal_idle (t : Tree) (fd : Nat) (p : Bytes) (r : Bool) :
    (∃ t', (idle t fd).effect (.remove p) r = idle t' fd) ∧
      ∃ t', (idle t fd).effect (.rmdir p) r = idle t' fd := by
  cases r with
  | false => exact ⟨⟨t, rfl⟩, ⟨t, rfl⟩⟩
  | true =>
      unfold effect
      dsimp only
      split
      · exact ⟨⟨_, rfl⟩, ⟨_, rfl⟩⟩
      · exact ⟨⟨t, rfl⟩, ⟨t, rfl⟩⟩

theorem openRead_calm : (idle t fd).calm (.openRead p) =
    if (t.lookup p).isSome then some fd else none := rfl

theorem openRead_effect (h : t.resolve p = some l) :
    (idle t fd).effect (.openRead p) (some fd) = opened t fd ⟨l, 0⟩ false := by
  simp [effect, idle, h, withFile, opened]

theorem openTrunc_calm : (idle t fd).calm (.openTrunc p) =
    if (t.target p).isSome then some fd else none := rfl

theorem openTrunc_effect (h : t.target p = some (n, l)) :
    (idle t fd).effect (.openTrunc p) (some fd) =
      opened (t.put n l (.file [])) fd ⟨n :: l, 0⟩ false := by
  simp [effect, idle, h, withFile, opened]

@[simp] theorem opened_files (locked : Bool) : (opened t fd f locked).files fd = some f := by
  simp [opened]

theorem flock_calm : (opened t fd f false).calm (.flock fd) = true := by
  simp [calm, opened]

theorem flock_effect :
    (opened t fd f false).effect (.flock fd) true = opened t fd f true := by
  simp [effect, opened]

theorem fstat_calm {locked : Bool} :
    (opened t fd f locked).calm (.fstat fd) = (t.content f.loc).length := by
  simp [calm, opened]

theorem write_calm {buff : Bytes} {locked : Bool} :
    (opened t fd f locked).calm (.write fd buff) = some buff.length := by
  simp [calm, opened]

theorem write_effect {buff : Bytes} {k offset : Nat} {locked : Bool} :
    (opened t fd ⟨n :: l, offset⟩ locked).effect (.write fd buff) (some k) =
      opened (t.put n l (.file (overwrite (t.content (n :: l)) offset (buff.take k)))) fd
        ⟨n :: l, offset + k⟩ locked := by
  simp [effect, opened]

theorem read_calm {b : Bytes} {k : Nat} {locked : Bool} (h : t.node f.loc = some (.file b)) :
    (opened t fd f locked).calm (.read fd k) = some ((b.drop f.offset).take k) := by
  simp [calm, opened, h]

theorem read_none {k : Nat} {locked : Bool} (h : ∀ b, t.node f.loc ≠ some (.file b)) :
    (opened t fd f locked).calm (.read fd k) = none := by
  simp only [calm, opened, Function.update_self, Option.bind_some]

theorem read_effect {b : Bytes} {k : Nat} {locked : Bool} :
    (opened t fd f locked).effect (.read fd k) (some b) =
      opened t fd ⟨f.loc, f.offset + b.length⟩ locked := by
  simp [effect, opened]

theorem unlock_effect : (opened t fd f true).effect (.unlock fd) () = opened t fd f false := by
  simp [effect, opened]

theorem close_effect (locked : Bool) :
    (opened t fd f locked).effect (.close fd) () = idle t (fd + 1) := by
  cases locked <;> simp [effect, opened, idle]

end Single
end Disk
end Vfs
