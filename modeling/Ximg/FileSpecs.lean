import Ximg.Environment
import Ximg.Zimg

/-!
# What the file helpers do

One specification for each program that works on files, on a disk where nothing is open.
-/

namespace Ximg
open Text Vfs Calls

variable {Im : Type} {env : Env Im} {α : Type} {w : World} {t : Tree} {n : Nat}

def World.on (w : World) (d : Disk) : World := { w with disk := d }

abbrev World.at (w : World) (t : Tree) (n : Nat) : World := w.on (.idle t n)

@[simp] theorem World.on_disk (w : World) (d : Disk) : (w.on d).disk = d := rfl

@[simp] theorem World.on_on (w : World) (d d' : Disk) : (w.on d).on d' = w.on d' := rfl

def World.withTree (w : World) (t : Tree) : World := w.on { w.disk with tree := t }

@[simp] theorem World.withTree_tree (w : World) (t : Tree) : (w.withTree t).disk.tree = t := rfl

/-! ## Rules for one open file -/

section OneFile
variable {f : OpenFile} {m : Bytes} {l : Loc} {locked : Bool} {fd : Nat} {Q : α → World → Prop}

theorem wp_call_disk (op : DiskOp) (k : op.Res → Prog (Sys Im) α) (d : Disk) :
    env.machine.wp (.call (.disk op) k) Q (w.on d) ↔
      ∀ r, (r = d.calm op ∨ d.deviates env.faults op r) →
        env.machine.wp (k r) Q (w.on (d.effect op r)) := Iff.rfl

theorem wp_openTrunc {path : Bytes} {k : Option Nat → Prog (Sys Im) α}
    (unopened : t.target path = none ∨ env.faults.openTrunc = true →
      env.machine.wp (k none) Q (w.at t n))
    (opened : ∀ m l, t.target path = some (m, l) →
      env.machine.wp (k (some n)) Q (w.on (.opened (t.put m l (.file [])) n ⟨m :: l, 0⟩ false))) :
    env.machine.wp (.call (.disk (.openTrunc path)) k) Q (w.at t n) := by
  rw [wp_call_disk]
  rintro r (rfl | ⟨fault, rfl⟩)
  · cases ht : t.target path with
    | none =>
        rw [Disk.openTrunc_calm, ht]
        exact unopened (.inl ht)
    | some place =>
        rw [Disk.openTrunc_calm, ht]
        simp only [Option.isSome_some, if_true]
        rw [Disk.openTrunc_effect ht]
        exact opened _ _ ht
  · exact unopened (.inr fault)

theorem wp_openRead {path : Bytes} {k : Option Nat → Prog (Sys Im) α}
    (unopened : t.lookup path = none ∨ env.faults.openRead = true →
      env.machine.wp (k none) Q (w.at t n))
    (opened : ∀ l x, t.resolve path = some l → t.node l = some x →
      env.machine.wp (k (some n)) Q (w.on (.opened t n ⟨l, 0⟩ false))) :
    env.machine.wp (.call (.disk (.openRead path)) k) Q (w.at t n) := by
  rw [wp_call_disk]
  rintro r (rfl | ⟨fault, rfl⟩)
  · cases ht : t.lookup path with
    | none =>
        rw [Disk.openRead_calm, ht]
        exact unopened (.inl ht)
    | some x =>
        obtain ⟨l, hl, hx⟩ := Option.bind_eq_some_iff.mp ht
        rw [Disk.openRead_calm, ht]
        simp only [Option.isSome_some, if_true]
        rw [Disk.openRead_effect hl]
        exact opened l x hl hx
  · exact unopened (.inr fault)

theorem wp_flock {k : Bool → Prog (Sys Im) α}
    (refused : env.faults.flock = true →
      env.machine.wp (k false) Q (w.on (.opened t fd f false)))
    (taken : env.machine.wp (k true) Q (w.on (.opened t fd f true))) :
    env.machine.wp (.call (.disk (.flock fd)) k) Q (w.on (.opened t fd f false)) := by
  rw [wp_call_disk]
  rintro r (rfl | ⟨fault, rfl⟩)
  · rw [Disk.flock_calm, Disk.flock_effect]
    exact taken
  · exact refused fault

theorem wp_write {buff : Bytes} {k : Option Nat → Prog (Sys Im) α}
    (failed : env.faults.write = true →
      env.machine.wp (k none) Q (w.on (.opened t fd ⟨m :: l, 0⟩ locked)))
    (short : ∀ len < buff.length, env.faults.write = true → env.machine.wp (k (some len)) Q
      (w.on (.opened (t.put m l (.file (overwrite (t.content (m :: l)) 0 (buff.take len)))) fd
        ⟨m :: l, len⟩ locked)))
    (full : env.machine.wp (k (some buff.length)) Q
      (w.on (.opened (t.put m l (.file (overwrite (t.content (m :: l)) 0 buff))) fd
        ⟨m :: l, buff.length⟩ locked))) :
    env.machine.wp (.call (.disk (.write fd buff)) k) Q
      (w.on (.opened t fd ⟨m :: l, 0⟩ locked)) := by
  rw [wp_call_disk]
  rintro r (rfl | ⟨fault, rfl | ⟨len, fewer, rfl⟩⟩)
  · rw [Disk.write_calm, Disk.write_effect, List.take_length, Nat.zero_add]
    exact full
  · exact failed fault
  · rw [Disk.write_effect, Nat.zero_add]
    exact short len fewer fault

theorem wp_unlock {k : Unit → Prog (Sys Im) α}
    (h : env.machine.wp (k ()) Q (w.on (.opened t fd f false))) :
    env.machine.wp (.call (.disk (.unlock fd)) k) Q (w.on (.opened t fd f true)) := by
  rw [wp_call_disk]
  rintro ⟨⟩ -
  rw [Disk.unlock_effect]
  exact h

theorem wp_close {k : Unit → Prog (Sys Im) α}
    (h : env.machine.wp (k ()) Q (w.at t (fd + 1))) :
    env.machine.wp (.call (.disk (.close fd)) k) Q (w.on (.opened t fd f locked)) := by
  rw [wp_call_disk]
  rintro ⟨⟩ -
  rw [Disk.close_effect]
  exact h

theorem wp_fstat {k : Nat → Prog (Sys Im) α}
    (h : ∀ len, (∀ b, t.node f.loc = some (.file b) → len = b.length) →
      (t.node f.loc = none → len = 0) →
      env.machine.wp (k len) Q (w.on (.opened t fd f locked))) :
    env.machine.wp (.call (.disk (.fstat fd)) k) Q (w.on (.opened t fd f locked)) := by
  rw [wp_call_disk]
  rintro r (rfl | ⟨g, open_, dir⟩)
  · rw [Disk.fstat_calm]
    refine h _ (fun b hb => by rw [Tree.content_file hb]) fun gone => ?_
    simp [Tree.content, gone]
  · rw [Disk.opened_files] at open_
    cases open_
    change t.node f.loc = some .dir at dir
    refine h r (fun b hb => ?_) fun gone => ?_
    · rw [dir] at hb
      cases hb
    · rw [dir] at gone
      cases gone

theorem wp_read {len : Nat} {k : Option Bytes → Prog (Sys Im) α}
    (failed : (∀ b, t.node l ≠ some (.file b)) →
      env.machine.wp (k none) Q (w.on (.opened t fd ⟨l, 0⟩ locked)))
    (read : ∀ b, t.node l = some (.file b) → env.machine.wp (k (some (b.take len))) Q
      (w.on (.opened t fd ⟨l, (b.take len).length⟩ locked))) :
    env.machine.wp (.call (.disk (.read fd len)) k) Q (w.on (.opened t fd ⟨l, 0⟩ locked)) := by
  rw [wp_call_disk]
  rintro r (rfl | impossible)
  swap
  · exact impossible.elim
  by_cases file : ∃ b, t.node l = some (.file b)
  · obtain ⟨b, hb⟩ := file
    rw [Disk.read_calm hb, Disk.read_effect, List.drop_zero, Nat.zero_add]
    exact read b hb
  · push Not at file
    rw [Disk.read_none file]
    exact failed file

end OneFile

/-! ## Tests -/

def isRegular : Option Node → Bool
  | some (.file _) => true
  | _ => false

theorem isDir_eq (path : Bytes) : (isDir path : Prog (Sys Im) Int) =
    .call (.disk (.stat path)) fun kind => .ret (if kind = some .directory then 1 else -1) := by
  simp only [isDir, disk_bind, Prog.pure_eq]
  congr 1
  funext kind
  cases kind with
  | none => rfl
  | some kind => cases kind <;> rfl

theorem isFile_eq (path : Bytes) : (isFile path : Prog (Sys Im) Int) =
    .call (.disk (.stat path)) fun kind => .ret (if kind = some .regular then 1 else -1) := by
  simp only [isFile, disk_bind, Prog.pure_eq]
  congr 1
  funext kind
  cases kind with
  | none => rfl
  | some kind => cases kind <;> rfl

theorem kind_directory (x : Option Node) : x.map Node.kind = some .directory ↔ x = some .dir := by
  cases x with
  | none => simp
  | some x => cases x <;> simp [Node.kind]

theorem kind_regular (x : Option Node) :
    x.map Node.kind = some .regular ↔ isRegular x = true := by
  cases x with
  | none => simp [isRegular]
  | some x => cases x <;> simp [Node.kind, isRegular]

theorem wp_isDir (path : Bytes) (Q : Int → World → Prop) :
    env.machine.wp (isDir path) Q w ↔
      Q (if w.disk.tree.lookup path = some .dir then 1 else -1) w := by
  simp only [isDir_eq, Env.wp_stat, Machine.wp_ret, kind_directory]

theorem wp_isFile (path : Bytes) (Q : Int → World → Prop) :
    env.machine.wp (isFile path) Q w ↔
      Q (if isRegular (w.disk.tree.lookup path) then 1 else -1) w := by
  simp only [isFile_eq, Env.wp_stat, Machine.wp_ret, kind_regular]

/-! ## Writing a file -/

theorem wp_newImg {buff path : Bytes} {Q : Int → World → Prop}
    (unopened : t.target path = none ∨ env.faults.openTrunc = true → Q (-1) (w.at t n))
    (failed : ∀ m l b t', t.target path = some (m, l) →
      env.faults.flock = true ∨ env.faults.write = true → b <+: buff →
      t.Sets (m :: l) (some (.file b)) t' → Q (-1) (w.at t' (n + 1)))
    (written : ∀ m l t', t.target path = some (m, l) →
      t.Sets (m :: l) (some (.file buff)) t' → Q 1 (w.at t' (n + 1))) :
    env.machine.wp (newImg buff path) Q (w.at t n) := by
  simp only [newImg, disk_bind, Prog.pure_eq]
  refine wp_openTrunc unopened fun m l ht => ?_
  obtain ⟨dir, name⟩ := Tree.target_place ht
  have empty := Tree.sets_put (x := .file []) dir name (Tree.target_iff.mp ht).2
  have filled (b : Bytes) : t.Sets (m :: l) (some (.file b))
      ((t.put m l (.file [])).put m l
        (.file (overwrite ((t.put m l (.file [])).content (m :: l)) 0 b))) := by
    rw [Tree.content_file empty.here, overwrite_nil]
    refine empty.again (Tree.sets_put ?_ name ?_)
    · rw [empty.other (by simp)]
      exact dir
    · simp [empty.here]
  refine wp_flock (fun fault => ?_) ?_
  · exact wp_close (failed m l [] _ ht (.inl fault) List.nil_prefix empty)
  refine wp_write (fun fault => ?_) (fun len fewer fault => ?_) ?_
  · exact wp_close (failed m l [] _ ht (.inr fault) List.nil_prefix empty)
  · simp only [fewer, if_true]
    exact wp_close (failed m l _ _ ht (.inr fault) (List.take_prefix len buff) (filled _))
  · simp only [lt_irrefl, if_false]
    exact wp_unlock (wp_close (written m l _ ht (filled buff)))

theorem wp_ensureFile {buff path : Bytes} {Q : Int → World → Prop}
    (found : isRegular (w.disk.tree.lookup path) = true → Q 1 w)
    (missing : isRegular (w.disk.tree.lookup path) = false →
      env.machine.wp (newImg buff path) Q w) :
    env.machine.wp (ensureFile buff path) Q w := by
  rw [ensureFile, Machine.wp_bind, wp_isFile]
  cases regular : isRegular (w.disk.tree.lookup path) with
  | true => exact found regular
  | false => exact missing regular

/-! ## Reading a file -/

theorem wp_readRsp {l : Loc} {Q : Option Bytes → World → Prop}
    (failed : (∀ b, t.node l = some (.file b) → b = []) →
      Q none (w.on (.opened t n ⟨l, 0⟩ false)))
    (read : ∀ b, t.node l = some (.file b) → b ≠ [] →
      Q (some b) (w.on (.opened t n ⟨l, b.length⟩ false))) :
    env.machine.wp (readRsp n) Q (w.on (.opened t n ⟨l, 0⟩ false)) := by
  simp only [readRsp, disk_bind, sys_bind, Prog.pure_eq]
  refine wp_fstat fun len sized gone => ?_
  split
  · rename_i empty
    refine failed fun b hb => List.eq_nil_of_length_eq_zero ?_
    rw [← sized b hb, empty]
  · rename_i some_
    simp only [Env.wp_malloc, Bool.true_eq_false, if_false]
    refine wp_read (fun none_ => failed fun b hb => absurd hb (none_ b)) fun b hb => ?_
    rw [sized b hb, List.take_length]
    simp only [lt_irrefl, if_false]
    refine read b hb ?_
    rintro rfl
    exact some_ (sized [] hb)

/-! ## Making directories -/

theorem wp_access {path : Bytes} {k : Bool → Prog (Sys Im) α} {Q : α → World → Prop} :
    env.machine.wp (.call (.disk (.access path)) k) Q w ↔
      env.machine.wp (k (w.disk.tree.lookup path).isSome) Q w :=
  Env.wp_disk_calm (.access path) k fun _ => id

theorem wp_mkdir {path : Bytes} {k : Bool → Prog (Sys Im) α} {Q : α → World → Prop}
    (refused : t.vacant path = none → env.machine.wp (k false) Q (w.withTree t))
    (made : ∀ m l, t.vacant path = some (m, l) →
      env.machine.wp (k true) Q (w.withTree (t.put m l .dir))) :
    env.machine.wp (.call (.disk (.mkdir path)) k) Q (w.withTree t) := by
  refine (Env.wp_disk_calm (.mkdir path) k fun _ => id).mpr ?_
  change env.machine.wp (k (t.vacant path).isSome) Q
    ((w.withTree t).on ((w.withTree t).disk.effect (.mkdir path) (t.vacant path).isSome))
  cases hv : t.vacant path with
  | none => exact refused hv
  | some place =>
      have effect : (w.withTree t).disk.effect (.mkdir path) true =
          ((w.withTree t).withTree (t.put place.1 place.2 .dir)).disk := by
        simp only [Disk.effect, World.withTree_tree, hv]
        rfl
      rw [Option.isSome_some, effect]
      exact made _ _ hv

def Makes (before tmp q : Bytes) : Prop := before <+: q ∧ q ++ [slash] <+: tmp

theorem makes_step {before rest q : Bytes} {c : UInt8} (h : Makes before (before ++ c :: rest) q) :
    (q = before ∧ c = slash) ∨ Makes (before ++ [c]) (before ++ [c] ++ rest) q := by
  obtain ⟨⟨q, rfl⟩, more⟩ := h
  cases q with
  | nil =>
      rw [List.append_nil, List.prefix_append_right_inj, List.cons_prefix_cons] at more
      exact .inl ⟨by simp, more.1.symm⟩
  | cons d q =>
      have same := more
      rw [List.append_assoc, List.prefix_append_right_inj, List.cons_append,
        List.cons_prefix_cons] at same
      rw [same.1] at more ⊢
      exact .inr ⟨⟨q, by simp⟩, by simpa using more⟩

def Made (before tmp : Bytes) (r : Int) (t' : Tree) : Prop :=
  (r = 1 ∧ ∀ q, Makes before tmp q → (t'.lookup q).isSome) ∨
  (r = -1 ∧ ∃ q, Makes before tmp q ∧ t'.lookup q = none ∧ t'.vacant q = none ∧
    ∀ q', before <+: q' → q' ++ [slash] <+: q → (t'.lookup q').isSome)

theorem Made.step {before rest : Bytes} {c : UInt8} {r : Int}
    (made : Made (before ++ [c]) (before ++ [c] ++ rest) r t)
    (here : c = slash → (t.lookup before).isSome) : Made before (before ++ c :: rest) r t := by
  rcases made with ⟨rfl, all⟩ | ⟨rfl, q, ⟨below, more⟩, missing, stuck, earlier⟩
  · refine .inl ⟨rfl, fun q hq => ?_⟩
    rcases makes_step hq with ⟨rfl, hc⟩ | hq
    · exact here hc
    · exact all q hq
  · refine .inr ⟨rfl, q, ⟨(List.prefix_append _ _).trans below, by simpa using more⟩, missing,
      stuck, fun q' hq' shorter => ?_⟩
    obtain ⟨tail, rfl⟩ := below
    have inside : Makes before (before ++ c :: tail) q' := ⟨hq', by simpa using shorter⟩
    rcases makes_step inside with ⟨rfl, hc⟩ | ⟨hq', -⟩
    · exact here hc
    · exact earlier q' hq' shorter

theorem wp_mkDirsLoop_tree {I : Tree → Prop} {before rest : Bytes}
    (grow : ∀ t q m l, I t → Makes before (before ++ rest) q → t.vacant q = some (m, l) →
      I (t.put m l .dir)) (h : I t) :
    env.machine.wp (mkDirsLoop before rest) (fun r w' => ∃ t', w' = w.withTree t' ∧ I t' ∧
      t.Keeps t' ∧ Made before (before ++ rest) r t') (w.withTree t) := by
  induction rest generalizing before t with
  | nil =>
      refine ⟨t, rfl, h, .refl t, .inl ⟨rfl, fun q hq => ?_⟩⟩
      have longer := hq.2.length_le
      have shorter := hq.1.length_le
      simp at longer
      omega
  | cons c rest ih =>
      have later {t : Tree} (h : I t) (here : c = slash → (t.lookup before).isSome) :
          env.machine.wp (mkDirsLoop (before ++ [c]) rest) (fun r w' => ∃ t', w' = w.withTree t' ∧
            I t' ∧ t.Keeps t' ∧ Made before (before ++ c :: rest) r t') (w.withTree t) := by
        refine Machine.wp_mono (ih (fun t q m l ht hq => grow t q m l ht ?_) h) ?_
        · exact ⟨(List.prefix_append _ _).trans hq.1, by simpa using hq.2⟩
        · rintro r _ ⟨t', rfl, ht', keeps, made⟩
          exact ⟨t', rfl, ht', keeps, made.step fun hc => keeps.present (here hc)⟩
      rw [mkDirsLoop]
      split
      swap
      · exact later h fun hc => absurd hc (by assumption)
      rename_i hc
      have self : Makes before (before ++ c :: rest) before := by
        refine ⟨List.prefix_rfl, ?_⟩
        simp [hc]
      rw [disk_bind, wp_access, World.withTree_tree]
      split
      · rename_i found
        exact later h fun _ => found
      rename_i missing
      rw [disk_bind]
      refine wp_mkdir (fun stuck => ?_) fun m l hv => ?_
      · refine ⟨t, rfl, h, .refl t, .inr ⟨rfl, before, self, by simpa using missing, stuck, ?_⟩⟩
        intro q' hq' shorter
        have longer := shorter.length_le
        have := hq'.length_le
        simp at longer
        omega
      · have made := Tree.lookup_made hv
        refine Machine.wp_mono (later (grow t before m l h self hv) fun _ => by simp [made]) ?_
        rintro r _ ⟨t', rfl, ht', keeps', made⟩
        exact ⟨t', rfl, ht', (Tree.Keeps.made hv).trans keeps', made⟩

theorem wp_mkDirsLoop {I : Tree → Prop} {before rest : Bytes}
    (grow : ∀ t q m l, I t → Makes before (before ++ rest) q → t.vacant q = some (m, l) →
      I (t.put m l .dir)) (h : I t) :
    env.machine.wp (mkDirsLoop before rest) (fun r w' => ∃ t', w' = w.at t' n ∧ I t' ∧
      t.Keeps t' ∧ Made before (before ++ rest) r t') (w.at t n) :=
  wp_mkDirsLoop_tree (w := w.at t n) grow h

theorem strLcat_room {dst src : Bytes} {size : Nat} (room : dst.length + src.length < size)
    (small : size ≤ 512) : strLcat dst src size = dst ++ src := by
  have left : wrap ((size : Int) - (dst.length + 1)) = size - (dst.length + 1) := by
    unfold wrap
    omega
  simp only [strLcat, left]
  split
  · have : src.length = 0 := by omega
    rw [List.eq_nil_of_length_eq_zero this, List.append_nil]
  · rw [List.take_of_length_le (by omega)]

theorem mkDirsTmp_short {dir : Bytes} (short : dir.length ≤ 254) (last : dir.getLast? ≠ some slash) :
    mkDirsTmp dir = dir ++ [slash] := by
  have whole : strLcpy dir 256 = dir := List.take_of_length_le (by omega)
  rw [mkDirsTmp, whole, if_pos last]
  exact strLcat_room (by simp only [List.length_singleton]; omega) (by norm_num)

theorem mkDirsTmp_prefix {dir q : Bytes} (h : q ++ [slash] <+: mkDirsTmp dir) :
    q.length ≤ 254 ∧ (q ++ [slash] <+: dir ∨ q = dir) := by
  have copied : strLcpy dir 256 <+: dir := List.take_prefix _ _
  have short : (strLcpy dir 256).length ≤ 255 := by
    rw [strLcpy, List.length_take]
    omega
  unfold mkDirsTmp at h
  dsimp only at h
  split at h
  swap
  · have := h.length_le
    rw [List.length_append, List.length_singleton] at this
    exact ⟨by omega, .inl (h.trans copied)⟩
  by_cases full : (strLcpy dir 256).length = 255
  · have noRoom : strLcat (strLcpy dir 256) [slash] 256 = strLcpy dir 256 := by
      simp [strLcat, wrap, full]
    rw [noRoom] at h
    have := h.length_le
    rw [List.length_append, List.length_singleton] at this
    exact ⟨by omega, .inl (h.trans copied)⟩
  · rw [strLcat_room (by simp only [List.length_singleton]; omega) (by norm_num)] at h
    have whole : strLcpy dir 256 = dir := by
      refine List.take_of_length_le ?_
      rw [strLcpy, List.length_take] at full
      omega
    rw [whole] at h short full
    have bound := h.length_le
    simp only [List.length_append, List.length_singleton] at bound
    refine ⟨by omega, ?_⟩
    rcases List.prefix_concat_iff.mp h with same | shorter
    · exact .inr (List.append_inj_left' same rfl)
    · exact .inl shorter

/-! ## Deleting -/

theorem wp_remove {path m : Bytes} {l : Loc} {x : Node} {k : Bool → Prog (Sys Im) α}
    {Q : α → World → Prop} (hp : t.resolve path = some (m :: l)) (hx : t.node (m :: l) = some x)
    (leaf : t.children (m :: l) = [])
    (removed : ∀ t', t.Sets (m :: l) none t' → env.machine.wp (k true) Q (w.at t' n)) :
    env.machine.wp (.call (.disk (.remove path)) k) Q (w.at t n) := by
  rw [wp_call_disk]
  rintro r (rfl | impossible)
  · rw [Disk.remove_calm hp hx leaf, Disk.remove_effect hp]
    exact removed _ (Tree.sets_erase leaf)
  · exact impossible.elim

theorem wp_rmdir {path m : Bytes} {l : Loc} {k : Bool → Prog (Sys Im) α}
    {Q : α → World → Prop} (hp : t.resolve path = some (m :: l)) (hd : t.node (m :: l) = some .dir)
    (leaf : t.children (m :: l) = [])
    (removed : ∀ t', t.Sets (m :: l) none t' → env.machine.wp (k true) Q (w.at t' n)) :
    env.machine.wp (.call (.disk (.rmdir path)) k) Q (w.at t n) := by
  rw [wp_call_disk]
  rintro r (rfl | impossible)
  · rw [Disk.rmdir_calm hp hd leaf, Disk.rmdir_effect hp]
    exact removed _ (Tree.sets_erase leaf)
  · exact impossible.elim

theorem wp_opendir {path : Bytes} {d : Loc} {k : Option (List Bytes) → Prog (Sys Im) α}
    {Q : α → World → Prop} (hp : t.resolve path = some d) (hd : t.node d = some .dir)
    (read : ∀ names : List Bytes, names.Perm ([dot] :: [dot, dot] :: t.children d) →
      env.machine.wp (k (some names)) Q (w.at t n)) :
    env.machine.wp (.call (.disk (.opendir path)) k) Q (w.at t n) := by
  rw [wp_call_disk]
  rintro r (rfl | ⟨names, names', opened, rfl, perm⟩)
  · rw [Disk.opendir_calm hp hd]
    exact read _ (.refl _)
  · rw [Disk.opendir_calm hp hd] at opened
    cases opened
    exact read names' perm

theorem wp_removeFile_file {path m : Bytes} {l : Loc} {b : Bytes} {Q : Int → World → Prop}
    (hp : t.resolve path = some (m :: l)) (hb : t.node (m :: l) = some (.file b))
    (removed : ∀ t', t.Sets (m :: l) none t' → Q 1 (w.at t' n)) :
    env.machine.wp (removeFile path) Q (w.at t n) := by
  have found : t.lookup path = some (.file b) := by simp [Tree.lookup, hp, hb]
  have leaf : t.children (m :: l) = [] := Tree.children_of_not_dir (by simp [hb])
  rw [removeFile, Machine.wp_bind, wp_isFile]
  simp only [World.on_disk, Disk.idle, found, isRegular, if_true, disk_bind]
  exact wp_remove hp hb leaf removed

theorem wp_removeFile_dir {path : Bytes} {Q : Int → World → Prop}
    (hd : t.lookup path = some .dir) :
    env.machine.wp (removeFile path) Q (w.at t n) ↔ Q (-1) (w.at t n) := by
  rw [removeFile, Machine.wp_bind, wp_isFile]
  simp [Disk.idle, hd, isRegular]

theorem wp_deleteFile_file {fuel : Nat} {path m : Bytes} {l : Loc} {b : Bytes}
    {Q : Int → World → Prop} (hp : t.resolve path = some (m :: l))
    (hb : t.node (m :: l) = some (.file b))
    (removed : ∀ t', t.Sets (m :: l) none t' → Q 1 (w.at t' n)) :
    env.machine.wp (deleteFile (fuel + 1) path) Q (w.at t n) := by
  rw [deleteFile, Machine.wp_bind]
  refine wp_removeFile_file hp hb fun t' sets => ?_
  have keep := sets.keeps_dirs (by simp [hb])
  have gone : t'.lookup path = none := by
    rw [Tree.lookup, Tree.resolve_mono keep sets.cwd hp, Option.bind_some, sets.here]
  rw [Machine.wp_bind, wp_isDir]
  simp only [World.on_disk, Disk.idle, gone]
  exact removed t' sets

theorem isSpecialDir_iff {m : Bytes} : isSpecialDir m = 1 ↔ m = [dot] ∨ m = [dot, dot] := by
  unfold isSpecialDir
  split <;> simp [*]

theorem node_special {m : Bytes} (special : isSpecialDir m = 1) (d : Loc) :
    t.node (m :: d) = none := by
  rw [← Option.not_isSome_iff_eq_none, Option.isSome_iff_exists]
  rintro ⟨x, hx⟩
  have name := Tree.node_name hx
  rcases isSpecialDir_iff.mp special with rfl | rfl
  · exact name.2.1 rfl
  · exact name.2.2.1 rfl

theorem wp_deleteEntries {fuel : Nat} {path : Bytes} {d : Loc} {names : List Bytes}
    {Q : Int → World → Prop} (hp : t.resolve path = some d) (hd : t.node d = some .dir)
    (nodup : names.Nodup)
    (files : ∀ m ∈ names, isSpecialDir m ≠ 1 → ∃ b, t.node (m :: d) = some (.file b))
    (fits : ∀ m ∈ names, isSpecialDir m ≠ 1 → getFilePath path m = path ++ slash :: m)
    (done : ∀ t', t.Drops d names t' → Q 1 (w.at t' n)) :
    env.machine.wp (deleteEntries (deleteFile (fuel + 1)) path 1 names) Q (w.at t n) := by
  induction names generalizing t with
  | nil => exact done t ⟨rfl, by simp⟩
  | cons m names ih =>
      obtain ⟨new, nodup⟩ := List.nodup_cons.mp nodup
      rw [deleteEntries]
      split
      · rename_i special
        refine ih hp hd nodup (fun m' member => files m' (List.mem_cons_of_mem _ member))
          (fun m' member => fits m' (List.mem_cons_of_mem _ member)) fun t' drops => done t' ?_
        have untouched : t.Sets (m :: d) none t := by
          refine ⟨rfl, fun l => ?_⟩
          split
          · rename_i hl
            rw [hl]
            exact node_special special d
          · rfl
        exact .cons untouched drops
      · rename_i plain
        obtain ⟨b, hb⟩ := files m List.mem_cons_self plain
        have child := Tree.resolve_child hp hd (Tree.node_name hb)
        rw [fits m List.mem_cons_self plain, Machine.wp_bind]
        refine wp_deleteFile_file child hb fun t' sets => ?_
        have keep := sets.keeps_dirs (by simp [hb])
        refine ih (Tree.resolve_mono keep sets.cwd hp) (keep d hd) nodup ?_
          (fun m' member => fits m' (List.mem_cons_of_mem _ member))
          fun t'' drops => done t'' (.cons sets drops)
        intro m' member plain'
        rw [sets.other]
        · exact files m' (List.mem_cons_of_mem _ member) plain'
        · intro same
          exact new ((List.cons.inj same).1 ▸ member)

theorem listing_nodup (t : Tree) (d : Loc) : ([dot] :: [dot, dot] :: t.children d).Nodup := by
  simp only [List.nodup_cons, List.mem_cons, not_or]
  refine ⟨⟨by decide, fun member => ?_⟩, fun member => ?_, Tree.children_nodup t d⟩
  all_goals obtain ⟨x, hx⟩ := Tree.mem_children.mp member
  · exact (Tree.node_name hx).2.1 rfl
  · exact (Tree.node_name hx).2.2.1 rfl

theorem wp_deleteFile_dir {fuel : Nat} {path m : Bytes} {l : Loc} {Q : Int → World → Prop}
    (hp : t.resolve path = some (m :: l)) (hd : t.node (m :: l) = some .dir)
    (files : ∀ m' x, t.node (m' :: m :: l) = some x → ∃ b, x = .file b)
    (fits : ∀ m' ∈ t.children (m :: l), getFilePath path m' = path ++ slash :: m')
    (done : ∀ t', t.Prunes (m :: l) t' → Q 0 (w.at t' n)) :
    env.machine.wp (deleteFile (fuel + 2) path) Q (w.at t n) := by
  have found : t.lookup path = some .dir := by simp [Tree.lookup, hp, hd]
  rw [deleteFile, Machine.wp_bind, wp_removeFile_dir found, Machine.wp_bind, wp_isDir]
  simp only [World.on_disk, Disk.idle, found, if_true, disk_bind]
  refine wp_opendir hp hd fun names perm => ?_
  have listed {m' : Bytes} (member : m' ∈ names) (plain : isSpecialDir m' ≠ 1) :
      m' ∈ t.children (m :: l) := by
    have := perm.mem_iff.mp member
    simp only [List.mem_cons] at this
    rcases this with rfl | rfl | this
    · exact absurd (isSpecialDir_iff.mpr (.inl rfl)) plain
    · exact absurd (isSpecialDir_iff.mpr (.inr rfl)) plain
    · exact this
  dsimp only
  rw [Machine.wp_bind]
  refine wp_deleteEntries hp hd (perm.nodup_iff.mpr (listing_nodup t (m :: l))) ?_
    (fun m' member plain => fits m' (listed member plain)) ?_
  · intro m' member plain
    obtain ⟨x, hx⟩ := Tree.mem_children.mp (listed member plain)
    obtain ⟨b, rfl⟩ := files m' x hx
    exact ⟨b, hx⟩
  · intro t' drops
    have emptied (m' : Bytes) : t'.node (m' :: m :: l) = none := by
      rw [drops.node]
      split
      · rfl
      · rename_i other
        rw [← Option.not_isSome_iff_eq_none, Option.isSome_iff_exists]
        rintro ⟨x, hx⟩
        refine other ⟨m', perm.mem_iff.mpr ?_, rfl⟩
        exact List.mem_cons_of_mem _ (List.mem_cons_of_mem _ (Tree.mem_children.mpr ⟨x, hx⟩))
    have keep (l' : Loc) (hl : t.node l' = some .dir) : t'.node l' = some .dir := by
      rw [drops.node, if_neg]
      · exact hl
      · rintro ⟨m', -, rfl⟩
        obtain ⟨b, hb⟩ := files m' _ hl
        cases hb
    have leaf : t'.children (m :: l) = [] := Tree.children_eq_nil.mpr emptied
    simp only [if_true]
    refine wp_rmdir (Tree.resolve_mono keep drops.cwd hp) (keep _ hd) leaf fun t'' sets => ?_
    have trims : t.Trims (m :: l) t'' := (Tree.Trims.of_drops drops).trans (.of_sets sets)
    exact done t'' (trims.prunes sets.here)

/-! ## Deleting anything -/

def Removes : SysOp Im → Prop
  | .disk (.stat _) | .disk (.remove _) | .disk (.opendir _) | .disk (.rmdir _) => True
  | _ => False

theorem deleteEntries_removes {delete : Bytes → Prog (Sys Im) Int}
    (removes : ∀ path, (delete path).Uses Removes) (path : Bytes) (ret : Int)
    (names : List Bytes) : (deleteEntries delete path ret names).Uses Removes := by
  induction names generalizing ret with
  | nil => trivial
  | cons name names ih =>
      rw [deleteEntries]
      split
      · exact ih ret
      · refine (removes _).bind fun ret' => ?_
        split
        · trivial
        · exact ih ret'

theorem isFile_removes (path : Bytes) : (isFile path : Prog (Sys Im) Int).Uses Removes := by
  rw [isFile_eq]
  exact ⟨trivial, fun _ => trivial⟩

theorem isDir_removes (path : Bytes) : (isDir path : Prog (Sys Im) Int).Uses Removes := by
  rw [isDir_eq]
  exact ⟨trivial, fun _ => trivial⟩

theorem removeFile_removes (path : Bytes) : (removeFile path : Prog (Sys Im) Int).Uses Removes := by
  refine (isFile_removes path).bind fun r => ?_
  split
  · exact ⟨trivial, fun _ => trivial⟩
  · trivial

theorem deleteFile_removes (fuel : Nat) (path : Bytes) :
    (deleteFile fuel path : Prog (Sys Im) Int).Uses Removes := by
  induction fuel generalizing path with
  | zero => trivial
  | succ fuel ih =>
      refine (removeFile_removes path).bind fun ret => (isDir_removes path).bind fun r => ?_
      split
      swap
      · trivial
      refine ⟨trivial, fun names => ?_⟩
      cases names with
      | none => trivial
      | some names =>
          refine (deleteEntries_removes ih path 1 names).bind fun ret => ?_
          split
          swap
          · trivial
          refine ⟨trivial, fun removed => ?_⟩
          cases removed <;> trivial

theorem wp_deleteFile {fuel : Nat} {path : Bytes} :
    env.machine.wp (deleteFile fuel path) (fun _ w' => ∃ t', w' = w.at t' n) (w.at t n) := by
  refine Machine.wp_of_uses (R := fun w' => ∃ t', w' = w.at t' n) (deleteFile_removes fuel path) ?_
    ⟨t, rfl⟩
  rintro _ op r removes ⟨t', rfl⟩ -
  unfold Removes at removes
  split at removes
  · exact ⟨t', rfl⟩
  · rename_i path
    obtain ⟨t'', same⟩ := (Disk.removal_idle t' n path r).1
    exact ⟨t'', congrArg w.on same⟩
  · exact ⟨t', rfl⟩
  · rename_i path
    obtain ⟨t'', same⟩ := (Disk.removal_idle t' n path r).2
    exact ⟨t'', congrArg w.on same⟩
  · exact removes.elim

end Ximg
