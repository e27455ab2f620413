import Ximg.Library.Interleaving
import Ximg.StoreMap

/-!
# Uploads of one image that run together

The test for the file, the open that empties it and its lock are separate calls, so an upload can
empty the file that another one has just written. An upload that is then refused the lock gives
up, and the file stays empty.
-/

namespace Ximg
open Text Vfs Calls

/-! ## Where an upload stands -/

inductive UploadStage where
  /-- It has no descriptor, and may have seen that the file is there. -/
  | idle (seen : Bool)
  | opened (fd : Nat)
  | locked (fd : Nat)
  | written (fd : Nat)
  | closing (fd : Nat)

namespace UploadStage
variable {Im : Type} (path b : Bytes)

inductive Allows : UploadStage → SysOp Im → Prop where
  | stat (seen : Bool) (name : Bytes) : Allows (idle seen) (.disk (.stat name))
  | access (seen : Bool) (name : Bytes) : Allows (idle seen) (.disk (.access name))
  | mkdir (seen : Bool) (name : Bytes) : Allows (idle seen) (.disk (.mkdir name))
  | memcached (seen : Bool) (server : Server) (op : MemcachedOp) :
      Allows (idle seen) (.memcached server op)
  | openTrunc (seen : Bool) : Allows (idle seen) (.disk (.openTrunc path))
  | flock (fd : Nat) : Allows (opened fd) (.disk (.flock fd))
  | write (fd : Nat) : Allows (locked fd) (.disk (.write fd b))
  | unlock (fd : Nat) : Allows (written fd) (.disk (.unlock fd))
  | close (fd : Nat) : Allows (closing fd) (.disk (.close fd))

def next : UploadStage → (op : SysOp Im) → op.Res → UploadStage
  | idle seen, .disk (.stat name), some .regular => idle (seen || name = path)
  | idle _, .disk (.openTrunc _), some fd => opened fd
  | opened fd, .disk (.flock _), true => locked fd
  | opened fd, .disk (.flock _), false => closing fd
  | locked fd, .disk (.write _ _), some wlen => if wlen < b.length then closing fd else written fd
  | locked fd, .disk (.write _ _), none => closing fd
  | written fd, .disk (.unlock _), _ => closing fd
  | closing _, .disk (.close _), _ => idle true
  | stage, _, _ => stage

end UploadStage

section Following
variable {Im : Type} {settings : Settings} {path b : Bytes}

abbrev Uploading (Im : Type) (path b : Bytes) {α : Type} (p : Prog (Sys Im) α)
    (Q : α → Bool → Prop) (stage : UploadStage) : Prop :=
  p.Follows (UploadStage.Allows path b) (UploadStage.next path b)
    (fun a t => ∃ seen, t = .idle seen ∧ Q a seen) stage

theorem uploading_isDir (name : Bytes) (seen : Bool) :
    Uploading Im path b (isDir name) (fun _ _ => True) (.idle seen) := by
  refine ⟨.stat seen name, fun r => ?_⟩
  cases r with
  | none => exact ⟨seen, rfl, trivial⟩
  | some kind => cases kind <;> exact ⟨_, rfl, trivial⟩

theorem uploading_mkDirsLoop (rest before : Bytes) (seen : Bool) :
    Uploading Im path b (mkDirsLoop before rest) (fun _ _ => True) (.idle seen) := by
  induction rest generalizing before with
  | nil => exact ⟨seen, rfl, trivial⟩
  | cons c rest ih =>
      unfold mkDirsLoop
      split
      · refine ⟨.access seen before, fun present => ?_⟩
        cases present with
        | true => exact ih _
        | false =>
            refine ⟨.mkdir seen before, fun made => ?_⟩
            cases made with
            | true => exact ih _
            | false => exact ⟨seen, rfl, trivial⟩
      · exact ih _

theorem uploading_ensureDir (name : Bytes) (seen : Bool) :
    Uploading Im path b (ensureDir name) (fun _ _ => True) (.idle seen) := by
  apply Prog.Follows.bind (uploading_isDir name seen)
  rintro found _ ⟨seen', rfl, -⟩
  split
  · exact uploading_mkDirsLoop _ _ seen'
  · exact ⟨seen', rfl, trivial⟩

theorem uploading_isFile (seen : Bool) :
    Uploading Im path b (isFile path) (fun found seen' => found = 1 → seen' = true)
      (.idle seen) := by
  refine ⟨.stat seen path, fun r => ?_⟩
  cases r with
  | none => exact ⟨seen, rfl, by simp⟩
  | some kind =>
      cases kind with
      | directory => exact ⟨seen, rfl, by simp⟩
      | regular => exact ⟨_, rfl, by simp⟩

theorem uploading_newImg (seen : Bool) :
    Uploading Im path b (newImg b path) (fun result seen' => result ≠ -1 → seen' = true)
      (.idle seen) := by
  refine ⟨.openTrunc seen, fun fd => ?_⟩
  cases fd with
  | none => exact ⟨seen, rfl, by simp⟩
  | some fd =>
      refine ⟨.flock fd, fun taken => ?_⟩
      cases taken with
      | false => exact ⟨.close fd, fun _ => ⟨true, rfl, fun _ => rfl⟩⟩
      | true =>
          refine ⟨.write fd, fun wlen => ?_⟩
          cases wlen with
          | none => exact ⟨.close fd, fun _ => ⟨true, rfl, fun _ => rfl⟩⟩
          | some wlen =>
              show Prog.Follows _ _ _ (if wlen < b.length then _ else _)
                (if wlen < b.length then _ else _)
              by_cases short : wlen < b.length
              · rw [if_pos short, if_pos short]
                exact ⟨.close fd, fun _ => ⟨true, rfl, fun _ => rfl⟩⟩
              · rw [if_neg short, if_neg short]
                exact ⟨.unlock fd, fun _ => ⟨.close fd, fun _ => ⟨true, rfl, fun _ => rfl⟩⟩⟩

theorem uploading_ensureFile (seen : Bool) :
    Uploading Im path b (ensureFile b path) (fun result seen' => result ≠ -1 → seen' = true)
      (.idle seen) := by
  apply Prog.Follows.bind (uploading_isFile seen)
  rintro found _ ⟨seen', rfl, known⟩
  split
  · exact uploading_newImg seen'
  · rename_i here
    exact ⟨seen', rfl, fun _ => known (not_not.mp here)⟩

theorem uploading_cacheImg (thrArg : ThrArg) (key : Bytes) (seen : Bool) :
    Uploading Im path b (cacheImg settings thrArg key b) (fun _ seen' => seen' = seen)
      (.idle seen) := by
  unfold cacheImg
  split
  · unfold setCacheBin
    split
    · exact ⟨seen, rfl, rfl⟩
    · split
      · exact ⟨seen, rfl, rfl⟩
      · refine ⟨.memcached seen .cache _, fun set => ?_⟩
        cases set <;> exact ⟨seen, rfl, rfl⟩
  · exact ⟨seen, rfl, rfl⟩

end Following

section Saving
variable {Im : Type} {settings : Settings} {b : Bytes}

def uploadPath (settings : Settings) (b : Bytes) : Bytes :=
  origPath settings (md5sum b (Int32.ofNat b.length))

theorem uploading_saveImg (mode : settings.mode = 1) (thrArg : ThrArg) (seen : Bool) :
    Uploading Im (uploadPath settings b) b (saveImg settings thrArg b)
      (fun r seen' => r.1 = 1 → seen' = true) (.idle seen) := by
  unfold saveImg
  dsimp only
  rw [if_neg (not_not.mpr mode)]
  apply Prog.Follows.bind (Q := fun r t => ∃ seen', t = .idle seen' ∧ (r = 1 → seen' = true))
  · unfold saveImgModeDisk
    apply Prog.Follows.bind (uploading_ensureDir _ seen)
    rintro made _ ⟨seen', rfl, -⟩
    split
    · exact ⟨seen', rfl, by simp⟩
    · apply Prog.Follows.bind (uploading_ensureFile seen')
      rintro saved _ ⟨seen'', rfl, known⟩
      split
      · exact ⟨seen'', rfl, by simp⟩
      · rename_i kept
        apply Prog.Follows.bind (uploading_cacheImg thrArg _ seen'')
        rintro _ _ ⟨_, rfl, same⟩
        exact ⟨_, rfl, fun _ => same.trans (known kept)⟩
  · rintro result _ ⟨seen', rfl, known⟩
    exact ⟨seen', rfl, known⟩

end Saving

/-! ## The file between the uploads -/

namespace UploadStage

def fd : UploadStage → Option Nat
  | idle _ => none
  | opened fd | locked fd | written fd | closing fd => some fd

def holds : UploadStage → Option Nat
  | locked fd | written fd => some fd
  | _ => none

def owes : UploadStage → Bool
  | opened _ | locked _ => true
  | _ => false

def Backed (b : Bytes) (l : Loc) (d : Disk) : UploadStage → Prop
  | idle _ => True
  | opened fd | locked fd => d.files fd = some ⟨l, 0⟩
  | written fd => d.files fd = some ⟨l, b.length⟩
  | closing fd => ∃ offset, d.files fd = some ⟨l, offset⟩

theorem fd_of_holds {stage : UploadStage} {fd : Nat} (h : stage.holds = some fd) :
    stage.fd = some fd := by
  cases stage with
  | locked fd' | written fd' => exact h
  | idle _ | opened _ | closing _ => cases h

theorem Backed.mono {b : Bytes} {l : Loc} {d d' : Disk} {stage : UploadStage}
    (backed : stage.Backed b l d) (same : ∀ fd, stage.fd = some fd → d'.files fd = d.files fd) :
    stage.Backed b l d' := by
  cases stage with
  | idle _ => trivial
  | opened fd | locked fd | written fd => exact (same fd rfl).trans backed
  | closing fd => exact backed.imp fun offset h => (same fd rfl).trans h

theorem Backed.file {b : Bytes} {l : Loc} {d : Disk} {stage : UploadStage} {fd : Nat}
    (backed : stage.Backed b l d) (h : stage.fd = some fd) :
    ∃ offset, d.files fd = some ⟨l, offset⟩ := by
  cases stage with
  | idle _ => cases h
  | opened fd' | locked fd' =>
      cases h
      exact ⟨0, backed⟩
  | written fd' =>
      cases h
      exact ⟨b.length, backed⟩
  | closing fd' =>
      cases h
      exact backed

end UploadStage

section Sharing
variable {ι : Type} {path b : Bytes} {t₀ t' : Tree} {stages : ι → UploadStage} {d d' : Disk}
  {l : Loc}

structure Untouched (t₀ : Tree) (stages : ι → UploadStage) (d : Disk) : Prop where
  widens : t₀.Widens d.tree
  unlocked : ∀ l, d.locks l = none
  idle : ∀ i, stages i = .idle false

structure Numbered (stages : ι → UploadStage) (next : Nat) : Prop where
  apart : ∀ i j fd, (stages i).fd = some fd → (stages j).fd = some fd → i = j
  below : ∀ i fd, (stages i).fd = some fd → fd < next

/-- The file is there. It holds the image unless an upload is still to write it. -/
structure Shared (path b : Bytes) (l : Loc) (stages : ι → UploadStage) (d : Disk) : Prop where
  place : d.tree.resolve path = some l
  content : d.tree.node l = some (.file b) ∨
    d.tree.node l = some (.file []) ∧ ∃ i, (stages i).owes = true
  lock : ∀ fd, d.locks l = some fd ↔ ∃ i, (stages i).holds = some fd
  numbered : Numbered stages d.next
  backed : ∀ i, (stages i).Backed b l d

variable {i : ι} {stage old : UploadStage}

namespace Shared

theorem replaced {t : Tree} {c : Bytes} (file : t.node l = some (.file c)) (c' : Bytes) :
    ∃ n k, l = n :: k ∧ t.Sets l (some (.file c')) (t.put n k (.file c')) := by
  cases l with
  | nil =>
      rw [Tree.node_root] at file
      cases file
  | cons n k =>
      exact ⟨n, k, rfl, Tree.sets_put (Tree.node_parent file) (Tree.node_name file) (by simp [file])⟩

theorem file (shared : Shared path b l stages d) : ∃ c, d.tree.node l = some (.file c) := by
  rcases shared.content with h | ⟨h, -⟩
  · exact ⟨b, h⟩
  · exact ⟨[], h⟩

theorem place_sets (shared : Shared path b l stages d) {x : Node}
    (sets : d.tree.Sets l (some x) t') : t'.resolve path = some l := by
  obtain ⟨c, file⟩ := shared.file
  exact Tree.resolve_mono (sets.keeps_dirs (by simp [file])) sets.cwd shared.place

theorem grown (shared : Shared path b l stages d) (keeps : d.tree.Keeps t') :
    Shared path b l stages { d with tree := t' } where
  place := keeps.resolve shared.place
  content := shared.content.imp (keeps.node l _) (And.imp_left (keeps.node l _))
  lock := shared.lock
  numbered := shared.numbered
  backed := fun i => (shared.backed i).mono fun _ _ => rfl

theorem backed_at (shared : Shared path b l stages d) (was : stages i = stage) :
    stage.Backed b l d := was ▸ shared.backed i

theorem lock_other (shared : Shared path b l stages d) (was : stages i = stage) {fd : Nat}
    (mine : stage.fd = some fd) (free : stage.holds = none) : d.locks l ≠ some fd := by
  intro held
  obtain ⟨j, hj⟩ := (shared.lock fd).mp held
  rw [← shared.numbered.apart i j fd (was ▸ mine) (UploadStage.fd_of_holds hj), was, free] at hj
  cases hj

end Shared

theorem Untouched.found (untouched : Untouched t₀ stages d)
    (file : d.tree.lookup path = some (.file b)) : ∃ l, Shared path b l stages d := by
  obtain ⟨l, place, file⟩ := Option.bind_eq_some_iff.mp file
  refine ⟨l, place, .inl file, fun fd => ?_, ⟨fun i j fd h => ?_, fun i fd h => ?_⟩, fun i => ?_⟩
  · simp [untouched.unlocked, untouched.idle, UploadStage.holds]
  · rw [untouched.idle] at h
    cases h
  · rw [untouched.idle] at h
    cases h
  · rw [untouched.idle]
    trivial

variable [DecidableEq ι]

theorem update_same {γ : Type} (f : UploadStage → γ) (was : stages i = old)
    (same : f stage = f old) (j : ι) : f (Function.update stages i stage j) = f (stages j) := by
  by_cases here : j = i
  · rw [here, Function.update_self, same, was]
  · rw [Function.update_of_ne here]

namespace Numbered
variable {n : Nat}

theorem same (numbered : Numbered stages n) (was : stages i = old) (same : stage.fd = old.fd) :
    Numbered (Function.update stages i stage) n := by
  constructor
  · intro j k fd hj hk
    rw [update_same UploadStage.fd was same] at hj hk
    exact numbered.apart j k fd hj hk
  · intro j fd hj
    rw [update_same UploadStage.fd was same] at hj
    exact numbered.below j fd hj

theorem opened (numbered : Numbered stages n) :
    Numbered (Function.update stages i (.opened n)) (n + 1) := by
  have fresh {j : ι} (other : j ≠ i) {fd : Nat}
      (h : (Function.update stages i (.opened n) j).fd = some fd) : fd < n := by
    rw [Function.update_of_ne other] at h
    exact numbered.below j fd h
  have here {fd : Nat} (h : (Function.update stages i (.opened n) i).fd = some fd) : fd = n := by
    rw [Function.update_self] at h
    exact (Option.some.inj h).symm
  constructor
  · intro j k fd hj hk
    by_cases first : j = i
    · by_cases second : k = i
      · rw [first, second]
      · have old := fresh second hk
        have new := here (first ▸ hj)
        omega
    · by_cases second : k = i
      · have old := fresh first hj
        have new := here (second ▸ hk)
        omega
      · rw [Function.update_of_ne first] at hj
        rw [Function.update_of_ne second] at hk
        exact numbered.apart j k fd hj hk
  · intro j fd hj
    by_cases first : j = i
    · have new := here (first ▸ hj)
      omega
    · have old := fresh first hj
      omega

theorem closed (numbered : Numbered stages n) (none : stage.fd = none) :
    Numbered (Function.update stages i stage) n := by
  have other {j : ι} {fd : Nat} (h : (Function.update stages i stage j).fd = some fd) :
      (stages j).fd = some fd := by
    by_cases here : j = i
    · rw [here, Function.update_self, none] at h
      cases h
    · rwa [Function.update_of_ne here] at h
  exact ⟨fun j k fd hj hk => numbered.apart j k fd (other hj) (other hk),
    fun j fd hj => numbered.below j fd (other hj)⟩

end Numbered

namespace Shared

theorem backed_update (shared : Shared path b l stages d) (here : stage.Backed b l d')
    (others : ∀ j ≠ i, ∀ fd, (stages j).fd = some fd → d'.files fd = d.files fd) (j : ι) :
    (Function.update stages i stage j).Backed b l d' :=
  (Function.forall_update_iff stages fun _ s => s.Backed b l d').mpr
    ⟨here, fun j other => (shared.backed j).mono (others j other)⟩ j

theorem content_same (shared : Shared path b l stages d) (was : stages i = old)
    (same : stage.owes = old.owes) : d.tree.node l = some (.file b) ∨ d.tree.node l = some (.file []) ∧
      ∃ j, (Function.update stages i stage j).owes = true := by
  simp only [update_same UploadStage.owes was same]
  exact shared.content

theorem lock_same (shared : Shared path b l stages d) (was : stages i = old)
    (same : stage.holds = old.holds) (fd : Nat) :
    d.locks l = some fd ↔ ∃ j, (Function.update stages i stage j).holds = some fd := by
  simp only [update_same UploadStage.holds was same]
  exact shared.lock fd

theorem idled (shared : Shared path b l stages d) {seen seen' : Bool}
    (was : stages i = .idle seen) :
    Shared path b l (Function.update stages i (.idle seen')) d where
  place := shared.place
  content := shared.content_same was rfl
  lock := shared.lock_same was rfl
  numbered := shared.numbered.same was rfl
  backed := shared.backed_update trivial fun _ _ _ _ => rfl

theorem opened (shared : Shared path b l stages d) {seen : Bool} (was : stages i = .idle seen)
    {n : Bytes} {k : Loc} (target : d.tree.target path = some (n, k)) :
    Shared path b l (Function.update stages i (.opened d.next))
      (({ d with tree := d.tree.put n k (.file []) } : Disk).withFile (n :: k)) := by
  obtain rfl : n :: k = l :=
    Option.some.inj ((Tree.target_iff.mp target).1.symm.trans shared.place)
  have sets : d.tree.Sets (n :: k) (some (.file [])) (d.tree.put n k (.file [])) :=
    ⟨Tree.put_cwd _ _ _ _, Tree.node_put_target target _⟩
  constructor
  · exact shared.place_sets sets
  · exact .inr ⟨sets.here, i, by rw [Function.update_self]; rfl⟩
  · exact shared.lock_same was rfl
  · exact shared.numbered.opened
  · refine shared.backed_update (Function.update_self ..) fun j _ fd h => ?_
    exact Function.update_of_ne (shared.numbered.below j fd h).ne _ _

theorem flocked (shared : Shared path b l stages d) {fd : Nat} (was : stages i = .opened fd)
    (free : d.locks l = none) :
    Shared path b l (Function.update stages i (.locked fd))
      { d with locks := Function.update d.locks l (some fd) } where
  place := shared.place
  content := shared.content_same was rfl
  lock := by
    intro fd'
    rw [show ({ d with locks := Function.update d.locks l (some fd) } : Disk).locks l = some fd from
      Function.update_self ..]
    constructor
    · rintro ⟨⟩
      exact ⟨i, by rw [Function.update_self]; rfl⟩
    · rintro ⟨j, hj⟩
      by_cases here : j = i
      · rw [here, Function.update_self] at hj
        exact hj
      · rw [Function.update_of_ne here] at hj
        have held := (shared.lock fd').mpr ⟨j, hj⟩
        rw [free] at held
        cases held
  numbered := shared.numbered.same was rfl
  backed := shared.backed_update (shared.backed_at was) fun _ _ _ _ => rfl

theorem refused (shared : Shared path b l stages d) {fd h : Nat} (was : stages i = .opened fd)
    (held : d.locks l = some h)
    (spared : d.tree.node l = some (.file b) ∨ d.files h = some ⟨l, 0⟩) :
    Shared path b l (Function.update stages i (.closing fd)) d where
  place := shared.place
  content := by
    rcases spared with done | early
    · exact .inl done
    · obtain ⟨j, hj⟩ := (shared.lock h).mp held
      have apart : j ≠ i := by
        rintro rfl
        rw [was] at hj
        cases hj
      have backed := shared.backed j
      -- the holder has written nothing yet: it owes the image, or there is nothing to write
      cases stage : stages j with
      | locked fd' =>
          refine shared.content.imp_right fun empty => ⟨empty.1, j, ?_⟩
          rw [Function.update_of_ne apart, stage]
          rfl
      | written fd' =>
          rw [stage] at hj backed
          cases hj
          have offset := congrArg OpenFile.offset (Option.some.inj (early.symm.trans backed))
          have nothing : b = [] := List.length_eq_zero_iff.mp offset.symm
          rw [nothing]
          exact .inl (shared.content.elim (nothing ▸ id) And.left)
      | idle _ | opened _ | closing _ =>
          rw [stage] at hj
          cases hj
  lock := shared.lock_same was rfl
  numbered := shared.numbered.same was rfl
  backed := shared.backed_update ⟨0, shared.backed_at was⟩ fun _ _ _ _ => rfl

theorem written (shared : Shared path b l stages d) {fd : Nat} (was : stages i = .locked fd) :
    Shared path b l (Function.update stages i (.written fd))
      (d.effect (.write fd b) (some b.length)) := by
  obtain ⟨c, file⟩ := shared.file
  obtain ⟨n, k, rfl, sets⟩ := replaced file b
  have content : overwrite (d.tree.content (n :: k)) 0 (b.take b.length) = b := by
    rw [Tree.content_file file, List.take_length]
    rcases shared.content with same | ⟨empty, -⟩
    · cases file.symm.trans same
      simp [overwrite]
    · cases file.symm.trans empty
      exact overwrite_nil b
  have after : d.effect (.write fd b) (some b.length) =
      { d with
        tree := d.tree.put n k (.file b)
        files := Function.update d.files fd (some ⟨n :: k, b.length⟩) } := by
    have backed : d.files fd = some ⟨n :: k, 0⟩ := shared.backed_at was
    simp only [Disk.effect, backed, content, Nat.zero_add]
  rw [after]
  constructor
  · exact shared.place_sets sets
  · exact .inl sets.here
  · exact shared.lock_same was rfl
  · exact shared.numbered.same was rfl
  · refine shared.backed_update (Function.update_self ..) fun j other fd' h => ?_
    refine Function.update_of_ne ?_ _ _
    rintro rfl
    exact other (shared.numbered.apart j i fd' h (was ▸ rfl))

theorem unlocked (shared : Shared path b l stages d) {fd : Nat} (was : stages i = .written fd) :
    Shared path b l (Function.update stages i (.closing fd)) (d.effect (.unlock fd) ()) := by
  have backed : d.files fd = some ⟨l, b.length⟩ := shared.backed_at was
  have held : d.locks l = some fd := (shared.lock fd).mpr ⟨i, was ▸ rfl⟩
  have after : d.effect (.unlock fd) () =
      { d with locks := Function.update d.locks l none } := by
    simp only [Disk.effect, backed, held, if_true]
  rw [after]
  constructor
  · exact shared.place
  · exact shared.content_same was rfl
  · intro fd'
    rw [show ({ d with locks := Function.update d.locks l none } : Disk).locks l = none from
      Function.update_self ..]
    constructor
    · intro impossible
      cases impossible
    · rintro ⟨j, hj⟩
      by_cases here : j = i
      · rw [here, Function.update_self] at hj
        cases hj
      · rw [Function.update_of_ne here] at hj
        have same := (shared.lock fd').mpr ⟨j, hj⟩
        rw [held] at same
        cases same
        have mine : (stages i).fd = some fd := was ▸ rfl
        exact absurd (shared.numbered.apart j i fd (UploadStage.fd_of_holds hj) mine) here
  · exact shared.numbered.same was rfl
  · exact shared.backed_update ⟨_, backed⟩ fun _ _ _ _ => rfl

theorem closed (shared : Shared path b l stages d) {fd : Nat} (was : stages i = .closing fd) :
    Shared path b l (Function.update stages i (.idle true)) (d.effect (.close fd) ()) := by
  obtain ⟨offset, backed⟩ : ∃ offset, d.files fd = some ⟨l, offset⟩ := shared.backed_at was
  have released : d.locks l ≠ some fd := shared.lock_other was rfl rfl
  have after : d.effect (.close fd) () =
      { d with files := Function.update d.files fd none } := by
    simp only [Disk.effect, backed, if_neg released]
  rw [after]
  constructor
  · exact shared.place
  · exact shared.content_same was rfl
  · exact shared.lock_same was rfl
  · exact shared.numbered.closed rfl
  · refine shared.backed_update trivial fun j other fd' h => ?_
    refine Function.update_of_ne ?_ _ _
    rintro rfl
    exact other (shared.numbered.apart j i fd' h (was ▸ rfl))

end Shared

/-! ## The first upload to open the file -/

namespace Untouched

theorem idled (untouched : Untouched t₀ stages d) :
    Untouched t₀ (Function.update stages i (.idle false)) d where
  widens := untouched.widens
  unlocked := untouched.unlocked
  idle := (Function.forall_update_iff stages fun _ s => s = .idle false).mpr
    ⟨rfl, fun j _ => untouched.idle j⟩

theorem opened (untouched : Untouched t₀ stages d) {n : Bytes} {k : Loc}
    (target : d.tree.target path = some (n, k)) :
    Shared path b (n :: k) (Function.update stages i (.opened d.next))
      (({ d with tree := d.tree.put n k (.file []) } : Disk).withFile (n :: k)) := by
  have sets : d.tree.Sets (n :: k) (some (.file [])) (d.tree.put n k (.file [])) :=
    ⟨Tree.put_cwd _ _ _ _, Tree.node_put_target target _⟩
  obtain ⟨place, plain⟩ := Tree.target_iff.mp target
  have stage (j : ι) : (stages j).fd = none := by rw [untouched.idle]; rfl
  constructor
  · exact Tree.resolve_mono (sets.keeps_dirs plain) sets.cwd place
  · exact .inr ⟨sets.here, i, by rw [Function.update_self]; rfl⟩
  · intro fd
    have holds : (UploadStage.opened d.next).holds = (UploadStage.idle false).holds := rfl
    simp only [update_same UploadStage.holds (untouched.idle i) holds]
    show d.locks (n :: k) = some fd ↔ _
    simp [untouched.unlocked, untouched.idle, UploadStage.holds]
  · refine Numbered.opened ⟨fun i j fd h => ?_, fun i fd h => ?_⟩
    · rw [stage] at h
      cases h
    · rw [stage] at h
      cases h
  · refine (Function.forall_update_iff stages fun _ s => s.Backed b _ _).mpr
      ⟨Function.update_self .., fun j _ => ?_⟩
    rw [untouched.idle]
    trivial

end Untouched
end Sharing
/-! ## Steps of the uploads -/

section Steps
variable {Im ι : Type} {env : Env Im} {settings : Settings} {path b : Bytes} {t₀ : Tree}
  {stages : ι → UploadStage} {i : ι} {w : World} {l : Loc}

/-- A lock is refused only while the file holds the image, or before its holder has written. -/
def spared (b : Bytes) (w : World) : SysOp Im → Bool
  | .disk (.flock fd) => (w.disk.files fd).all fun f => (w.disk.locks f.loc).all fun holder =>
      holder = fd ∨ w.disk.tree.node f.loc = some (.file b) ∨
        (w.disk.files holder).all fun g => g.offset = 0
  | _ => true

/-- Whatever the uploads may find at the path before they open it is the image. -/
def Vacant (path b : Bytes) (t₀ : Tree) : Prop :=
  ∀ t c, t₀.Widens t → t.lookup path = some (.file c) → c = b

def Sharing (path b : Bytes) (t₀ : Tree) (stages : ι → UploadStage) (w : World) : Prop :=
  Untouched t₀ stages w.disk ∨ ∃ l, Shared path b l stages w.disk

theorem memcached_disk (server : Server) (op : MemcachedOp) (r : op.Res) :
    (env.effect w (.memcached server op) r).disk = w.disk := by
  cases server with
  | cache =>
      cases op with
      | get key => cases r <;> rfl
      | set key value | delete key => rfl
  | beansdb => cases op <;> rfl

theorem calm_answer (calm : env.faults = .none) {op : DiskOp} {r : op.Res}
    (legal : env.machine.Legal w (.disk op) r) (plain : ¬w.disk.deviates .none op r) :
    r = w.disk.calm op := by
  apply legal.resolve_right
  intro deviates
  change w.disk.deviates env.faults op r at deviates
  rw [calm] at deviates
  exact plain deviates

theorem next_memcached (seen : Bool) (server : Server) (op : MemcachedOp) (r : op.Res) :
    UploadStage.next path b (.idle seen) (.memcached server op : SysOp Im) r = .idle seen := by
  cases op <;> rfl

variable [DecidableEq ι]

theorem shared_flock (shared : Shared path b l stages w.disk) {fd : Nat}
    (was : stages i = .opened fd) (spares : spared b w (.disk (.flock fd) : SysOp Im) = true) :
    Shared path b l (Function.update stages i
        (UploadStage.next path b (.opened fd) (.disk (.flock fd) : SysOp Im)
          (w.disk.calm (.flock fd))))
      (w.disk.effect (.flock fd) (w.disk.calm (.flock fd))) := by
  have backed : w.disk.files fd = some ⟨l, 0⟩ := shared.backed_at was
  have mine : w.disk.locks l ≠ some fd := shared.lock_other was rfl rfl
  cases held : w.disk.locks l with
  | none =>
      have taken : w.disk.calm (.flock fd) = true := by simp [Disk.calm, backed, held]
      have after : w.disk.effect (.flock fd) true =
          { w.disk with locks := Function.update w.disk.locks l (some fd) } := by
        simp only [Disk.effect, backed]
      rw [taken, after]
      exact shared.flocked was held
  | some holder =>
      have other : holder ≠ fd := fun same => mine (same ▸ held)
      have refused : w.disk.calm (.flock fd) = false := by simp [Disk.calm, backed, held, other]
      rw [refused]
      refine shared.refused was held ?_
      simp only [spared, backed, held, Option.all_some, decide_eq_true_eq] at spares
      rcases spares with same | done | early
      · exact absurd same other
      · exact .inl done
      · refine .inr ?_
        obtain ⟨j, hj⟩ := (shared.lock holder).mp held
        obtain ⟨offset, file⟩ := (shared.backed j).file (UploadStage.fd_of_holds hj)
        simp only [file, Option.all_some, decide_eq_true_eq] at early
        rw [file, early]

theorem shared_step (calm : env.faults = .none) {op : SysOp Im} {r : op.Res}
    (allowed : UploadStage.Allows path b (stages i) op) (spares : spared b w op = true)
    (legal : env.machine.Legal w op r) (shared : Shared path b l stages w.disk) :
    Shared path b l (Function.update stages i (UploadStage.next path b (stages i) op r))
      (env.effect w op r).disk := by
  generalize was : stages i = stage at allowed
  cases allowed with
  | stat seen name =>
      cases r with
      | none => exact shared.idled was
      | some kind => cases kind <;> exact shared.idled was
  | access seen name => exact shared.idled was
  | mkdir seen name =>
      have moved : Shared path b l (Function.update stages i (.idle seen)) w.disk :=
        shared.idled was
      show Shared path b l _ (w.disk.effect (.mkdir name) r)
      rcases w.disk.mkdir_cases name r with same | ⟨n, k, free, after⟩
      · rw [same]
        exact moved
      · obtain ⟨dir, plain⟩ := Tree.target_place (Tree.vacant_target free)
        rw [after]
        exact moved.grown (.put dir plain (Tree.vacant_iff.mp free).2)
  | memcached seen server op =>
      rw [memcached_disk, next_memcached]
      exact shared.idled was
  | openTrunc seen =>
      have answer : r = w.disk.calm (.openTrunc path) :=
        calm_answer calm legal (by simp [Disk.deviates, Faults.none])
      rcases w.disk.openTrunc_cases path with failed | ⟨n, k, target, opens, after⟩
      · rw [answer, failed]
        exact shared.idled was
      · rw [answer, opens]
        show Shared path b l _ (w.disk.effect (.openTrunc path) (some w.disk.next))
        rw [after]
        exact shared.opened was target
  | flock fd =>
      have answer : r = w.disk.calm (.flock fd) :=
        calm_answer calm legal (by simp [Disk.deviates, Faults.none])
      rw [answer]
      exact shared_flock shared was spares
  | write fd =>
      have backed : w.disk.files fd = some ⟨l, 0⟩ := shared.backed_at was
      have answer : r = w.disk.calm (.write fd b) :=
        calm_answer calm legal (by simp [Disk.deviates, Faults.none])
      have whole : w.disk.calm (.write fd b) = some b.length := by simp [Disk.calm, backed]
      rw [answer, whole]
      simp only [UploadStage.next, lt_irrefl, if_false]
      exact shared.written was
  | unlock fd => exact shared.unlocked was
  | close fd => exact shared.closed was

theorem untouched_step (calm : env.faults = .none) (vacant : Vacant path b t₀) {op : SysOp Im}
    {r : op.Res} (allowed : UploadStage.Allows path b (stages i) op)
    (legal : env.machine.Legal w op r) (untouched : Untouched t₀ stages w.disk) :
    Sharing path b t₀ (Function.update stages i (UploadStage.next path b (stages i) op r))
      (env.effect w op r) := by
  have was := untouched.idle i
  rw [was] at allowed ⊢
  cases allowed with
  | stat _ name =>
      have answer : r = w.disk.calm (.stat name) := legal.resolve_right id
      cases r with
      | none => exact .inl untouched.idled
      | some kind =>
          cases kind with
          | directory => exact .inl untouched.idled
          | regular =>
              simp only [UploadStage.next, Bool.false_or]
              by_cases here : name = path
              · obtain ⟨x, file, kind⟩ := Option.map_eq_some_iff.mp answer.symm
                cases x with
                | dir => cases kind
                | file c =>
                    rw [here] at file
                    rw [vacant _ c untouched.widens file] at file
                    obtain ⟨l, shared⟩ := untouched.found file
                    exact .inr ⟨l, shared.idled was⟩
              · rw [decide_eq_false here]
                exact .inl untouched.idled
  | access _ name => exact .inl untouched.idled
  | mkdir _ name =>
      have moved := untouched.idled (i := i)
      refine .inl ?_
      show Untouched t₀ _ (w.disk.effect (.mkdir name) r)
      rcases w.disk.mkdir_cases name r with same | ⟨n, k, free, after⟩
      · rw [same]
        exact moved
      · rw [after]
        exact ⟨moved.widens.mkdir free, moved.unlocked, moved.idle⟩
  | memcached _ server op =>
      refine .inl ?_
      rw [memcached_disk, next_memcached]
      exact untouched.idled
  | openTrunc _ =>
      have answer : r = w.disk.calm (.openTrunc path) :=
        calm_answer calm legal (by simp [Disk.deviates, Faults.none])
      rcases w.disk.openTrunc_cases path with failed | ⟨n, k, target, opens, after⟩
      · rw [answer, failed]
        exact .inl untouched.idled
      · rw [answer, opens]
        refine .inr ⟨n :: k, ?_⟩
        show Shared path b _ _ (w.disk.effect (.openTrunc path) (some w.disk.next))
        rw [after]
        exact untouched.opened target

theorem sharing_step (calm : env.faults = .none) (vacant : Vacant path b t₀) {op : SysOp Im}
    {r : op.Res} (allowed : UploadStage.Allows path b (stages i) op) (spares : spared b w op = true)
    (legal : env.machine.Legal w op r) (sharing : Sharing path b t₀ stages w) :
    Sharing path b t₀ (Function.update stages i (UploadStage.next path b (stages i) op r))
      (env.effect w op r) := by
  rcases sharing with untouched | ⟨l, shared⟩
  · exact untouched_step calm vacant allowed legal untouched
  · exact .inr ⟨l, shared_step calm allowed spares legal shared⟩

def uploads (settings : Settings) (b : Bytes) (thrArgs : ι → ThrArg) (w : World) :
    Pool (Sys Im) ι (Int × Bytes) World :=
  ⟨fun i => saveImg settings (thrArgs i) b, w⟩

theorem concurrent_uploads (mode : settings.mode = 1) (calm : env.faults = .none)
    (thrArgs : ι → ThrArg) {t : Tree} {fd : Nat} (idle : w.disk = .idle t fd)
    (vacant : Vacant (uploadPath settings b) b t) {pool : Pool (Sys Im) ι (Int × Bytes) World}
    (run : Relation.ReflTransGen (env.machine.Advances (spared b)) (uploads settings b thrArgs w)
      pool)
    (finished : ∀ i, (pool.progs i).result.isSome) {name : Bytes}
    (accepted : (pool.progs i).result = some (1, name)) :
    pool.state.disk.tree.lookup (uploadPath settings b) = some (.file b) := by
  have start : Machine.Staged (UploadStage.Allows (uploadPath settings b) b)
      (UploadStage.next (uploadPath settings b) b)
      (fun r t => ∃ seen, t = .idle seen ∧ (r.1 = 1 → seen = true))
      (Sharing (uploadPath settings b) b t)
      (uploads settings b thrArgs w : Pool (Sys Im) ι (Int × Bytes) World) := by
    refine ⟨fun _ => .idle false, fun i => uploading_saveImg mode _ false, .inl ⟨?_, ?_, ?_⟩⟩
    · show t.Widens w.disk.tree
      rw [idle]
      exact .refl t
    · intro l
      show w.disk.locks l = none
      rw [idle]
      rfl
    · exact fun _ => rfl
  obtain ⟨stages, follows, sharing⟩ := Machine.staged_run
    (fun _ _ _ _ _ allowed spares legal => sharing_step calm vacant allowed spares legal) run start
  have last (j : ι) : ∃ seen, stages j = .idle seen := by
    obtain ⟨r, ended⟩ := Option.isSome_iff_exists.mp (finished j)
    obtain ⟨seen, stage, -⟩ := (follows j).of_result ended
    exact ⟨seen, stage⟩
  obtain ⟨seen, stage, known⟩ := (follows i).of_result accepted
  rcases sharing with untouched | ⟨l, shared⟩
  · -- the accepted upload has seen the file
    rw [untouched.idle i, known rfl] at stage
    cases stage
  · have file : pool.state.disk.tree.node l = some (.file b) := by
      rcases shared.content with here | ⟨-, j, owes⟩
      · exact here
      · obtain ⟨seen, stage⟩ := last j
        rw [stage] at owes
        cases owes
    rw [Tree.lookup, shared.place]
    exact file

end Steps

/-! ## Two uploads -/

def smallUploads (guard : World → SysOp Bytes → Bool) (turns : List Bool) :
    Pool (Sys Bytes) Bool (Int × Bytes) World :=
  (smallEnv some).machine.schedule guard (smallEnv some).calm
    (uploads (smallSettings 1 0) (ascii "a") (fun _ => smallThread) smallWorld) turns

theorem smallUploads_run (guard : World → SysOp Bytes → Bool) (turns : List Bool) :
    Relation.ReflTransGen ((smallEnv some).machine.Advances guard)
      (uploads (smallSettings 1 0) (ascii "a") (fun _ => smallThread) smallWorld)
      (smallUploads guard turns) :=
  Machine.schedule_run (fun _ _ => Or.inl rfl) _ _

theorem smallTree_vacant (path b : Bytes) : Vacant path b smallTree := by
  intro t c widens file
  obtain ⟨l, -, file⟩ := Option.bind_eq_some_iff.mp file
  exact absurd file (widens.file_absent smallTree_no_file l c)

/-- Both uploads miss the file. The second opens it while the first has the lock, after `n` more
calls of the first. -/
def crossing (n : Nat) : List Bool :=
  List.replicate 9 false ++ List.replicate 2 true ++ List.replicate (2 + n) false ++
    List.replicate 3 true ++ List.replicate (3 - n) false

theorem concurrent_uploads_small :
    (smallUploads (spared (ascii "a")) (crossing 0)).state.disk.tree.lookup
      (uploadPath (smallSettings 1 0) (ascii "a")) = some (.file (ascii "a")) :=
  have accepted : ((smallUploads (spared (ascii "a")) (crossing 0)).progs false).result =
      some (1, md5sum (ascii "a") 1) := by decide +kernel
  concurrent_uploads rfl rfl (fun _ => smallThread) rfl (smallTree_vacant _ _)
    (smallUploads_run _ _) (by decide +kernel) accepted

/-- The second upload empties the file that the first one has written, and is refused its lock. -/
theorem uploads_truncated : ¬∀ pool : Pool (Sys Bytes) Bool (Int × Bytes) World,
    Relation.ReflTransGen ((smallEnv some).machine.Advances fun _ _ => true)
      (uploads (smallSettings 1 0) (ascii "a") (fun _ => smallThread) smallWorld) pool →
    (∀ i, (pool.progs i).result.isSome) → ∀ i name, (pool.progs i).result = some (1, name) →
    pool.state.disk.tree.lookup (uploadPath (smallSettings 1 0) (ascii "a")) =
      some (.file (ascii "a")) := by
  intro stored
  have kept := stored _ (smallUploads_run (fun _ _ => true) (crossing 1)) (by decide +kernel) false
    (md5sum (ascii "a") 1) (by decide +kernel)
  revert kept
  decide +kernel

end Ximg
