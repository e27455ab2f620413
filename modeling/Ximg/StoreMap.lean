import Ximg.DbStore
import Ximg.DiskStore
import Ximg.Main

/-!
# The store as a map

What a store holds, in any mode, is a map from MD5 strings to images. The directory tree and the
backend are related to it, and uploads and deletes keep the relation.
-/

namespace Ximg
open Text Vfs Calls

variable {Im : Type} {env : Env Im} {settings : Settings} {base : Loc} {w : World}
  {t t' t'' : Tree} {h : Md5} {buff : Bytes}

def md5Of (buff : Bytes) : Md5 where
  bytes := md5sum buff (Int32.ofNat buff.length)
  isMd5 := by
    refine ⟨md5sum_length _ _, fun c member => ?_⟩
    exact (md5sum_lowerHex _ _ c member).imp id .inl

def StoreOp.md5 : StoreOp → Md5
  | .upload _ buff => md5Of buff
  | .get req _ => req.md5
  | .info _ md5 | .admin _ md5 _ => md5

/-! ## Histories -/

abbrev History (Im : Type) := List ((StoreOp × Env Im) × (Int × Bytes))

abbrev Handled (settings : Settings) (w : World) (history : History Im) (w' : World) : Prop :=
  Serves (fun q : StoreOp × Env Im => q.2.machine) (fun q => handle settings q.1) w history w'

/-! ## The map -/

abbrev ImageMap := Md5 → Option Bytes

variable {m : ImageMap}

namespace ImageMap

def empty : ImageMap := fun _ => none

/-- An image that is already there is kept. -/
def insertNew (m : ImageMap) (h : Md5) (buff : Bytes) : ImageMap :=
  if (m h).isSome then m else Function.update m h (some buff)

def remove (m : ImageMap) (h : Md5) : ImageMap := Function.update m h none

theorem insertNew_absent (absent : m h = none) :
    insertNew m h buff = Function.update m h (some buff) := by simp [insertNew, absent]

theorem insertNew_present (present : m h ≠ none) : insertNew m h buff = m :=
  if_pos (Option.isSome_iff_ne_none.mpr present)

end ImageMap

/-! ## The tree holds a map -/

/-- An image has a directory exactly when it is in the map, and the directory has the original. -/
structure Holds (settings : Settings) (base : Loc) (t : Tree) (m : ImageMap) : Prop where
  shape : Shape settings base t
  absent : ∀ h, m h = none → t.node (imageDir base h) = none
  present : ∀ h buff, m h = some buff → t.node (origLoc base h) = some (.file buff)

namespace Holds

theorem of_empty (resolved : t.resolve (settings.imgPath.bytes ++ [slash]) = some base)
    (leaf : ∀ n, t.node (n :: base) = none) : Holds settings base t ImageMap.empty :=
  ⟨.of_empty resolved leaf, fun h _ => Tree.node_under_leaf leaf h.bytes [lvl2 h, lvl1 h], by
    simp [ImageMap.empty]⟩

theorem dir_iff (holds : Holds settings base t m) :
    t.node (imageDir base h) = some .dir ↔ m h ≠ none := by
  constructor
  · intro hd missing
    rw [holds.absent h missing] at hd
    cases hd
  · intro present
    obtain ⟨buff, hm⟩ := Option.ne_none_iff_exists'.mp present
    exact Tree.node_parent (holds.present h buff hm)

theorem orig (holds : Holds settings base t m) {x : Node}
    (hx : t.node (origLoc base h) = some x) : ∃ buff, m h = some buff ∧ x = .file buff := by
  obtain ⟨buff, hm⟩ := Option.ne_none_iff_exists'.mp (holds.dir_iff.mp (Tree.node_parent hx))
  rw [holds.present h buff hm] at hx
  cases hx
  exact ⟨buff, hm, rfl⟩

theorem absent_iff (holds : Holds settings base t m) :
    t.node (origLoc base h) = none ↔ m h = none := by
  constructor
  · intro missing
    by_contra present
    obtain ⟨buff, hm⟩ := Option.ne_none_iff_exists'.mp present
    rw [holds.present h buff hm] at missing
    cases missing
  · intro missing
    rw [← Option.not_isSome_iff_eq_none, Option.isSome_iff_exists]
    rintro ⟨x, hx⟩
    obtain ⟨buff, hm, -⟩ := holds.orig hx
    rw [missing] at hm
    cases hm

theorem grown (holds : Holds settings base t m) (grown : Grown settings base h t t')
    (kept : m h ≠ none ∨ ¬Fits settings h) : Holds settings base t' m := by
  refine ⟨grown.shape holds.shape, fun k hk => ?_, fun k b hk => ?_⟩
  · rcases grown.node (imageDir base k) with same | ⟨-, -, n, ns, same, tail, short⟩
    · rw [same, holds.absent k hk]
    · have levels_k := List.append_cancel_right same
      rw [← levels_k] at tail short
      have := levels_inj (tail.eq_of_length rfl)
      subst this
      rcases kept with present | long
      · exact absurd hk present
      · exact absurd short long
  · rw [origLoc, grown.inside]
    exact holds.present k b hk

theorem inserted (holds : Holds settings base t m) (short : settings.imgPath.bytes.length ≤ 254)
    (grown : Grown settings base h t t') (hd : t'.node (imageDir base h) = some .dir)
    (sets : t'.Sets (origLoc base h) (some (.file buff)) t'') :
    Holds settings base t'' (Function.update m h (some buff)) := by
  refine ⟨(grown.shape holds.shape).sets sets (orig_length short h), fun k hk => ?_,
    fun k b hk => ?_⟩
  · by_cases same : k = h
    · subst same
      simp at hk
    · rw [Function.update_of_ne same] at hk
      rw [sets.other, grown.other same, holds.absent k hk]
      intro below
      have := congrArg List.length below
      simp [imageDir, origLoc, levels] at this
  · by_cases same : k = h
    · subst same
      rw [Function.update_self] at hk
      cases hk
      exact sets.here
    · rw [Function.update_of_ne same] at hk
      rw [sets.other, origLoc, grown.inside]
      · exact holds.present k b hk
      · intro below
        exact same (imageDir_inj (List.cons.inj below).2)

theorem removed (holds : Holds settings base t m) (prunes : t.Prunes (imageDir base h) t') :
    Holds settings base t' (ImageMap.remove m h) := by
  refine ⟨holds.shape.prunes prunes, fun k hk => ?_, fun k b hk => ?_⟩
  · rw [prunes.node]
    split
    · rfl
    · rename_i other
      refine holds.absent k ?_
      rwa [ImageMap.remove, Function.update_of_ne fun same => other (below_imageDir.mpr same)] at hk
  · have other : k ≠ h := by
      rintro rfl
      simp [ImageMap.remove] at hk
    rw [ImageMap.remove, Function.update_of_ne other] at hk
    rw [prunes.node, if_neg fun below => other (below_file.mp below)]
    exact holds.present k b hk

end Holds

/-! ## Any mode holds a map -/

/-- The thread can reach what the mode stores images in. -/
def Connected (settings : Settings) (thrArg : ThrArg) : Prop :=
  settings.mode = 1 ∨ Backend settings thrArg

structure Stores (settings : Settings) (base : Loc) (w : World) (m : ImageMap) : Prop where
  disk : settings.mode = 1 → ∃ t n, w.disk = .idle t n ∧ Holds settings base t m
  db : settings.mode ≠ 1 → ∀ h, w.db h.bytes = m h
  nonempty : ∀ h buff, m h = some buff → buff ≠ []

def World.requested (w : World) : World := { w with out := [], headersOut := [] }

theorem World.requested_at (n : Nat) : (w.at t n).requested = w.requested.at t n := rfl

theorem wp_replying {call : Prog (Sys Im) Int} {Q : Int × Bytes → World → Prop} :
    env.machine.wp (replying call) Q w ↔
      env.machine.wp call (fun r w' => Q (r, w'.out) w') w.requested := by
  simp [replying, Machine.wp_bind, World.requested]

structure Fresh (settings : Settings) (base : Loc) (w : World) : Prop where
  disk : settings.mode = 1 → ∃ t n, w.disk = .idle t n ∧
    t.resolve (settings.imgPath.bytes ++ [slash]) = some base ∧ ∀ n, t.node (n :: base) = none
  db : settings.mode ≠ 1 → ∀ key, w.db key = none

theorem Fresh.stores (fresh : Fresh settings base w) : Stores settings base w .empty := by
  refine ⟨fun mode => ?_, fun mode h => fresh.db mode h.bytes, by simp [ImageMap.empty]⟩
  obtain ⟨t, n, idle, resolved, leaf⟩ := fresh.disk mode
  exact ⟨t, n, idle, .of_empty resolved leaf⟩

def Storable (settings : Settings) (h : Md5) : Prop := settings.mode = 1 → Fits settings h

section Steps
variable (short : settings.mode = 1 → settings.imgPath.bytes.length ≤ 254)
  (calm : env.faults = .none) (reliable : env.deletes = .reliable)

structure Uploaded (base : Loc) (h : Md5) (w w' : World) : Prop where
  file : ∀ k q, q ≠ ascii "0*0" →
    w'.disk.tree.node (q :: imageDir base k) = w.disk.tree.node (q :: imageDir base k)
  db : ∀ key, key ≠ h.bytes → w'.db key = w.db key

theorem nonempty_insert (nonempty : ∀ h buff, m h = some buff → buff ≠ []) (some_ : buff ≠ [])
    (k : Md5) (b : Bytes) (hk : Function.update m h (some buff) k = some b) : b ≠ [] := by
  by_cases same : k = h
  · subst same
    rw [Function.update_self] at hk
    cases hk
    exact some_
  · rw [Function.update_of_ne same] at hk
    exact nonempty k b hk

theorem Stores.insert_db (stores : Stores settings base w m) (mode : settings.mode ≠ 1)
    (some_ : buff ≠ []) : Stores settings base { w with db := Env.stored w.db h.bytes buff }
      (Function.update m h (some buff)) := by
  refine ⟨fun mode' => absurd mode' mode, fun _ k => ?_, nonempty_insert stores.nonempty some_⟩
  by_cases same : k = h
  · subst same
    simp [Env.stored]
  · have other : k.bytes ≠ h.bytes := fun e => same (Md5.ext_bytes e)
    simp [Env.stored, other, same, stores.db mode]

theorem Stores.of_tree {n : Nat} (mode : settings.mode = 1) (idle : w.disk = .idle t n)
    (holds : Holds settings base t m) (nonempty : ∀ h buff, m h = some buff → buff ≠ []) :
    Stores settings base w m :=
  ⟨fun _ => ⟨t, n, idle, holds⟩, fun other => absurd mode other, nonempty⟩

theorem Stores.same {w' : World} (stores : Stores settings base w m)
    (disk : ∀ t n, w.disk = .idle t n → ∃ n', w'.disk = .idle t n') (db : w'.db = w.db) :
    Stores settings base w' m := by
  refine ⟨fun mode => ?_, fun mode k => ?_, stores.nonempty⟩
  · obtain ⟨t, n, idle, holds⟩ := stores.disk mode
    obtain ⟨n', idle'⟩ := disk t n idle
    exact ⟨t, n', idle', holds⟩
  · rw [db]
    exact stores.db mode k

theorem World.eq_at {n : Nat} (idle : w.disk = .idle t n) : w = w.at t n := by
  rw [World.at, ← idle]
  rfl

theorem wp_saveImg_db {thrArg : ThrArg} (reliable : env.deletes = .reliable)
    (mode : settings.mode ≠ 1) (backend : Backend settings thrArg) (some_ : buff ≠ []) (stores : Stores settings base w m) :
    env.machine.wp (saveImgModeDb settings thrArg h.bytes buff) (fun r w' =>
      r = 1 ∧ Uploaded base h w w' ∧ w'.cache = w.cache ∧
        Stores settings base w' (m.insertNew h buff)) w := by
  rw [wp_saveImgModeDb backend, stores.db mode]
  refine ⟨?_, fun _ ignores => absurd ignores (Deletes.not_ignores reliable)⟩
  cases hm : m h with
  | some b =>
      rw [ImageMap.insertNew_present (by simp [hm])]
      exact ⟨rfl, ⟨fun _ _ _ => rfl, fun _ _ => rfl⟩, rfl, stores⟩
  | none =>
      rw [ImageMap.insertNew_absent hm]
      exact ⟨rfl, ⟨fun _ _ _ => rfl, fun key other => Function.update_of_ne other _ _⟩, rfl,
        stores.insert_db mode some_⟩

include short calm in
theorem wp_saveImg_disk {thrArg : ThrArg} (mode : settings.mode = 1) (some_ : buff ≠ [])
    (stores : Stores settings base w m) :
    env.machine.wp (saveImgModeDisk settings thrArg h.bytes buff) (fun r w' =>
      Uploaded base h w w' ∧ Cached settings thrArg h.bytes buff w.cache w'.cache ∧
      (Fits settings h → r = 1 ∧ Stores settings base w' (m.insertNew h buff)) ∧
      (¬Fits settings h → Stores settings base w' m)) w := by
  obtain ⟨t, n, idle, holds⟩ := stores.disk mode
  rw [World.eq_at idle]
  refine wp_saveImgModeDisk (short mode) holds.shape ?_ ?_ ?_ ?_
  · intro t' x cache grown hx cached
    obtain ⟨b, hm, -⟩ := holds.orig hx
    have present : m h ≠ none := by simp [hm]
    have stores' : Stores settings base ((w.caching cache).at t' n) m :=
      .of_tree mode rfl (holds.grown grown (.inl present)) stores.nonempty
    refine ⟨⟨fun k q _ => grown.inside q k, fun _ _ => rfl⟩, cached, fun _ => ⟨rfl, ?_⟩,
      fun _ => stores'⟩
    rwa [ImageMap.insertNew_present present]
  · intro t' grown missing fault
    have full : ¬Fits settings h := fun fits => by simp [calm, Faults.none] at fault; exact fault fits
    exact ⟨⟨fun k q _ => grown.inside q k, fun _ _ => rfl⟩, .inl rfl, fun fits => absurd fits full,
      fun _ => .of_tree mode rfl (holds.grown grown (.inr full)) stores.nonempty⟩
  · intro t' t'' b grown missing hd fault
    simp [calm, Faults.none] at fault
  · intro t' t'' cache grown missing hd sets cached
    have absent := holds.absent_iff.mp missing
    have fits := (grown.shape holds.shape).fits hd
    refine ⟨⟨fun k q other => ?_, fun _ _ => rfl⟩, cached, fun _ => ⟨rfl, ?_⟩,
      fun full => absurd fits full⟩
    · change t''.node (q :: imageDir base k) = t.node (q :: imageDir base k)
      rw [sets.other fun same => other (List.cons.inj same).1, grown.inside]
    · rw [ImageMap.insertNew_absent absent]
      exact .of_tree mode rfl (holds.inserted (short mode) grown hd sets)
        (nonempty_insert stores.nonempty some_)

include short calm in
theorem wp_saveImg {thrArg : ThrArg} (reliable : env.deletes = .reliable)
    (connected : Connected settings thrArg) (some_ : buff ≠ []) (stores : Stores settings base w m) :
    env.machine.wp (saveImg settings thrArg buff) (fun r w' =>
      r.2 = (md5Of buff).bytes ∧ Uploaded base (md5Of buff) w w' ∧
      Cached settings thrArg (md5Of buff).bytes buff w.cache w'.cache ∧
      (Storable settings (md5Of buff) →
        r.1 = 1 ∧ Stores settings base w' (m.insertNew (md5Of buff) buff)) ∧
      (¬Storable settings (md5Of buff) → Stores settings base w' m)) w := by
  unfold saveImg
  dsimp only
  split
  · rename_i mode
    have room : Storable settings (md5Of buff) := fun mode' => absurd mode' mode
    rw [Machine.wp_bind]
    refine Machine.wp_mono (wp_saveImg_db (h := md5Of buff) reliable mode (connected.resolve_left mode)
      some_ stores) ?_
    rintro r w' ⟨rfl, uploaded, same, stores'⟩
    exact ⟨rfl, uploaded, .inl same, fun _ => ⟨rfl, stores'⟩, fun full => absurd room full⟩
  · rename_i mode
    rw [ne_eq, not_not] at mode
    rw [Machine.wp_bind]
    refine Machine.wp_mono (wp_saveImg_disk (h := md5Of buff) short calm mode some_ stores) ?_
    rintro r w' ⟨uploaded, cached, stored, full⟩
    exact ⟨rfl, uploaded, cached, fun room => stored (room mode),
      fun full' => full fun fits => full' fun _ => fits⟩

structure Shrunk (w w' : World) : Prop where
  node : ∀ l x, w'.disk.tree.node l = some x → w.disk.tree.node l = some x
  db : ∀ key value, w'.db key = some value → w.db key = some value

theorem Shrunk.refl (w : World) : Shrunk w w := ⟨fun _ _ => id, fun _ _ => id⟩

theorem nonempty_remove (nonempty : ∀ h buff, m h = some buff → buff ≠ []) (k : Md5) (b : Bytes)
    (hk : m.remove h k = some b) : b ≠ [] := by
  unfold ImageMap.remove at hk
  by_cases same : k = h
  · subst same
    simp at hk
  · rw [Function.update_of_ne same] at hk
    exact nonempty k b hk

def World.reported (h : Md5) (cmd : Int32) (w : World) : World :=
  { w with
    out := w.out ++ adminPage h.bytes cmd
    headersOut := w.headersOut ++ [(ascii "Content-Type", ascii "text/html")] }

theorem wp_addAdminPage {cmd : Int32} {Q : Unit → World → Prop} :
    env.machine.wp (addAdminPage h.bytes cmd) Q w ↔ Q () (w.reported h cmd) := by
  simp [addAdminPage, World.reported, sys]

include short reliable in
theorem wp_callAdminImg {thrArg : ThrArg} {cmd : Int32} {Q : Int → World → Prop}
    (connected : Connected settings thrArg) (stores : Stores settings base w m)
    (missing : m h = none → Q 2 w)
    (refused : m h ≠ none → cmd ≠ 1 → Q (if settings.mode = 1 then -1 else 1) w)
    (deleted : ∀ w', m h ≠ none → cmd = 1 → w'.cache = w.cache → w'.out = w.out →
      Shrunk w w' → Stores settings base w' (m.remove h) → Q 1 (w'.reported h cmd)) :
    env.machine.wp (callAdminImg settings thrArg h.bytes cmd) Q w := by
  unfold callAdminImg
  split
  · rename_i mode
    rw [if_pos mode] at refused
    obtain ⟨t, n, idle, holds⟩ := stores.disk mode
    rw [World.eq_at idle] at missing refused ⊢
    refine wp_adminImg (short mode) holds.shape (fun hd => ?_) (fun hd => ?_) fun t' hd hc prunes => ?_
    · refine missing ?_
      by_contra present
      exact hd (holds.dir_iff.mpr present)
    · exact refused (holds.dir_iff.mp hd)
    · rw [wp_addAdminPage]
      refine deleted (w.at t' n) (holds.dir_iff.mp hd) hc rfl rfl ⟨fun l x hx => ?_, fun _ _ => id⟩
        (.of_tree mode rfl (holds.removed prunes) (nonempty_remove stores.nonempty))
      rw [idle]
      change t'.node l = some x at hx
      rw [prunes.node] at hx
      split at hx
      · cases hx
      · exact hx
  · rename_i mode
    rw [if_neg mode] at refused
    have held := stores.db mode h
    refine wp_adminImgModeDb (connected.resolve_left mode)
      (fun _ ignores => absurd ignores (Deletes.not_ignores reliable)) (fun hd => ?_) (fun hd => ?_)
      (fun _ _ unreliable => absurd reliable unreliable)
      (fun _ _ _ loses => by simp [reliable, Deletes.loses] at loses) fun hd hc => ?_
    · exact missing (held ▸ hd)
    · exact refused (held ▸ hd)
    · rw [wp_addAdminPage]
      have erased : env.deleted w.db h.bytes = Env.erased w.db h.bytes := by
        simp [Env.deleted, reliable, Deletes.spares]
      rw [erased]
      refine deleted { w with db := Env.erased w.db h.bytes } (held ▸ hd) hc rfl rfl
        ⟨fun _ _ => id, fun key value hv => ?_⟩ ⟨fun mode' => absurd mode' mode, fun _ k => ?_,
          nonempty_remove stores.nonempty⟩
      · unfold Env.erased at hv
        by_cases same : key = h.bytes
        · simp [same] at hv
        · simpa [same] using hv
      · by_cases same : k = h
        · subst same
          simp [Env.erased, ImageMap.remove]
        · have other : k.bytes ≠ h.bytes := fun e => same (Md5.ext_bytes e)
          simp [Env.erased, ImageMap.remove, other, same, stores.db mode]

end Steps

/-! ## A small server -/

def smallTree : Tree := Tree.root.put (ascii "img") [] .dir

theorem smallTree_node (l : Loc) :
    smallTree.node l = if l = [ascii "img"] then some .dir else Tree.root.node l :=
  Tree.node_put rfl (by decide) (by decide) l

theorem smallTree_no_file (l : Loc) (b : Bytes) : smallTree.node l ≠ some (.file b) := by
  rw [smallTree_node, Tree.node_root_tree]
  split_ifs <;> simp

def smallWorld : World := ⟨.idle smallTree 3, fun _ => none, fun _ => none, [], [], false⟩

def smallThread : ThrArg := ⟨true, true, true, true⟩

def smallLib (encode : Bytes → Option Bytes) : (op : MagickOp Bytes) → op.Res
  | .newWand | .newPixelWand | .pixelSetColor _ => true
  | .readImageBlob blob => some blob
  | .getImageLength im => im.length
  | .getImageBlob im => encode im
  | .getImageWidth _ | .getImageHeight _ => 1
  | .getImageOrientation _ => 1
  | .getImageCompressionQuality _ => 90
  | .getImageFormat _ => ascii "JPEG"
  | .resetIterator im | .setImageOrientation im => im
  | .autoOrientImage im | .resizeImage im _ _ | .cropImage im _ _ _ _ | .rotateImage im _ _ |
    .setImageTypeGrayscale im | .setImageCompressionQuality im _ | .setImageFormat im _ |
    .stripImage im => (true, im)

def smallEnv (encode : Bytes → Option Bytes) : Env Bytes where
  lib := smallLib encode
  script _ im := (1, im)
  faults := .none
  evicts := false
  deletes := .reliable

def smallReq (md5 : Md5) (width : Int32) : ZimgReq where
  md5 := md5
  type := none
  width := width
  height := 0
  proportion := 0
  gray := 0
  x := 0
  y := 0
  rotate := 0
  quality := 0
  fmt := ⟨ascii "none", none_noNul⟩
  sv := 0
  thrArg := smallThread

def smallRequest : EvhtpRequest := ⟨1, ⟨ascii "/", by decide⟩, none, [], []⟩

def smallUpload : StoreOp := .upload smallThread (ascii "a")

def smallGet (width : Int32) : StoreOp := .get (smallReq (md5Of (ascii "a")) width) smallRequest

theorem smallWorld_fresh (mode cacheOn : Int32) :
    Fresh (smallSettings mode cacheOn) [ascii "img"] smallWorld := by
  have resolved : smallTree.resolve (ascii "/img" ++ [slash]) = some [ascii "img"] := by
    decide +kernel
  refine ⟨fun _ => ⟨smallTree, 3, rfl, resolved, fun n => ?_⟩, fun _ _ => rfl⟩
  rw [smallTree_node, if_neg (by simp), Tree.node_root_tree, if_neg (List.cons_ne_nil _ _)]

end Ximg
