import Ximg.FileSpecs

/-!
# Where an image is kept

An image has a directory two levels below `img_path`, named after its MD5. Paths are texts cut to
the buffers they are printed into; a location is what they resolve to.
-/

namespace Ximg
open Text Vfs Calls

variable (settings : Settings)

def lvl1 (h : Md5) : Bytes := decimalNat (strHash h.bytes)

def lvl2 (h : Md5) : Bytes := decimalNat (strHash (h.bytes.drop 3))

def levels (h : Md5) : Loc := [h.bytes, lvl2 h, lvl1 h]

def imageDir (base : Loc) (h : Md5) : Loc := levels h ++ base

/-! ## Names -/

theorem strtol16_lt (value : Nat) (s : Bytes) : strtol16 value s < (value + 1) * 16 ^ s.length := by
  induction s generalizing value with
  | nil => simp [strtol16]
  | cons c s ih =>
      have digit {d : Nat} (hd : hexValue c = some d) : d < 16 := by
        unfold hexValue at hd
        simp only [UInt8.le_iff_toNat_le, UInt8.reduceToNat] at hd
        split_ifs at hd <;> simp only [Option.some.injEq] at hd <;> omega
      rw [strtol16, List.length_cons, pow_succ]
      split
      · rename_i d hd
        have small := digit hd
        calc strtol16 (value * 16 + d) s < (value * 16 + d + 1) * 16 ^ s.length := ih _
          _ ≤ (value + 1) * 16 * 16 ^ s.length := Nat.mul_le_mul_right _ (by omega)
          _ = (value + 1) * (16 ^ s.length * 16) := by ring
      · calc value < (value + 1) * 1 := by omega
          _ ≤ (value + 1) * (16 ^ s.length * 16) := Nat.mul_le_mul_left _ (Nat.one_le_iff_ne_zero.mpr
            (by positivity))

theorem strHash_lt (s : Bytes) : strHash s < 10 ^ 4 := by
  have bound := strtol16_lt 0 (strLcpy s 4)
  have short : (strLcpy s 4).length ≤ 3 := by
    rw [strLcpy, List.length_take]
    omega
  have : 16 ^ (strLcpy s 4).length ≤ 16 ^ 3 := Nat.pow_le_pow_right (by norm_num) short
  unfold strHash
  omega

theorem isName_of_head {c : UInt8} {s : Bytes} (hc : c ≠ dot) (plain : slash ∉ c :: s) :
    IsName (c :: s) := by
  refine ⟨List.cons_ne_nil _ _, ?_, ?_, plain⟩ <;> intro same <;> exact hc (List.cons.inj same).1

theorem isName_decimalNat (n : Nat) : IsName (decimalNat n) := by
  have digits := decimalNat_digits n
  cases hs : decimalNat n with
  | nil => exact absurd hs (decimalNat_ne_nil n)
  | cons c s =>
      rw [hs] at digits
      refine isName_of_head ?_ ?_
      · have := digits c List.mem_cons_self
        rintro rfl
        exact absurd this (by decide)
      · exact fun member => absurd (digits slash member) (by decide)

theorem Md5.length (h : Md5) : h.bytes.length = 32 := h.isMd5.1

theorem Md5.isName (h : Md5) : IsName h.bytes := by
  have long := h.length
  have digits := h.isMd5.2
  cases hs : h.bytes with
  | nil => simp [hs] at long
  | cons c s =>
      rw [hs] at digits
      refine isName_of_head ?_ ?_
      · have := digits c List.mem_cons_self
        rintro rfl
        exact absurd this (by decide)
      · exact fun member => absurd (digits slash member) (by decide)

theorem levels_names (h : Md5) : ∀ n ∈ levels h, IsName n := by
  intro n member
  simp only [levels, List.mem_cons, List.not_mem_nil, or_false] at member
  rcases member with rfl | rfl | rfl
  · exact h.isName
  · exact isName_decimalNat _
  · exact isName_decimalNat _

theorem levels_inj {h k : Md5} (same : levels h = levels k) : h = k :=
  Md5.ext_bytes (List.cons.inj same).1

theorem imageDir_inj {base : Loc} {h k : Md5} (same : imageDir base h = imageDir base k) : h = k :=
  levels_inj (List.append_cancel_right same)

/-! ## The text of the paths -/

def pathLen (ns : Loc) : Nat := settings.imgPath.bytes.length + (ns.map fun n => n.length + 1).sum

@[simp] theorem pathLen_nil : pathLen settings [] = settings.imgPath.bytes.length := rfl

@[simp] theorem pathLen_cons (n : Bytes) (ns : Loc) :
    pathLen settings (n :: ns) = pathLen settings ns + (n.length + 1) := by
  simp only [pathLen, List.map_cons, List.sum_cons]
  omega

def pathTo : Loc → Bytes
  | [] => settings.imgPath.bytes
  | n :: ns => pathTo ns ++ slash :: n

theorem length_pathTo (ns : Loc) : (pathTo settings ns).length = pathLen settings ns := by
  induction ns with
  | nil => rfl
  | cons n ns ih => simp [pathTo, ih]

theorem pathTo_ne_nil (n : Bytes) (ns : Loc) : pathTo settings (n :: ns) ≠ [] := by simp [pathTo]

theorem lvl_length (h : Md5) : (lvl1 h).length ≤ 4 ∧ (lvl2 h).length ≤ 4 :=
  ⟨decimalNat_length_le _ _ (by norm_num) (strHash_lt _),
    decimalNat_length_le _ _ (by norm_num) (strHash_lt _)⟩

def Fits (h : Md5) : Prop := pathLen settings (levels h) ≤ 254

instance (h : Md5) : Decidable (Fits settings h) := inferInstanceAs (Decidable (_ ≤ _))

theorem pathLen_levels_le (h : Md5) :
    pathLen settings (levels h) ≤ settings.imgPath.bytes.length + 43 := by
  have := lvl_length h
  simp only [levels, pathLen_cons, pathLen_nil, h.length]
  omega

theorem fits_of_short (short : settings.imgPath.bytes.length ≤ 200) (h : Md5) : Fits settings h := by
  have := pathLen_levels_le settings h
  unfold Fits
  omega

theorem wholePath_eq (h : Md5) :
    wholePath settings h.bytes = cut 512 (pathTo settings (levels h)) := by
  have slashes : ascii "/" = [slash] := rfl
  simp [wholePath, snprintf, pathTo, levels, lvl1, lvl2, slashes]

variable {settings}

theorem wholePath_short (short : settings.imgPath.bytes.length ≤ 254) (h : Md5) :
    wholePath settings h.bytes = pathTo settings (levels h) := by
  have := pathLen_levels_le settings h
  rw [wholePath_eq, cut_eq_self]
  rw [length_pathTo]
  omega

def rspFile (settings : Settings) (req : ZimgReq) : Bytes :=
  match scriptType settings req with
  | some type => ascii "t_" ++ type.bytes
  | none => if req.original then ascii "0*0" else rspName req

def keptName (settings : Settings) (req : ZimgReq) : Bytes :=
  (rspFile settings req).take (510 - pathLen settings (levels req.md5))

theorem origPath_short (short : settings.imgPath.bytes.length ≤ 254) (h : Md5) :
    origPath settings h.bytes = pathTo settings (levels h) ++ slash :: ascii "0*0" := by
  have := pathLen_levels_le settings h
  rw [origPath, wholePath_short short, snprintf, cut_eq_self]
  · rfl
  · have : (ascii "/0*0").length = 4 := rfl
    rw [List.length_append, length_pathTo]
    omega

theorem rspPath_eq (req : ZimgReq) : rspPath settings req =
    cut 512 (wholePath settings req.md5.bytes ++ slash :: rspFile settings req) := by
  have slashes (s : Bytes) (name : Bytes) : s ++ ascii "/" ++ name = s ++ slash :: name := by
    simp [ascii, slash]
  unfold rspPath rspFile
  cases scriptType settings req with
  | some type =>
      dsimp only
      rw [snprintf, ← slashes, List.append_assoc, List.append_assoc]
      rfl
  | none =>
      dsimp only
      split
      · rfl
      · rw [snprintf, slashes]

theorem rspPath_short (short : settings.imgPath.bytes.length ≤ 254) (req : ZimgReq) :
    rspPath settings req = pathTo settings (levels req.md5) ++ slash :: keptName settings req := by
  have := pathLen_levels_le settings req.md5
  have room : 511 - pathLen settings (levels req.md5) =
      (510 - pathLen settings (levels req.md5)) + 1 := by omega
  rw [rspPath_eq, wholePath_short short, cut, List.take_append, length_pathTo, keptName,
    List.take_of_length_le (by rw [length_pathTo]; omega), room, List.take_succ_cons]

theorem keptName_length (short : settings.imgPath.bytes.length ≤ 254) (req : ZimgReq) :
    pathLen settings (keptName settings req :: levels req.md5) ≤ 511 := by
  have := pathLen_levels_le settings req.md5
  rw [pathLen_cons, keptName, List.length_take]
  omega

theorem decimal_head (i : Int) : ∃ c s, decimal i = c :: s ∧ c ≠ dot ∧ c ≠ slash := by
  have chars := decimal_chars i
  cases hs : decimal i with
  | nil => exact absurd hs (decimal_ne_nil i)
  | cons c s =>
      refine ⟨c, s, rfl, ?_, ?_⟩ <;> rintro rfl <;>
        have := chars _ (hs ▸ List.mem_cons_self) <;> revert this <;> decide

theorem rspFile_head (settings : Settings) (req : ZimgReq) :
    ∃ c s, rspFile settings req = c :: s ∧ c ≠ dot ∧ c ≠ slash := by
  unfold rspFile
  split
  · exact ⟨_, _, rfl, by decide, by decide⟩
  · split
    · exact ⟨_, _, rfl, by decide, by decide⟩
    · obtain ⟨c, s, hd, plain⟩ := decimal_head req.width.toInt
      exact ⟨c, _, by simp [rspName, snprintf, cut, hd]; rfl, plain⟩

theorem keptName_head (short : settings.imgPath.bytes.length ≤ 254) (req : ZimgReq) :
    ∃ c s, keptName settings req = c :: s ∧ c ≠ dot ∧ c ≠ slash := by
  obtain ⟨c, s, hf, plain⟩ := rspFile_head settings req
  have := pathLen_levels_le settings req.md5
  have room : 510 - pathLen settings (levels req.md5) =
      (509 - pathLen settings (levels req.md5)) + 1 := by omega
  exact ⟨c, _, by rw [keptName, hf, room, List.take_succ_cons], plain⟩

theorem no_slash_inside {n q : Bytes} (plain : slash ∉ n) (h : q ++ [slash] <+: n) : False := by
  refine plain (h.subset ?_)
  simp

theorem pathTo_prefix {ns : Loc} (names : ∀ n ∈ ns, IsName n) {q : Bytes}
    (h : q ++ [slash] <+: pathTo settings ns ∨ q = pathTo settings ns) :
    (∃ m ms, m :: ms <:+ ns ∧ q = pathTo settings (m :: ms)) ∨
      q ++ [slash] <+: settings.imgPath.bytes ++ [slash] := by
  induction ns with
  | nil =>
      refine .inr ?_
      rcases h with h | rfl
      · exact h.trans (List.prefix_append _ _)
      · exact List.prefix_rfl
  | cons n ns ih =>
      rcases h with h | rfl
      swap
      · exact .inl ⟨n, ns, List.suffix_rfl, rfl⟩
      have above (h : q ++ [slash] <+: pathTo settings ns ∨ q = pathTo settings ns) :
          (∃ m ms, m :: ms <:+ n :: ns ∧ q = pathTo settings (m :: ms)) ∨
            q ++ [slash] <+: settings.imgPath.bytes ++ [slash] := by
        refine (ih (fun m member => names m (List.mem_cons_of_mem n member)) h).imp_left ?_
        rintro ⟨m, ms, tail, rfl⟩
        exact ⟨m, ms, tail.trans (List.suffix_cons n ns), rfl⟩
      have parent : pathTo settings ns ++ [slash] <+: pathTo settings (n :: ns) :=
        ⟨n, by simp [pathTo]⟩
      rcases List.prefix_or_prefix_of_prefix h parent with shorter | longer
      · refine above ?_
        rcases List.prefix_concat_iff.mp shorter with same | shorter
        · exact .inr (List.append_cancel_right same)
        · exact .inl shorter
      · rcases List.prefix_concat_iff.mp longer with same | longer
        · exact above (.inr (List.append_cancel_right same).symm)
        · obtain ⟨r, rfl⟩ := longer
          rw [pathTo, List.append_assoc, List.append_assoc, List.prefix_append_right_inj,
            List.singleton_append, List.cons_prefix_cons] at h
          exact (no_slash_inside (names n List.mem_cons_self).2.2.2 h.2).elim

theorem keptName_original (short : settings.imgPath.bytes.length ≤ 254) {req : ZimgReq}
    (script : scriptType settings req = none) (original : req.original) :
    keptName settings req = ascii "0*0" := by
  have := pathLen_levels_le settings req.md5
  have room : (ascii "0*0").length = 3 := rfl
  rw [keptName, rspFile, script]
  dsimp only
  rw [if_pos original, List.take_of_length_le (by omega)]

theorem keptName_eq_original (short : settings.imgPath.bytes.length ≤ 254) {req : ZimgReq} :
    keptName settings req = ascii "0*0" ↔ scriptType settings req = none ∧ req.original := by
  constructor
  swap
  · exact fun h => keptName_original short h.1 h.2
  intro same
  have := pathLen_levels_le settings req.md5
  have long : 3 < 510 - pathLen settings (levels req.md5) := by omega
  rw [keptName, rspFile] at same
  split at same
  · obtain ⟨k, hk⟩ := Nat.exists_eq_add_of_lt long
    rw [hk] at same
    cases same
  · rename_i script
    refine ⟨script, ?_⟩
    by_contra other
    rw [if_neg other] at same
    have size := congrArg List.length same
    have room : (ascii "0*0").length = 3 := rfl
    have width : 0 < (decimal req.width.toInt).length := List.length_pos_of_ne_nil (decimal_ne_nil _)
    have star : (ascii "*").length = 1 := rfl
    have mark : (ascii "_p").length = 2 := rfl
    simp only [List.length_take, rspName, snprintf, cut, List.length_append, room, star, mark] at size
    omega

/-! ## What the paths resolve to -/

section Resolving
variable {t : Tree} {base : Loc}

theorem resolve_pathTo_slash (anchored : t.Anchored settings.imgPath.bytes base) {ns : Loc}
    (names : ∀ n ∈ ns, IsName n) :
    t.resolve (pathTo settings ns ++ [slash]) =
      if t.node (ns ++ base) = some .dir then some (ns ++ base) else none := by
  induction ns with
  | nil => rw [pathTo, anchored.resolve, List.nil_append, if_pos anchored.dir]
  | cons n ns ih =>
      have name := names n List.mem_cons_self
      have text : pathTo settings (n :: ns) ++ [slash] =
          pathTo settings ns ++ slash :: (n ++ slash :: []) := by simp [pathTo]
      rw [text, Tree.resolve_append, ih fun m member => names m (List.mem_cons_of_mem n member),
        Tree.splitOn_append_slash, Tree.splitOn_name name.2.2.2, List.splitOn_nil]
      rw [show n :: ns ++ base = n :: (ns ++ base) from rfl]
      by_cases above : t.node (ns ++ base) = some .dir
      · rw [if_pos above, Option.bind_some, Tree.walk_append, Tree.walk_name name above]
        simp [Tree.walk]
      · rw [if_neg above, Option.bind_none, if_neg fun here => above (Tree.node_parent here)]

theorem resolve_below (anchored : t.Anchored settings.imgPath.bytes base) {ns : Loc}
    (names : ∀ n ∈ ns, IsName n) (q : Bytes) :
    t.resolve (pathTo settings ns ++ slash :: q) =
      if t.node (ns ++ base) = some .dir then t.walk (ns ++ base) (q.splitOn slash) else none := by
  rw [Tree.resolve_append, resolve_pathTo_slash anchored names]
  split <;> rfl

theorem resolve_pathTo (anchored : t.Anchored settings.imgPath.bytes base) {n : Bytes} {ns : Loc}
    (names : ∀ m ∈ n :: ns, IsName m) :
    t.resolve (pathTo settings (n :: ns)) =
      if t.node (ns ++ base) = some .dir then some (n :: ns ++ base) else none := by
  have name := names n List.mem_cons_self
  rw [pathTo, resolve_below anchored fun m member => names m (List.mem_cons_of_mem n member),
    Tree.splitOn_name name.2.2.2]
  split
  · rename_i above
    rw [Tree.walk_name name above]
    rfl
  · rfl

theorem lookup_pathTo (anchored : t.Anchored settings.imgPath.bytes base) {n : Bytes} {ns : Loc}
    (names : ∀ m ∈ n :: ns, IsName m) :
    t.lookup (pathTo settings (n :: ns)) = t.node (n :: ns ++ base) := by
  rw [Tree.lookup, resolve_pathTo anchored names]
  split
  · rfl
  · rename_i above
    rw [Option.bind_none, eq_comm, ← Option.not_isSome_iff_eq_none, Option.isSome_iff_exists]
    rintro ⟨x, hx⟩
    exact above (Tree.node_parent hx)

theorem walk_file {d : Loc} {c : UInt8} {s : Bytes} (hd : t.node d = some .dir)
    (flat : ∀ n, t.node (n :: d) ≠ some .dir) (hc : c ≠ dot) (hs : c ≠ slash) :
    t.walk d ((c :: s).splitOn slash) = if slash ∈ c :: s then none else some ((c :: s) :: d) := by
  split
  · rename_i member
    obtain ⟨first, rest, text, plain⟩ : ∃ first rest, c :: s = (c :: first) ++ slash :: rest ∧
        slash ∉ c :: first := by
      have inside : slash ∈ s := by simpa [Ne.symm hs] using member
      obtain ⟨first, rest, text, plain⟩ := List.eq_append_cons_of_mem inside
      exact ⟨first, rest, by rw [text, List.cons_append], by simpa [Ne.symm hs] using plain⟩
    rw [text, Tree.splitOn_append_slash, Tree.splitOn_name plain, Tree.walk_append,
      Tree.walk_name (isName_of_head hc plain) hd, Option.bind_some]
    cases hr : rest.splitOn slash with
    | nil => exact absurd hr (List.splitOn_ne_nil _ _)
    | cons n ns => exact Tree.walk_cons_not_dir (flat _) n ns
  · rename_i plain
    rw [Tree.splitOn_name plain, Tree.walk_name (isName_of_head hc plain) hd]

end Resolving

/-! ## The keys of an image -/

theorem Md5.strLcpy (h : Md5) : strLcpy h.bytes CACHE_KEY_SIZE = h.bytes :=
  List.take_of_length_le (by simp [h.length, CACHE_KEY_SIZE])

theorem take_snprintf {s : Bytes} {size k : Nat} (room : k < size) :
    (snprintf size s).take k = s.take k := by
  rw [snprintf, cut, List.take_take, min_eq_left (by omega)]

theorem length_snprintf {s : Bytes} {size k : Nat} (room : k < size) (long : k ≤ s.length) :
    k ≤ (snprintf size s).length := by
  rw [snprintf, cut, List.length_take]
  omega

theorem take_genKeyArgs {key : Bytes} (long : 32 ≤ key.length) (args : List Int32) :
    (genKeyArgs key args).take 32 = key.take 32 ∧ 32 ≤ (genKeyArgs key args).length := by
  have room : 32 < CACHE_KEY_SIZE := by decide
  induction args generalizing key with
  | nil => exact ⟨rfl, long⟩
  | cons argv args ih =>
      have longer : 32 ≤ (key ++ ascii ":" ++ decimal argv.toInt).length := by
        simp only [List.length_append]
        omega
      obtain ⟨same, still⟩ := ih (length_snprintf room (length_snprintf room longer))
      refine ⟨?_, still⟩
      rw [genKeyArgs, same, take_snprintf room, take_snprintf room, List.append_assoc,
        List.take_append_of_le_length long]

theorem rspCacheKey_take (settings : Settings) (req : ZimgReq) : (rspCacheKey settings req).take 32 = req.md5.bytes := by
  have room : 32 < CACHE_KEY_SIZE := by decide
  have long := req.md5.length
  have whole : req.md5.bytes.take 32 = req.md5.bytes := List.take_of_length_le long.le
  unfold rspCacheKey
  split
  · rw [take_snprintf room, List.append_assoc, List.take_append_of_le_length long.ge, whole]
  · split
    · rw [req.md5.strLcpy, whole]
    · obtain ⟨same, still⟩ := take_genKeyArgs (length_snprintf room long.ge)
        [req.width, req.height, req.proportion, req.gray, req.x, req.y, req.rotate, req.quality]
      rw [genKey, take_snprintf room, take_snprintf room, List.append_assoc,
        List.take_append_of_le_length still, same, take_snprintf room, whole]

theorem rspCacheKey_inj {req req' : ZimgReq}
    (same : rspCacheKey settings req' = rspCacheKey settings req) : req'.md5 = req.md5 :=
  Md5.ext_bytes (by rw [← rspCacheKey_take settings req', same, rspCacheKey_take])

theorem rspCacheKey_ne {h : Md5} {req : ZimgReq} (other : req.md5 ≠ h) : rspCacheKey settings req ≠ h.bytes := by
  intro same
  have := rspCacheKey_take settings req
  rw [same, List.take_of_length_le h.length.le] at this
  exact other (Md5.ext_bytes this.symm)

theorem length_rspCacheKey {req : ZimgReq}
    (other : ¬(scriptType settings req = none ∧ req.original)) :
    32 < (rspCacheKey settings req).length := by
  have room : 33 < CACHE_KEY_SIZE := by decide
  have colon : (ascii ":").length = 1 := rfl
  have long := req.md5.length
  unfold rspCacheKey
  split
  · refine length_snprintf room ?_
    simp only [List.length_append]
    omega
  · rename_i script
    split
    · exact absurd ⟨script, by assumption⟩ other
    · have start : 32 ≤ (snprintf CACHE_KEY_SIZE req.md5.bytes).length :=
        length_snprintf (by decide) long.ge
      obtain ⟨-, still⟩ := take_genKeyArgs start
        [req.width, req.height, req.proportion, req.gray, req.x, req.y, req.rotate, req.quality]
      refine length_snprintf room (length_snprintf room ?_)
      simp only [List.length_append]
      omega

theorem rspCacheKey_md5 {h : Md5} {req : ZimgReq} (same : rspCacheKey settings req = h.bytes) :
    req.md5 = h ∧ scriptType settings req = none ∧ req.original := by
  constructor
  · by_contra other
    exact rspCacheKey_ne other same
  · by_contra other
    have long := length_rspCacheKey other
    rw [same, h.length] at long
    omega

theorem rspCacheKey_original {req : ZimgReq} (script : scriptType settings req = none)
    (original : req.original) : rspCacheKey settings req = req.md5.bytes := by
  rw [rspCacheKey, script]
  dsimp only
  rw [if_pos original, req.md5.strLcpy]

end Ximg
