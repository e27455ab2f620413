import Ximg.ServerSpecs

/-!
# What a conversion makes

A conversion calls nothing but the image library and the script, which are functions, so it is one
itself. The blob that a GET makes is a function of the original and of the request.
-/

namespace Ximg
open Text Vfs Calls

variable {Im : Type} (settings : Settings) (req : ZimgReq)

/-! ## The calls of a conversion -/

/-- Calls of the image library other than decoding and encoding, and of the script. -/
def Converts : SysOp Im → Prop
  | .magick (.readImageBlob _) | .magick (.getImageBlob _) => False
  | .magick _ | .luaPcall _ _ | .malloc _ => True
  | _ => False

theorem onPass_converts {step : Prog (Sys Im) (Bool × Im)} {next : Im → Prog (Sys Im) (Int × Im)}
    (first : step.Uses Converts) (rest : ∀ im, (next im).Uses Converts) :
    (onPass step next).Uses Converts := by
  refine first.bind fun r => ?_
  dsimp only
  split
  · exact rest r.2
  · trivial

theorem proportion_converts (im : Im) (pType cols rows : Int32) :
    (proportion settings im pType cols rows).Uses Converts := by
  simp only [proportion, magick_bind, Prog.pure_eq, Prog.Uses]
  refine ⟨trivial, fun imCols => ⟨trivial, fun imRows => ?_⟩⟩
  split_ifs <;> simp [Prog.Uses, Converts]

theorem crop_converts (im : Im) (x y cols rows : Int32) : (crop im x y cols rows).Uses Converts := by
  simp only [crop, magick_bind, Prog.pure_eq, Prog.Uses]
  refine ⟨trivial, fun imCols => ⟨trivial, fun imRows => ?_⟩⟩
  split_ifs <;> simp [Prog.Uses, Converts]

theorem convert_converts (im : Im) : (convert settings im req).Uses Converts := by
  simp only [convert, magick_bind, Prog.Uses]
  refine ⟨trivial, fun im => ?_⟩
  refine onPass_converts ?_ fun im => onPass_converts ?_ fun im => onPass_converts ?_ fun im =>
    onPass_converts ?_ fun im => onPass_converts ?_ fun im => onPass_converts ?_ fun im =>
    onPass_converts ?_ fun im => trivial
  · simp only [orientStep, magick_bind, Prog.Uses]
    refine ⟨trivial, fun orientation => ?_⟩
    split_ifs <;> simp [Prog.Uses, magick, sys, Converts]
  · unfold scaleStep
    split_ifs
    · trivial
    · exact (proportion_converts settings im _ _ _).bind fun r => trivial
    · exact (crop_converts im _ _ _ _).bind fun r => trivial
  · unfold rotateStep
    split_ifs <;> simp [Prog.Uses, magick, sys, Converts]
  · unfold grayStep
    split_ifs <;> simp [Prog.Uses, magick, sys, Converts]
  · simp only [qualityStep, magick_bind, Prog.Uses]
    refine ⟨trivial, fun quality => ?_⟩
    split_ifs <;> simp [Prog.Uses, magick, sys, Converts]
  · unfold formatStep
    split_ifs <;> simp [Prog.Uses, magick, sys, Converts]
  · simp [Prog.Uses, magick, sys, Converts]

theorem luaConvert_converts (im : Im) (type : CString) (thrArg : ThrArg) :
    (luaConvert im type thrArg).Uses Converts := by
  simp only [luaConvert, magick_bind, sys_bind, Prog.pure_eq, Prog.Uses]
  refine ⟨trivial, fun im => ⟨trivial, fun im => ?_⟩⟩
  split_ifs <;> simp [Prog.Uses, Converts]

theorem convertReq_converts (im : Im) : (convertReq settings im req).Uses Converts := by
  unfold convertReq
  split
  · exact luaConvert_converts im _ _
  · exact convert_converts settings req im

/-! ## Conversions as functions -/

namespace Env
variable (env : Env Im) {α : Type}

def nowhere : World := ⟨.idle Tree.root 0, fun _ => none, fun _ => none, [], [], false⟩

def value (p : Prog (Sys Im) α) : α := (env.machine.exec env.calm p nowhere).1

theorem calm_converts {op : SysOp Im} (h : Converts op) (w w' : World) :
    env.calm w op = env.calm w' op ∧ env.effect w op (env.calm w op) = w ∧
      ∀ r, ¬env.deviates w op r := by
  unfold Converts at h
  split at h
  all_goals first
    | exact h.elim
    | exact ⟨rfl, rfl, fun _ => id⟩

theorem wp_value {p : Prog (Sys Im) α} (uses : p.Uses Converts) {Q : α → World → Prop} {w : World} :
    env.machine.wp p Q w ↔ Q (env.value p) w := by
  unfold value
  induction p with
  | ret a => rfl
  | call op k ih =>
      obtain ⟨same, unchanged, calm⟩ := env.calm_converts uses.1 w nowhere
      obtain ⟨-, unchanged', -⟩ := env.calm_converts uses.1 nowhere w
      rw [wp_calm op k calm, unchanged, same, ih _ (uses.2 _), Machine.exec]
      change _ ↔ Q (env.machine.exec env.calm _ (env.effect nowhere op (env.calm nowhere op))).1 w
      rw [unchanged']

end Env

def converted (env : Env Im) (im : Im) : Option (Bytes × Bool) :=
  let (ret, im) := env.value (convertReq settings im req)
  if ret = -1 then none else (env.lib (.getImageBlob im)).map fun buff => (buff, decide (ret ≠ 0))

/-! ## The rendition of the disk mode -/

section Rendering
variable {settings req} {env : Env Im} {w : World}

theorem calm_readImage (path : Bytes) : env.calm w (.readImage path) =
    match w.disk.tree.lookup path with
    | some (.file content) => env.lib (.readImageBlob content)
    | _ => none := rfl

inductive NoSource (settings : Settings) (req : ZimgReq) (env : Env Im) (w : World) : Prop where
  | noWand (failed : env.lib .newWand = false)
  | noFile (missing : ∀ content, w.disk.tree.lookup (origPath settings req.md5.bytes) ≠
      some (.file content))
  | undecoded (content : Bytes)
      (found : w.disk.tree.lookup (origPath settings req.md5.bytes) = some (.file content))
      (failed : env.lib (.readImageBlob content) = none)
  | unencoded (content : Bytes) (im : Im)
      (found : w.disk.tree.lookup (origPath settings req.md5.bytes) = some (.file content))
      (decoded : env.lib (.readImageBlob content) = some im)
      (size : env.lib (.getImageLength im) < CACHE_MAX_SIZE)
      (failed : env.lib (.getImageBlob (env.lib (.resetIterator im))) = none)

inductive Source (settings : Settings) (req : ZimgReq) (env : Env Im) (w : World) :
    (Bytes → Option Bytes) → Im → Prop where
  | cached (content : Bytes) (im : Im) (on : Caching settings req.thrArg)
      (held : w.cache req.md5.bytes = some content)
      (decoded : env.lib (.readImageBlob content) = some im) : Source settings req env w w.cache im
  | large (content : Bytes) (im : Im) (cache : Bytes → Option Bytes)
      (missed : Missed settings req.thrArg req.md5.bytes w.cache cache)
      (found : w.disk.tree.lookup (origPath settings req.md5.bytes) = some (.file content))
      (decoded : env.lib (.readImageBlob content) = some im)
      (size : ¬env.lib (.getImageLength im) < CACHE_MAX_SIZE) : Source settings req env w cache im
  | small (content : Bytes) (im : Im) (buff : Bytes) (cache cache' : Bytes → Option Bytes)
      (missed : Missed settings req.thrArg req.md5.bytes w.cache cache)
      (found : w.disk.tree.lookup (origPath settings req.md5.bytes) = some (.file content))
      (decoded : env.lib (.readImageBlob content) = some im)
      (size : env.lib (.getImageLength im) < CACHE_MAX_SIZE)
      (encoded : env.lib (.getImageBlob (env.lib (.resetIterator im))) = some buff)
      (cached : Cached settings req.thrArg req.md5.bytes buff cache cache') :
      Source settings req env w cache' (env.lib (.resetIterator im))

theorem wp_readOrig {cache : Bytes → Option Bytes} {Q : Option Im → World → Prop}
    (missed : Missed settings req.thrArg req.md5.bytes w.cache cache)
    (failed : NoSource settings req env w → Q none (w.caching cache))
    (loaded : ∀ cache' im, Source settings req env w cache' im → Q (some im) (w.caching cache')) :
    env.machine.wp (readOrig settings req) Q (w.caching cache) := by
  simp only [readOrig, sys_bind, magick_bind, Prog.pure_eq, Env.wp_readImage]
  rw [calm_readImage, World.caching_disk]
  cases found : w.disk.tree.lookup (origPath settings req.md5.bytes) with
  | none => exact failed (.noFile (by simp [found]))
  | some x =>
    cases x with
    | dir => exact failed (.noFile (by simp [found]))
    | file content =>
      cases decoded : env.lib (.readImageBlob content) with
      | none => simpa [decoded] using failed (.undecoded content found decoded)
      | some im =>
          simp only [decoded, Env.wp_magick]
          split
          swap
          · rename_i size
            exact loaded cache im (.large content im cache missed found decoded size)
          rename_i size
          simp only [Env.wp_magick]
          cases encoded : env.lib (.getImageBlob (env.lib (.resetIterator im))) with
          | none => exact failed (.unencoded content im found decoded size encoded)
          | some buff =>
              dsimp only
              rw [Machine.wp_bind]
              exact wp_setCacheBin fun _ cache' cached => loaded cache' _
                (.small content im buff cache cache' missed found decoded size encoded cached)

theorem wp_loadOrig {Q : Option Im → World → Prop}
    (failed : ∀ cache, cache = w.cache ∨ Missed settings req.thrArg req.md5.bytes w.cache cache →
      NoSource settings req env w → Q none (w.caching cache))
    (loaded : ∀ cache im, Source settings req env w cache im → Q (some im) (w.caching cache)) :
    env.machine.wp (loadOrig settings req) Q w := by
  simp only [loadOrig, magick_bind, Prog.pure_eq, Env.wp_magick]
  split
  · rename_i noWand
    exact failed w.cache (.inl rfl) (.noWand noWand)
  rw [Machine.wp_bind]
  refine wp_findCacheBin (fun cache missed => ?_) fun content on held => ?_
  · exact wp_readOrig missed (failed cache (.inr missed)) loaded
  · simp only [Env.wp_magick]
    cases decoded : env.lib (.readImageBlob content) with
    | some im => exact loaded w.cache im (.cached content im on held decoded)
    | none =>
        dsimp only
        rw [Machine.wp_bind]
        exact wp_delCache fun _ cache missed =>
          wp_readOrig missed (failed cache (.inr missed)) loaded

theorem wp_renderImg {Q : Option (Bytes × Bool) → World → Prop}
    (failed : ∀ cache, cache = w.cache ∨ Missed settings req.thrArg req.md5.bytes w.cache cache →
      NoSource settings req env w → Q none (w.caching cache))
    (made : ∀ cache im, Source settings req env w cache im →
      Q (converted settings req env im) (w.caching cache)) :
    env.machine.wp (renderImg settings req) Q w := by
  simp only [renderImg, magick_bind, Prog.pure_eq]
  rw [Machine.wp_bind]
  refine wp_loadOrig failed fun cache im source => ?_
  have result := made cache im source
  dsimp only
  rw [Machine.wp_bind, Env.wp_value env (convertReq_converts settings req im)]
  unfold converted at result
  generalize env.value (convertReq settings im req) = value at result ⊢
  obtain ⟨ret, im'⟩ := value
  dsimp only at result ⊢
  split
  · rename_i refused
    simpa [refused] using result
  · rename_i passed
    rw [if_neg passed] at result
    rw [Env.wp_magick]
    cases encoded : env.lib (.getImageBlob im') <;> simpa [encoded] using result

end Rendering
end Ximg
