import Ximg.CacheMeaning

/-!
# What saving and deleting do to a reply

The functions that save or delete leave the connection's buffers alone until they report.
-/

namespace Ximg
open Text Vfs Calls

variable {Im : Type} {env : Env Im} {settings : Settings} {thrArg : ThrArg} {w : World} {α : Type}

def Mute : SysOp Im → Prop
  | .requestNew | .bufferOut | .evbufferAdd _ | .evbufferAddPrintf _ | .headersAddHeader _ _ => False
  | _ => True

theorem effect_mute {op : SysOp Im} {r : op.Res} (mute : Mute op) :
    (env.effect w op r).reply = w.reply := by
  cases op with
  | memcached server op => cases server <;> cases op <;> first | rfl | cases r <;> rfl
  | redisCommand cmd => cases cmd <;> rfl
  | requestNew | bufferOut | evbufferAdd _ | evbufferAddPrintf _ | headersAddHeader _ _ =>
      exact mute.elim
  | _ => rfl

theorem wp_mute {p : Prog (Sys Im) α} (uses : p.Uses Mute) :
    env.machine.wp p (fun _ w' => w'.reply = w.reply) w :=
  Machine.wp_of_uses (R := fun w' : World => w'.reply = w.reply) uses
    (fun _ _ _ mute same _ => (effect_mute mute).trans same) rfl

theorem uses_sys {allowed : SysOp Im → Prop} {op : SysOp Im} {k : op.Res → Prog (Sys Im) α}
    (first : allowed op) (rest : ∀ r, (k r).Uses allowed) :
    Prog.Uses (S := Sys Im) allowed (sys op >>= k) := ⟨first, rest⟩

/-! ## Mute programs -/

theorem setCacheBin_mute (key value : Bytes) :
    (setCacheBin settings thrArg key value : Prog (Sys Im) _).Uses Mute := by
  unfold setCacheBin
  split_ifs <;> simp [Prog.Uses, Mute]

theorem cacheImg_mute (key buff : Bytes) :
    (cacheImg settings thrArg key buff : Prog (Sys Im) _).Uses Mute := by
  unfold cacheImg
  split_ifs
  · exact (setCacheBin_mute _ _).bind fun _ => trivial
  · trivial

theorem freeReplyObject_mute (r : Option RedisReply) :
    (freeReplyObject r : Prog (Sys Im) _).Uses Mute := by
  unfold freeReplyObject
  split_ifs
  · exact ⟨trivial, fun _ => trivial⟩
  · trivial

theorem redisCommand_mute (cmd : RedisCommand) (rst : Option RedisReply → Int) :
    (do
      let r ← sys (.redisCommand cmd)
      freeReplyObject r
      return rst r : Prog (Sys Im) Int).Uses Mute :=
  ⟨trivial, fun r => (freeReplyObject_mute r).bind fun _ => trivial⟩

theorem existDb_mute (key : Bytes) :
    (existDb settings thrArg key : Prog (Sys Im) _).Uses Mute := by
  unfold existDb existBeansdb existSsdb
  split_ifs
  · trivial
  · rw [sys_bind]
    refine Prog.Uses.bind ⟨trivial, fun r => ?_⟩ fun rst => ?_
    · dsimp only
      split <;> trivial
    · split <;> trivial
  · trivial
  · refine (redisCommand_mute _ _).bind fun rst => ?_
    split <;> trivial
  · trivial

theorem saveImgDb_mute (key value : Bytes) :
    (saveImgDb settings thrArg key value : Prog (Sys Im) _).Uses Mute := by
  unfold saveImgDb saveImgBeansdb saveImgSsdb
  split_ifs <;> simp [Prog.Uses, Mute]
  intro r
  split <;> [split_ifs; skip] <;> simp [Prog.Uses]

theorem delDb_mute (key : Bytes) : (delDb settings thrArg key : Prog (Sys Im) _).Uses Mute := by
  unfold delDb delBeansdb delSsdb
  split_ifs
  · trivial
  · rw [sys_bind]
    refine Prog.Uses.bind ⟨trivial, fun r => ?_⟩ fun rst => ?_
    · dsimp only
      split <;> trivial
    · split <;> trivial
  · trivial
  · refine (redisCommand_mute _ _).bind fun rst => ?_
    split <;> trivial
  · trivial

theorem Removes.mute {op : SysOp Im} (h : Removes op) : Mute op := by
  unfold Removes at h
  split at h <;> first | exact h.elim | trivial

theorem isDir_mute (path : Bytes) : (isDir path : Prog (Sys Im) _).Uses Mute :=
  (isDir_removes path).mono fun _ => Removes.mute

theorem newImg_mute (buff saveName : Bytes) :
    (newImg buff saveName : Prog (Sys Im) _).Uses Mute := by
  simp only [newImg, disk_bind, Prog.pure_eq, Prog.Uses]
  refine ⟨trivial, fun fd => ?_⟩
  split
  · trivial
  refine ⟨trivial, fun locked => ?_⟩
  dsimp only
  split_ifs
  · exact ⟨trivial, fun _ => trivial⟩
  refine ⟨trivial, fun wlen => ?_⟩
  dsimp only
  split
  · exact ⟨trivial, fun _ => trivial⟩
  split_ifs
  · exact ⟨trivial, fun _ => trivial⟩
  · exact ⟨trivial, fun _ => ⟨trivial, fun _ => trivial⟩⟩

theorem mkDirsLoop_mute (done rest : Bytes) :
    (mkDirsLoop done rest : Prog (Sys Im) _).Uses Mute := by
  induction rest generalizing done with
  | nil => trivial
  | cons c rest ih =>
      simp only [mkDirsLoop]
      split_ifs
      · refine uses_sys trivial fun found => ?_
        split_ifs
        · exact ih _
        · refine uses_sys trivial fun made => ?_
          split_ifs
          · exact ih _
          · trivial
      · exact ih _

theorem ensureDir_mute (savePath : Bytes) : (ensureDir savePath : Prog (Sys Im) _).Uses Mute := by
  refine (isDir_mute savePath).bind fun found => ?_
  split_ifs
  · exact mkDirsLoop_mute _ _
  · trivial

theorem ensureFile_mute (buff saveName : Bytes) :
    (ensureFile buff saveName : Prog (Sys Im) _).Uses Mute := by
  refine ((isFile_removes saveName).mono fun _ => Removes.mute).bind fun found => ?_
  split_ifs
  · exact newImg_mute buff saveName
  · trivial

theorem saveImg_mute (buff : Bytes) :
    (saveImg settings thrArg buff : Prog (Sys Im) _).Uses Mute := by
  unfold saveImg
  dsimp only
  split_ifs
  · refine Prog.Uses.bind (Prog.Uses.bind (existDb_mute _) fun found => ?_) fun _ => trivial
    split_ifs
    · trivial
    · refine (saveImgDb_mute _ _).bind fun r => ?_
      split_ifs <;> trivial
  · refine Prog.Uses.bind (Prog.Uses.bind (ensureDir_mute _) fun made => ?_) fun _ => trivial
    split_ifs
    · trivial
    · refine (ensureFile_mute _ _).bind fun r => ?_
      split_ifs
      · trivial
      · exact (cacheImg_mute _ _).bind fun _ => trivial

end Ximg
