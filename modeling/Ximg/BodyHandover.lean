import Ximg.Httpd

/-!
# Handing over the body of an upload

The buffer of an upload is as long as the header says, and is filled with what the client sent.
-/

namespace Ximg
open Text Calls

theorem intLength_small {length : Nat} (small : length < 2 ^ 31) : intLength length = length := by
  rw [intLength, Int32.toInt_ofNat_of_lt small, Int.toNat_natCast]

theorem removeLoop_nil (buff : HeapBuffer) : removeLoop [] buff = buff := by
  rw [removeLoop]
  exact dif_neg (by decide)

theorem removeLoop_small {body : Bytes} (nonempty : body ≠ []) (small : body.length < 2 ^ 31)
    (buff : HeapBuffer) : removeLoop body buff = evbufferRemove body buff body.length := by
  have more : 0 < intLength body.length := by
    rw [intLength_small small]
    exact List.length_pos_iff.mpr nonempty
  rw [removeLoop, dif_pos more, intLength_small small, List.drop_length, removeLoop_nil]

theorem contentLength_lt {settings : HttpSettings} {req : EvhtpRequest} {postSize : Nat}
    (accepted : contentLength settings req = .ok postSize) : postSize < 2 ^ 31 := by
  unfold contentLength at accepted
  split at accepted
  · cases accepted
  · rename_i contentLen _
    dsimp only at accepted
    split at accepted
    · cases accepted
    split at accepted
    · cases accepted
    · cases accepted
      have := (atoi contentLen).toInt_lt
      omega

/-- The buffer ends up with the body, and nothing is stored behind it, exactly when the body is as
long as the header says. -/
theorem body_handover (settings : HttpSettings) (req : EvhtpRequest) (postSize : Nat)
    (accepted : contentLength settings req = .ok postSize) (nonempty : req.bufferIn ≠ [])
    (block : Bytes) (room : postSize ≤ block.length) :
    ((removeLoop req.bufferIn ⟨block, 0⟩).reached ≤ postSize ∧
        (removeLoop req.bufferIn ⟨block, 0⟩).mem.take postSize = req.bufferIn) ↔
      req.bufferIn.length = postSize := by
  have bound := contentLength_lt accepted
  constructor
  · rintro ⟨inside, same⟩
    have length := congrArg List.length same
    rw [List.length_take] at length
    have small : req.bufferIn.length < 2 ^ 31 := by omega
    rw [removeLoop_small nonempty small] at length
    simp only [evbufferRemove, List.take_length, List.length_append, List.length_drop] at length
    omega
  · intro announced
    rw [removeLoop_small nonempty (by omega), announced]
    have whole : req.bufferIn.take postSize = req.bufferIn := by rw [← announced, List.take_length]
    constructor
    · exact (Nat.max_eq_right (Nat.zero_le _)).le
    · show (req.bufferIn.take postSize ++ block.drop postSize).take postSize = req.bufferIn
      rw [whole, ← announced, List.take_left]

/-! ## A body that is longer than announced -/

def uploadSettings : HttpSettings where
  maxKeepalives := 1
  etag := 0
  upAccess := none
  downAccess := none
  adminAccess := none
  cacheOn := 0
  rootPath := ⟨⟨ascii "r", by decide⟩, by decide⟩
  adminPath := ⟨⟨ascii "a", by decide⟩, by decide⟩
  disableArgs := 0
  disableType := 0
  disableZoomUp := 0
  scriptOn := 0
  format := ⟨⟨ascii "none", none_noNul⟩, none_fits⟩
  quality := 75
  mode := 1
  saveNew := 1
  maxSize := 1000
  imgPath := ⟨⟨ascii "i", by decide⟩, by decide⟩
  serverName := ⟨⟨ascii "s", by decide⟩, by decide⟩
  port := 4869
  headers := none

def chunkedUpload (body : Bytes) : EvhtpRequest where
  method := 2
  uriPathFull := ⟨ascii "/upload", by decide⟩
  uriQuery := none
  headersIn :=
    [⟨⟨ascii "Content-Length", by decide⟩, ⟨ascii "3", by decide⟩⟩,
      ⟨⟨ascii "Transfer-Encoding", by decide⟩, ⟨ascii "chunked", by decide⟩⟩,
      ⟨⟨ascii "Content-Type", by decide⟩, ⟨ascii "jpeg", by decide⟩⟩]
  bufferIn := body

theorem body_handover_small :
    ((removeLoop (ascii "abc") ⟨[0, 0, 0], 0⟩).reached ≤ 3 ∧
        (removeLoop (ascii "abc") ⟨[0, 0, 0], 0⟩).mem.take 3 = ascii "abc") ↔
      (ascii "abc").length = 3 :=
  body_handover uploadSettings (chunkedUpload (ascii "abc")) 3 (by decide +kernel) (by decide)
    [0, 0, 0] (by decide)

theorem body_overruns :
    contentLength uploadSettings (chunkedUpload (ascii "abcd")) = .ok 3 ∧
      ¬(removeLoop (chunkedUpload (ascii "abcd")).bufferIn ⟨[0, 0, 0], 0⟩).reached ≤ 3 := by
  decide +kernel

end Ximg
