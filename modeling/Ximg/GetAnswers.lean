import Ximg.GetContract
import Ximg.HandlerSpecs
import Ximg.BodyHandover
import Ximg.StoreMap

/-!
# What a GET is answered with

The reply that the handler sends for the result of `get_img`, against what `get_img` did.
-/

namespace Ximg
open Text Calls

variable {Im : Type}

def sentCode (e : Event Http) : Option Nat :=
  match e.1 with
  | .evhtpSendReply code => some code
  | _ => none

def sentCodes (log : List (Event Http)) : List Nat := log.filterMap sentCode

def Unsent : HttpOp → Prop
  | .evhtpSendReply _ => False
  | _ => True

def imageCode (result : Int) : Nat :=
  if result = -1 then EVHTP_RES_NOTFOUND
  else if result = 2 then EVHTP_RES_NOTMOD else EVHTP_RES_OK

theorem sentCodes_unsent {more : List (Event Http)} (h : ∀ e ∈ more, Unsent e.1) :
    sentCodes more = [] := by
  rw [sentCodes, List.filterMap_eq_nil_iff]
  rintro ⟨op, r⟩ member
  have := h _ member
  cases op with
  | evhtpSendReply code => exact this.elim
  | _ => rfl

theorem zimgHeadersAdd_unsent (settings : HttpSettings) :
    (zimgHeadersAdd settings).Uses Unsent := by
  have all (headers : List (CString × CString)) : (headers.forM fun header =>
      http (.headersAddHeader header.1.bytes header.2.bytes)).Uses Unsent := by
    induction headers with
    | nil => trivial
    | cons header headers ih => exact ⟨trivial, fun _ => ih⟩
  unfold zimgHeadersAdd
  split
  · trivial
  · exact all _

theorem sendImage_sends (settings : HttpSettings) (alloc : Nat → Bool) (result : Int)
    (log : List (Event Http)) :
    Adds alloc (sendImage settings result) (fun _ more => sentCodes more = [imageCode result])
      log := by
  unfold sendImage imageCode
  split
  · exact Adds.call fun _ _ => Adds.call fun _ _ => Adds.call fun _ _ => Adds.call fun _ _ =>
      Adds.ret rfl
  split
  · exact Adds.call fun _ _ => Adds.ret rfl
  refine Adds.call fun _ _ => Adds.call fun _ _ => ?_
  refine (adds_uses (zimgHeadersAdd_unsent settings)).bind fun _ more unsent log => ?_
  refine Adds.call fun _ _ => Adds.ret ?_
  rw [sentCodes, List.filterMap_cons_none rfl, List.filterMap_cons_none rfl, List.filterMap_append,
    ← sentCodes, sentCodes_unsent unsent]
  rfl

structure GetAnswered (request : EvhtpRequest) (calls : CallTrace Im) (result : Int)
    (codes : List Nat) : Prop where
  contract : GetContract request calls result
  survived : Survived calls
  image : EVHTP_RES_OK ∈ codes → ∃ buff, Delivered calls buff ∧ appended calls = [buff]
  failure : result ≠ 1 → result ≠ 2 → codes = [EVHTP_RES_NOTFOUND]

theorem GetContract.answered {request : EvhtpRequest} {calls : CallTrace Im} {result : Int}
    (contract : GetContract request calls result) (survived : Survived calls) :
    GetAnswered request calls result [imageCode result] := by
  refine ⟨contract, survived, ?_, ?_⟩
  · intro sent
    refine contract.ok.mp ?_
    by_contra other
    rcases eq_or_ne result 2 with rfl | notModified
    · revert sent
      decide
    · obtain ⟨rfl, -⟩ := contract.failed other notModified
      revert sent
      decide
  · intro other notModified
    obtain ⟨rfl, -⟩ := contract.failed other notModified
    rfl

def dbSettings : HttpSettings := { uploadSettings with mode := 2 }

end Ximg
