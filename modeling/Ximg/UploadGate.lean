import Ximg.HandlerSpecs

/-!
# The gate of uploads

Which requests make a handler save an image that did not pass the gate.
-/

namespace Ximg
open Text Calls

section Gate
variable (inetAton : Bytes → Option UInt32) (settings : HttpSettings) (thrArg : ThrArg)
  (req : EvhtpRequest) (saddr : UInt32)

def queryImage : Option Bytes :=
  if req.methodName = "POST" then
    (req.uriQuery.bind fun params => kvFind params "base64").map
      fun base64 => (base64Image base64.bytes).1
  else none

variable {req}

theorem base64Save_eq {image : Bytes} (query : queryImage req = some image) :
    ∃ strLen, base64Save req = .call (.mallocBuff strLen) fun block => match block with
      | none => return none
      | some _ => do
          let (result, md5sum) ← http (.saveImg image)
          if result = -1 then return none else return some (image, md5sum) := by
  unfold queryImage at query
  unfold base64Save
  split at query
  · rename_i post
    rw [if_neg (not_not.mpr post)]
    cases params : req.uriQuery with
    | none => simp [params] at query
    | some params' =>
        cases base64 : kvFind params' "base64" with
        | none => simp [params, base64] at query
        | some base64' =>
            simp only [params, base64, Option.bind_some, Option.map_some, Option.some.injEq] at query
            rw [← query]
            refine ⟨(base64Image base64'.bytes).2, ?_⟩
            simp only [base64]
            rfl
  · cases query

theorem base64Save_none (query : queryImage req = none) : base64Save req = return none := by
  unfold queryImage at query
  unfold base64Save
  split at query
  · rename_i post
    rw [if_neg (not_not.mpr post)]
    cases params : req.uriQuery with
    | none => rfl
    | some params' =>
        cases base64 : kvFind params' "base64" with
        | none => simp [base64]
        | some base64' => simp [params, base64] at query
  · rename_i other
    rw [if_pos other]

theorem queryImage_post {image : Bytes} (query : queryImage req = some image) :
    req.methodName = "POST" := by
  unfold queryImage at query
  split at query
  · assumption
  · cases query

structure Admitted (image : Bytes) : Prop where
  open_ : settings.upAccess = none
  nonempty : 1 ≤ image.length
  small : (image.length : Int) ≤ settings.maxSize.toInt

variable {settings}

theorem base64RequestCb_gated {alloc : Nat → Bool} {log : List (Event Http)}
    (admitted : ∀ image, queryImage req = some image → Admitted settings image) :
    Adds alloc (base64RequestCb inetAton settings req saddr)
      (fun _ more => Gated settings req (forwarded inetAton req saddr) more) log := by
  unfold base64RequestCb
  have front : Adds alloc (base64Save req)
      (fun _ more => Gated settings req (forwarded inetAton req saddr) more) log := by
    cases query : queryImage req with
    | none =>
        rw [base64Save_none query]
        exact Adds.ret (gated_unsaved rfl)
    | some image =>
        obtain ⟨strLen, same⟩ := base64Save_eq query
        rw [same]
        refine Adds.call fun block _ => ?_
        cases block with
        | none => exact Adds.ret (gated_unsaved rfl)
        | some block =>
            refine Adds.call fun r _ => ?_
            have passes : Gated settings req (forwarded inetAton req saddr)
                ([⟨.mallocBuff strLen, some block⟩] ++ [⟨.saveImg image, r⟩]) := by
              refine gated_append (gated_unsaved rfl) ?_
              intro image' member
              rw [List.mem_singleton.mp member]
              obtain ⟨open_, nonempty, small⟩ := admitted image query
              exact ⟨queryImage_post query, .inl open_, nonempty, small⟩
            show Adds alloc (if r.1 = -1 then _ else _) _ _
            split
            · exact Adds.ret passes
            · exact Adds.ret passes
  refine front.bind fun r front gated log => ?_
  have reply (text : Bytes) : Adds alloc
      (do addJson text; sendUpload settings; return forwarded inetAton req saddr)
      (fun _ more => Gated settings req (forwarded inetAton req saddr) (front ++ more)) log := by
    refine (adds_idle (addJson_idle text)).bind fun _ more still log => ?_
    refine (adds_idle (sendUpload_idle settings)).bind fun _ more' still' log => Adds.ret ?_
    rw [List.append_nil, ← List.append_assoc]
    exact gated_still (gated_still gated still) still'
  cases r with
  | none => exact reply _
  | some saved => exact reply _

theorem base64RequestCb_run {image : Bytes} (query : queryImage req = some image)
    {Q : UInt32 → List (Event Http) → Prop}
    (h : (serving fun _ => true).wp (base64RequestCb inetAton settings req saddr) Q []) :
    ∃ a before r after, savedImages before = [] ∧ consulted before = [] ∧
      Q a (before ++ ⟨.saveImg image, r⟩ :: after) := by
  obtain ⟨strLen, same⟩ := base64Save_eq query
  unfold base64RequestCb at h
  rw [same] at h
  have legal : ∀ block, some (List.replicate strLen (0 : UInt8)) = some block →
      strLen ≤ block.length := by
    rintro _ ⟨⟩
    rw [List.length_replicate]
  have run := h (some (List.replicate strLen 0)) legal (0, []) trivial () trivial () trivial
    () trivial () trivial
  exact ⟨_, [⟨.mallocBuff strLen, some (List.replicate strLen 0)⟩], (0, []), _, rfl, rfl, run⟩

variable (settings req)

/-- Exactly the images in the query of `/base64` can be saved without passing the gate: its handler
checks neither the address nor the size. -/
theorem upload_gate (route : Route) :
    (∀ alloc, (serving alloc).wp (route.handler inetAton settings thrArg req saddr)
      (fun _ log => Gated settings req (forwarded inetAton req saddr) log) []) ↔
    ∀ image, route = .base64 → queryImage req = some image → Admitted settings image := by
  have whole {alloc : Nat → Bool} (h : Adds alloc
      (route.handler inetAton settings thrArg req saddr)
      (fun _ more => Gated settings req (forwarded inetAton req saddr) more) []) :
      (serving alloc).wp (route.handler inetAton settings thrArg req saddr)
        (fun _ log => Gated settings req (forwarded inetAton req saddr) log) [] := by
    refine Machine.wp_mono h ?_
    rintro _ _ ⟨more, rfl, gated⟩
    exact gated
  constructor
  · rintro h image rfl query
    obtain ⟨-, before, r, after, -, unasked, gated⟩ :=
      base64RequestCb_run inetAton saddr query (h fun _ => true)
    obtain ⟨-, access, nonempty, small⟩ := gated before image r after rfl
    refine ⟨access.resolve_right ?_, nonempty, small⟩
    rintro ⟨conf, -, asked⟩
    have member : (conf, forwarded inetAton req saddr) ∈ consulted before :=
      List.mem_filterMap.mpr ⟨_, asked, rfl⟩
    rw [unasked] at member
    cases member
  · intro admitted alloc
    by_cases base64 : route = .base64
    · subst base64
      exact whole (base64RequestCb_gated inetAton saddr fun image => admitted image rfl)
    · exact whole (handler_gated inetAton settings thrArg req saddr base64)

end Gate

def closedSettings : HttpSettings :=
  { uploadSettings with upAccess := some (confGetRules (ascii "deny all") [0]) }

def queryUpload : EvhtpRequest where
  method := 2
  uriPathFull := ⟨ascii "/base64", by decide⟩
  uriQuery := some [⟨⟨ascii "base64", by decide⟩, ⟨ascii "YWJj", by decide⟩⟩]
  headersIn := []
  bufferIn := []

theorem base64_ungated :
    ¬∀ alloc, (serving alloc).wp
      (Route.base64.handler (fun _ => none) closedSettings ⟨false, false, false, true⟩
        queryUpload 0)
      (fun _ log => Gated closedSettings queryUpload 0 log) [] := by
  intro h
  have query : queryImage queryUpload = some (ascii "abc") := by decide +kernel
  obtain ⟨-, before, r, after, -, unasked, gated⟩ := base64RequestCb_run _ _ query (h fun _ => true)
  rcases (gated before _ r after rfl).access with none | ⟨conf, -, asked⟩
  · cases none
  · have member : (conf, 0) ∈ consulted before := List.mem_filterMap.mpr ⟨_, asked, rfl⟩
    rw [unasked] at member
    cases member

end Ximg
