import Ximg.Conversion

/-!
# What a GET reports

The result codes of the two `get_img` functions against the calls they made, whatever the calls
answered.
-/

namespace Ximg
open Text Vfs Calls

variable {Im : Type}

abbrev CallTrace (Im : Type) := List (Event (Sys Im))

/-! ## What a call does for the reply -/

def addedBy : Event (Sys Im) → Option Bytes
  | ⟨.evbufferAdd buff, true⟩ => some buff
  | ⟨.evbufferAddPrintf text, _⟩ => some text
  | _ => none

def deliveredBy : Event (Sys Im) → Option Bytes
  | ⟨.memcached _ (.get _), some value⟩ => some value
  | ⟨.redisCommand (.get _), some (.string str)⟩ => some str
  | ⟨.magick (.getImageBlob _), some blob⟩ => some blob
  | ⟨.disk (.read _ len), some buff⟩ => if len ≤ buff.length then some buff else none
  | _ => none

/-- A decoding or an encoding failed, or ssdb did not answer whether a key exists. -/
def Lapse : Event (Sys Im) → Prop
  | ⟨.magick (.readImageBlob _), none⟩ => True
  | ⟨.magick (.getImageBlob _), none⟩ => True
  | ⟨.redisCommand (.exists _), none⟩ => True
  | _ => False

def Crashes : SysOp Im → Prop
  | .crash => True
  | _ => False

def appended (calls : CallTrace Im) : List Bytes := calls.filterMap addedBy

def Delivered (calls : CallTrace Im) (buff : Bytes) : Prop := ∃ e ∈ calls, deliveredBy e = some buff

def EtagMatched (request : EvhtpRequest) (calls : CallTrace Im) : Prop :=
  ∃ buff etagVar, Delivered calls buff ∧ request.headerFind "If-None-Match" = some etagVar ∧
    (⟨.strncmp (md5sum buff (Int32.ofNat buff.length)) etagVar 32, true⟩ : Event (Sys Im)) ∈ calls

structure GetContract (request : EvhtpRequest) (calls : CallTrace Im) (result : Int) : Prop where
  ok : result = 1 ↔ ∃ buff, Delivered calls buff ∧ appended calls = [buff]
  notModified : result = 2 ↔ EtagMatched request calls ∧ appended calls = []
  failed : result ≠ 1 → result ≠ 2 → result = -1 ∧ appended calls = []

def Passed (calls : CallTrace Im) : Prop := ∀ e ∈ calls, ¬Lapse e

def Survived (calls : CallTrace Im) : Prop := ∀ e ∈ calls, ¬Crashes e.1

/-! ## Calls that leave the reply alone -/

def Silent : SysOp Im → Prop
  | .evbufferAdd _ | .evbufferAddPrintf _ | .strncmp _ _ _ | .crash => False
  | _ => True

def Risky : SysOp Im → Prop
  | .magick (.readImageBlob _) | .magick (.getImageBlob _) | .redisCommand (.exists _) |
    .crash => True
  | _ => False

def Plain : SysOp Im → Prop
  | .magick (.readImageBlob _) | .magick (.getImageBlob _) | .redisCommand (.exists _) |
    .crash => False
  | op => Silent op

theorem Plain.silent {op : SysOp Im} (h : Plain op) : Silent op := by
  unfold Plain at h
  split at h <;> first | exact h.elim | exact h

theorem Converts.plain {op : SysOp Im} (h : Converts op) : Plain op := by
  unfold Converts at h
  unfold Plain
  split at h <;> simp_all [Silent]

theorem Silent.not_crashes {op : SysOp Im} (h : Silent op) : ¬Crashes op := by
  cases op with
  | crash => exact h.elim
  | _ => exact id

theorem Plain.not_risky {op : SysOp Im} (h : Plain op) : ¬Risky op := by
  unfold Plain at h
  unfold Risky
  split at h <;> simp_all

theorem addedBy_silent {e : Event (Sys Im)} (h : Silent e.1) : addedBy e = none := by
  obtain ⟨op, r⟩ := e
  cases op with
  | evbufferAdd buff => exact False.elim h
  | evbufferAddPrintf text => exact False.elim h
  | _ => rfl

theorem steady_of_not_risky {e : Event (Sys Im)} (h : ¬Risky e.1) : ¬Lapse e ∧ ¬Crashes e.1 := by
  obtain ⟨op, r⟩ := e
  cases op with
  | magick op =>
      cases op with
      | readImageBlob blob => exact absurd trivial h
      | getImageBlob im => exact absurd trivial h
      | _ => exact ⟨id, id⟩
  | redisCommand cmd =>
      cases cmd with
      | «exists» key => exact absurd trivial h
      | _ => exact ⟨id, id⟩
  | crash => exact absurd trivial h
  | _ => exact ⟨id, id⟩

def Unmatched (calls : CallTrace Im) : Prop :=
  ∀ s t n, (⟨.strncmp s t n, true⟩ : Event (Sys Im)) ∉ calls

theorem appended_silent (calls : CallTrace Im) {more : CallTrace Im}
    (silent : ∀ e ∈ more, Silent e.1) : appended (calls ++ more) = appended calls := by
  have none : appended more = [] := by
    rw [appended, List.filterMap_eq_nil_iff]
    exact fun e member => addedBy_silent (silent e member)
  rw [appended, List.filterMap_append]
  exact (congrArg _ none).trans (List.append_nil _)

theorem unmatched_silent {calls more : CallTrace Im} (unmatched : Unmatched calls)
    (silent : ∀ e ∈ more, Silent e.1) : Unmatched (calls ++ more) := by
  intro s t n member
  rcases List.mem_append.mp member with member | member
  · exact unmatched s t n member
  · exact silent _ member

theorem Delivered.mono {calls : CallTrace Im} {buff : Bytes} (h : Delivered calls buff)
    (more : CallTrace Im) : Delivered (calls ++ more) buff := by
  obtain ⟨e, member, delivers⟩ := h
  exact ⟨e, List.mem_append_left _ member, delivers⟩

theorem EtagMatched.mono {request : EvhtpRequest} {calls : CallTrace Im}
    (h : EtagMatched request calls) (more : CallTrace Im) :
    EtagMatched request (calls ++ more) := by
  obtain ⟨buff, etagVar, delivered, header, member⟩ := h
  exact ⟨buff, etagVar, delivered.mono more, header, List.mem_append_left _ member⟩

/-! ## The states a run goes through -/

def Unreported (calls : CallTrace Im) : Prop := Unmatched calls ∧ appended calls = []

def Reported (request : EvhtpRequest) (result : Int) (calls : CallTrace Im) : Prop :=
  (result = 1 ∧ Unmatched calls ∧ ∃ buff, Delivered calls buff ∧ appended calls = [buff]) ∨
  (result = 2 ∧ EtagMatched request calls ∧ appended calls = []) ∨
  (result = -1 ∧ Unreported calls)

theorem Unmatched.not_matched {request : EvhtpRequest} {calls : CallTrace Im}
    (h : Unmatched calls) : ¬EtagMatched request calls := by
  rintro ⟨buff, etagVar, -, -, member⟩
  exact h _ _ _ member

theorem Reported.contract {request : EvhtpRequest} {result : Int} {calls : CallTrace Im}
    (h : Reported request result calls) : GetContract request calls result := by
  rcases h with ⟨rfl, unmatched, buff, delivered, added⟩ | ⟨rfl, matched, added⟩ |
    ⟨rfl, unmatched, added⟩
  · exact ⟨by simpa using ⟨buff, delivered, added⟩, by simp [unmatched.not_matched], by simp⟩
  · exact ⟨by simp [added], by simp [matched, added], by simp⟩
  · exact ⟨by simp [added], by simp [unmatched.not_matched], by simp [added]⟩

theorem Unreported.silent {calls more : CallTrace Im} (h : Unreported calls)
    (silent : ∀ e ∈ more, Silent e.1) : Unreported (calls ++ more) :=
  ⟨unmatched_silent h.1 silent, (appended_silent calls silent).trans h.2⟩

theorem Reported.silent {request : EvhtpRequest} {result : Int} {calls more : CallTrace Im}
    (h : Reported request result calls) (silent : ∀ e ∈ more, Silent e.1) :
    Reported request result (calls ++ more) := by
  rcases h with ⟨rfl, unmatched, buff, delivered, added⟩ | ⟨rfl, matched, added⟩ |
    ⟨rfl, unreported⟩
  · exact .inl ⟨rfl, unmatched_silent unmatched silent, buff, delivered.mono more,
      (appended_silent calls silent).trans added⟩
  · exact .inr (.inl ⟨rfl, matched.mono more, (appended_silent calls silent).trans added⟩)
  · exact .inr (.inr ⟨rfl, unreported.silent silent⟩)

def Steady (calls : CallTrace Im) : Prop := ∀ e ∈ calls, ¬Lapse e ∧ ¬Crashes e.1

theorem Steady.passed {calls : CallTrace Im} (h : Steady calls) : Passed calls :=
  fun e member => (h e member).1

theorem Steady.survived {calls : CallTrace Im} (h : Steady calls) : Survived calls :=
  fun e member => (h e member).2

theorem Steady.append {calls more : CallTrace Im} (h : Steady calls)
    (steady : ∀ e ∈ more, ¬Lapse e ∧ ¬Crashes e.1) : Steady (calls ++ more) := by
  intro e member
  rcases List.mem_append.mp member with member | member
  · exact h e member
  · exact steady e member

theorem Steady.snoc {calls : CallTrace Im} {e : Event (Sys Im)} (h : Steady calls)
    (passed : ¬Lapse e) (survived : ¬Crashes e.1) : Steady (calls ++ [e]) :=
  h.append fun e' member => by
    rw [List.mem_singleton.mp member]
    exact ⟨passed, survived⟩

/-! ## Programs of silent calls -/

section Uses
variable (settings : Settings) (thrArg : ThrArg) (req : ZimgReq)

theorem findCacheBin_plain (key : Bytes) :
    (findCacheBin settings thrArg key : Prog (Sys Im) _).Uses Plain := by
  unfold findCacheBin
  split_ifs <;> simp [Prog.Uses, sys, Plain, Silent]

theorem setCacheBin_plain (key value : Bytes) :
    (setCacheBin settings thrArg key value : Prog (Sys Im) _).Uses Plain := by
  unfold setCacheBin
  split_ifs <;> simp [Prog.Uses, Plain, Silent]

theorem cacheImg_plain (key buff : Bytes) :
    (cacheImg settings thrArg key buff : Prog (Sys Im) _).Uses Plain := by
  unfold cacheImg
  split_ifs
  · exact (setCacheBin_plain settings _ _ _).bind fun _ => trivial
  · trivial

theorem delCache_plain (key : Bytes) :
    (delCache settings thrArg key : Prog (Sys Im) _).Uses Plain := by
  unfold delCache
  split_ifs <;> simp [Prog.Uses, Plain, Silent]

theorem isDir_plain (path : Bytes) : (isDir path : Prog (Sys Im) _).Uses Plain := by
  simp only [isDir, disk_bind, Prog.pure_eq, Prog.Uses]
  refine ⟨trivial, fun kind => ?_⟩
  split <;> trivial

theorem newImg_plain (buff saveName : Bytes) :
    (newImg buff saveName : Prog (Sys Im) _).Uses Plain := by
  simp only [newImg, disk_bind, Prog.pure_eq, Prog.Uses]
  refine ⟨trivial, fun fd => ?_⟩
  split
  · trivial
  · refine ⟨trivial, fun locked => ?_⟩
    dsimp only
    split_ifs
    · exact ⟨trivial, fun _ => trivial⟩
    · refine ⟨trivial, fun wlen => ?_⟩
      dsimp only
      split
      · exact ⟨trivial, fun _ => trivial⟩
      · split_ifs
        · exact ⟨trivial, fun _ => trivial⟩
        · exact ⟨trivial, fun _ => ⟨trivial, fun _ => trivial⟩⟩

theorem saveRsp_plain (toSave : Bool) (buff path : Bytes) :
    (saveRsp settings req toSave buff path : Prog (Sys Im) _).Uses Plain := by
  unfold saveRsp
  split_ifs
  · exact (newImg_plain _ _).bind fun _ => trivial
  · trivial

theorem existBeansdb_plain (key : Bytes) :
    (existBeansdb thrArg key : Prog (Sys Im) _).Uses Plain := by
  unfold existBeansdb
  split_ifs
  · trivial
  · rw [sys_bind]
    refine ⟨trivial, fun r => ?_⟩
    dsimp only
    split <;> trivial

theorem getImgDb_plain (key : Bytes) :
    (getImgDb settings thrArg key : Prog (Sys Im) _).Uses Plain := by
  unfold getImgDb getImgBeansdb getImgSsdb
  split_ifs <;> simp [Prog.Uses, sys, Plain, Silent]
  intro r
  split <;> simp [Prog.Uses]

theorem saveImgDb_plain (key value : Bytes) :
    (saveImgDb settings thrArg key value : Prog (Sys Im) _).Uses Plain := by
  unfold saveImgDb saveImgBeansdb saveImgSsdb
  split_ifs <;> simp [Prog.Uses, Plain, Silent]
  intro r
  split <;> [split_ifs; skip] <;> simp [Prog.Uses]

theorem saveRspDb_plain (toSave : Bool) (buff : Bytes) :
    (saveRspDb settings req toSave buff : Prog (Sys Im) _).Uses Plain := by
  unfold saveRspDb
  split_ifs
  · exact (saveImgDb_plain settings _ _ _).bind fun _ => trivial
  · trivial

theorem convertReq_plain (im : Im) : (convertReq settings im req).Uses Plain :=
  (convertReq_converts settings req im).mono fun _ => Converts.plain

theorem readOrig_silent : (readOrig settings req : Prog (Sys Im) _).Uses Silent := by
  simp only [readOrig, magick_bind, sys_bind, Prog.pure_eq, Prog.Uses]
  refine ⟨trivial, fun im => ?_⟩
  split
  · trivial
  · refine ⟨trivial, fun size => ?_⟩
    dsimp only
    split_ifs
    · refine ⟨trivial, fun im => ⟨trivial, fun blob => ?_⟩⟩
      dsimp only
      split
      · trivial
      · exact ((setCacheBin_plain settings _ _ _).mono fun _ => Plain.silent).bind fun _ => trivial
    · trivial

theorem loadOrig_silent : (loadOrig settings req : Prog (Sys Im) _).Uses Silent := by
  simp only [loadOrig, magick_bind, Prog.pure_eq, Prog.Uses]
  refine ⟨trivial, fun wand => ?_⟩
  split_ifs
  · trivial
  · refine ((findCacheBin_plain settings _ _).mono fun _ => Plain.silent).bind fun held => ?_
    split
    · exact readOrig_silent settings req
    · refine ⟨trivial, fun im => ?_⟩
      dsimp only
      split
      · trivial
      · exact ((delCache_plain settings _ _).mono fun _ => Plain.silent).bind
          fun _ => readOrig_silent settings req

end Uses

/-! ## The contract -/

section Contract
variable {settings : Settings} {req : ZimgReq} {request : EvhtpRequest} {α : Type}
  {calls : CallTrace Im} {buff : Bytes}

theorem unreported_step {p : Prog (Sys Im) α} (uses : p.Uses Silent) (h : Unreported calls) :
    (recorder (Sys Im)).wp p
      (fun _ calls' => Unreported calls' ∧ ∀ buff, Delivered calls buff → Delivered calls' buff)
      calls := by
  refine Machine.wp_mono (recorder_uses uses calls) ?_
  rintro _ _ ⟨more, rfl, silent⟩
  exact ⟨h.silent silent, fun buff delivered => delivered.mono more⟩

theorem reported_step {p : Prog (Sys Im) α} {result : Int} (uses : p.Uses Silent)
    (h : Reported request result calls) :
    (recorder (Sys Im)).wp p (fun _ calls' => Reported request result calls') calls := by
  refine Machine.wp_mono (recorder_uses uses calls) ?_
  rintro _ _ ⟨more, rfl, silent⟩
  exact h.silent silent

theorem steady_step {p : Prog (Sys Im) α} (uses : p.Uses fun op => ¬Risky op)
    (h : Steady calls) : (recorder (Sys Im)).wp p (fun _ calls' => Steady calls') calls := by
  refine Machine.wp_mono (recorder_uses uses calls) ?_
  rintro _ _ ⟨more, rfl, others⟩
  exact h.append fun e member => steady_of_not_risky (others e member)

theorem plain_step {p : Prog (Sys Im) α} (uses : p.Uses Plain) (h : Unreported calls)
    (steady : Steady calls) :
    (recorder (Sys Im)).wp p (fun _ calls' => (Unreported calls' ∧
      ∀ buff, Delivered calls buff → Delivered calls' buff) ∧ Steady calls') calls :=
  Machine.wp_and (unreported_step (uses.mono fun _ => Plain.silent) h)
    (steady_step (uses.mono fun _ => Plain.not_risky) steady)

theorem Unreported.snoc {e : Event (Sys Im)} (h : Unreported calls) (silent : Silent e.1) :
    Unreported (calls ++ [e]) :=
  h.silent fun e' member => by rwa [List.mem_singleton.mp member]

theorem delivered_snoc {e : Event (Sys Im)} (h : deliveredBy e = some buff) :
    Delivered (calls ++ [e]) buff :=
  ⟨e, by simp, h⟩

theorem findCacheBin_delivers (thrArg : ThrArg) (key : Bytes) (h : Unreported calls) :
    (recorder (Sys Im)).wp (findCacheBin settings thrArg key)
      (fun held calls' => Unreported calls' ∧ ∀ buff, held = some buff → Delivered calls' buff)
      calls := by
  unfold findCacheBin
  split_ifs
  · exact ⟨h, by simp⟩
  · exact ⟨h, by simp⟩
  · refine (recorder_call _ _ _ _).mpr fun held => ⟨h.snoc trivial, ?_⟩
    rintro buff rfl
    exact delivered_snoc rfl

theorem getImgDb_delivers (thrArg : ThrArg) (key : Bytes) (h : Unreported calls) :
    (recorder (Sys Im)).wp (getImgDb settings thrArg key)
      (fun held calls' => Unreported calls' ∧ ∀ buff, held = some buff → Delivered calls' buff)
      calls := by
  unfold getImgDb getImgBeansdb getImgSsdb
  split_ifs
  · exact ⟨h, by simp⟩
  · refine (recorder_call _ _ _ _).mpr fun held => ⟨h.snoc trivial, ?_⟩
    rintro buff rfl
    exact delivered_snoc rfl
  · exact ⟨h, by simp⟩
  · rw [sys_bind, recorder_call]
    intro reply
    dsimp only
    split
    · refine ⟨h.snoc trivial, ?_⟩
      rintro buff ⟨⟩
      exact delivered_snoc rfl
    · exact ⟨h.snoc trivial, by simp⟩
  · exact ⟨h, by simp⟩

theorem zimgEtagSet_reports (h : Unreported calls) (delivered : Delivered calls buff) :
    (recorder (Sys Im)).wp (zimgEtagSet request buff)
      (fun result calls' => (result = 1 ∧ Unreported calls' ∧ Delivered calls' buff) ∨
        (result = 2 ∧ EtagMatched request calls' ∧ appended calls' = [])) calls := by
  simp only [zimgEtagSet, sys_bind, Prog.pure_eq]
  split
  · refine (recorder_call _ _ _ _).mpr fun _ => .inl ⟨rfl, h.snoc trivial, delivered.mono _⟩
  · rename_i etagVar header
    refine (recorder_call _ _ _ _).mpr fun same => ?_
    cases same with
    | true =>
        refine .inr ⟨rfl, ⟨buff, etagVar, delivered.mono _, header, by simp⟩, ?_⟩
        rw [appended, List.filterMap_append]
        exact (congrArg (· ++ _) h.2).trans rfl
    | false =>
        have unreported : Unreported (calls ++ [⟨.strncmp (md5sum buff (Int32.ofNat buff.length))
            etagVar 32, false⟩]) := by
          constructor
          · intro s t n member
            rcases List.mem_append.mp member with member | member
            · exact h.1 s t n member
            · simp at member
          · rw [appended, List.filterMap_append]
            exact (congrArg (· ++ _) h.2).trans rfl
        refine (recorder_call _ _ _ _).mpr fun _ =>
          .inl ⟨rfl, unreported.snoc trivial, (delivered.mono _).mono _⟩

theorem evbufferAdd_reports (added : Bool) (h : Unreported calls)
    (delivered : Delivered calls buff) :
    Reported request (if added then 1 else -1) (calls ++ [⟨.evbufferAdd buff, added⟩]) := by
  have unmatched : Unmatched (calls ++ [⟨.evbufferAdd buff, added⟩]) := by
    intro s t n member
    rcases List.mem_append.mp member with member | member
    · exact h.1 s t n member
    · simp at member
  cases added with
  | true =>
      refine .inl ⟨rfl, unmatched, buff, delivered.mono _, ?_⟩
      rw [appended, List.filterMap_append]
      exact (congrArg (· ++ _) h.2).trans rfl
  | false =>
      refine .inr (.inr ⟨rfl, unmatched, ?_⟩)
      rw [appended, List.filterMap_append]
      exact (congrArg (· ++ _) h.2).trans rfl

theorem notModified_reports (h : Unreported calls) (delivered : Delivered calls buff) :
    (recorder (Sys Im)).wp (notModified settings request buff)
      (fun matched calls' => (matched = false ∧ Unreported calls' ∧ Delivered calls' buff) ∨
        (matched = true ∧ EtagMatched request calls' ∧ appended calls' = [])) calls := by
  unfold notModified
  split_ifs
  · rw [Machine.wp_bind]
    refine Machine.wp_mono (zimgEtagSet_reports h delivered) ?_
    rintro _ calls' (⟨rfl, h', delivered'⟩ | ⟨rfl, matched, added⟩)
    · exact .inl ⟨rfl, h', delivered'⟩
    · exact .inr ⟨rfl, matched, added⟩
  · exact .inl ⟨rfl, h, delivered⟩

theorem respond_reports (h : Unreported calls) (delivered : Delivered calls buff) :
    (recorder (Sys Im)).wp (respond settings request buff) (Reported request) calls := by
  unfold respond
  rw [Machine.wp_bind]
  refine Machine.wp_mono (notModified_reports h delivered) ?_
  rintro _ calls' (⟨rfl, h', delivered'⟩ | ⟨rfl, matched, added⟩)
  · rw [if_neg Bool.false_ne_true, sys_bind, recorder_call]
    intro sent
    cases sent with
    | true => exact evbufferAdd_reports true h' delivered'
    | false => exact evbufferAdd_reports false h' delivered'
  · exact .inr (.inl ⟨rfl, matched, added⟩)

theorem respondDb_reports {toSave : Bool} (h : Unreported calls) (delivered : Delivered calls buff) :
    (recorder (Sys Im)).wp (respondDb settings req request buff toSave) (Reported request)
      calls := by
  unfold respondDb
  rw [Machine.wp_bind]
  refine Machine.wp_mono (notModified_reports h delivered) ?_
  rintro _ calls' (⟨rfl, h', delivered'⟩ | ⟨rfl, matched, added⟩)
  · rw [if_neg Bool.false_ne_true, sys_bind, recorder_call]
    intro sent
    cases sent with
    | true =>
        have reported : Reported request 1 _ := evbufferAdd_reports true h' delivered'
        rw [if_pos rfl, Machine.wp_bind]
        exact reported_step ((saveRspDb_plain settings req toSave buff).mono
          fun _ => Plain.silent) reported
    | false => exact evbufferAdd_reports false h' delivered'
  · exact .inr (.inl ⟨rfl, matched, added⟩)

theorem renderImg_delivers (h : Unreported calls) :
    (recorder (Sys Im)).wp (renderImg settings req)
      (fun made calls' => Unreported calls' ∧
        ∀ buff toSave, made = some (buff, toSave) → Delivered calls' buff) calls := by
  simp only [renderImg, magick_bind, Prog.pure_eq]
  rw [Machine.wp_bind]
  refine Machine.wp_mono (unreported_step (loadOrig_silent settings req) h) ?_
  rintro im calls' ⟨h', -⟩
  split
  · exact ⟨h', by simp⟩
  · rename_i im
    rw [Machine.wp_bind]
    refine Machine.wp_mono (unreported_step
      ((convertReq_plain settings req im).mono fun _ => Plain.silent) h') ?_
    rintro ⟨ret, im'⟩ calls'' ⟨h'', -⟩
    dsimp only
    split_ifs
    · exact ⟨h'', by simp⟩
    · refine (recorder_call _ _ _ _).mpr fun blob => ?_
      split
      · exact ⟨h''.snoc trivial, by simp⟩
      · refine ⟨h''.snoc trivial, ?_⟩
        rintro buff toSave ⟨⟩
        exact delivered_snoc rfl

theorem readRsp_delivers (fd : Nat) (h : Unreported calls) :
    (recorder (Sys Im)).wp (readRsp fd)
      (fun held calls' => Unreported calls' ∧ ∀ buff, held = some buff → Delivered calls' buff)
      calls := by
  simp only [readRsp, disk_bind, sys_bind, Prog.pure_eq]
  refine (recorder_call _ _ _ _).mpr fun len => ?_
  have h₁ := h.snoc (e := ⟨.disk (.fstat fd), len⟩) trivial
  split_ifs
  · exact ⟨h₁, by simp⟩
  · refine (recorder_call _ _ _ _).mpr fun ok => ?_
    have h₂ := h₁.snoc (e := ⟨.malloc len, ok⟩) trivial
    split_ifs
    · exact ⟨h₂, by simp⟩
    · refine (recorder_call _ _ _ _).mpr fun held => ?_
      have h₃ := h₂.snoc (e := ⟨.disk (.read fd len), held⟩) trivial
      split
      · exact ⟨h₃, by simp⟩
      · split_ifs with short
        · exact ⟨h₃, by simp⟩
        · refine ⟨h₃, ?_⟩
          rintro buff ⟨⟩
          exact delivered_snoc (if_pos (Nat.le_of_not_lt short))

theorem getImg_reports : (recorder (Sys Im)).wp (getImg settings req request)
    (Reported request) [] := by
  have start : Unreported ([] : CallTrace Im) := ⟨by simp [Unmatched], rfl⟩
  simp only [getImg, makeRsp, sendRsp, disk_bind, Prog.pure_eq]
  rw [Machine.wp_bind]
  refine Machine.wp_mono (unreported_step ((isDir_plain _).mono fun _ => Plain.silent) start) ?_
  rintro dir calls ⟨h, -⟩
  split_ifs
  · exact .inr (.inr ⟨rfl, h⟩)
  rw [Machine.wp_bind]
  refine Machine.wp_mono (findCacheBin_delivers req.thrArg _ h) ?_
  rintro held calls ⟨h, delivers⟩
  split
  · exact respond_reports h (delivers _ rfl)
  refine (recorder_call _ _ _ _).mpr fun fd => ?_
  have h := h.snoc (e := ⟨.disk (.openRead (rspPath settings req)), fd⟩) trivial
  have refresh {buff : Bytes} {calls : CallTrace Im} (h : Unreported calls)
      (delivered : Delivered calls buff) := unreported_step
    ((cacheImg_plain settings req.thrArg (rspCacheKey settings req) buff).mono
      fun _ => Plain.silent) h
  split
  · rw [Machine.wp_bind]
    refine Machine.wp_mono (renderImg_delivers h) ?_
    rintro made calls ⟨h, delivers⟩
    split
    · exact .inr (.inr ⟨rfl, h⟩)
    · rename_i buff toSave
      rw [Machine.wp_bind]
      refine Machine.wp_mono (unreported_step
        ((saveRsp_plain settings req toSave buff _).mono fun _ => Plain.silent) h) ?_
      rintro _ calls ⟨h, kept⟩
      rw [Machine.wp_bind]
      refine Machine.wp_mono (refresh h (kept buff (delivers buff toSave rfl))) ?_
      rintro _ calls' ⟨h', kept'⟩
      exact respond_reports h' (kept' buff (kept buff (delivers buff toSave rfl)))
  · rename_i fd
    rw [Machine.wp_bind]
    refine Machine.wp_mono (readRsp_delivers fd h) ?_
    rintro held calls ⟨h, delivers⟩
    split
    · exact (recorder_call _ _ _ _).mpr fun _ => .inr (.inr ⟨rfl, h.snoc trivial⟩)
    · rename_i buff
      rw [Machine.wp_bind]
      refine Machine.wp_mono (refresh h (delivers buff rfl)) ?_
      rintro _ calls' ⟨h', kept⟩
      rw [Machine.wp_bind]
      refine Machine.wp_mono (respond_reports h' (kept buff (delivers buff rfl))) ?_
      intro result calls'' reported
      exact (recorder_call _ _ _ _).mpr fun _ => reported.silent (by simp [Silent])

/-! ### The end of the process -/

theorem notModified_not_risky (buff : Bytes) :
    (notModified settings request buff : Prog (Sys Im) _).Uses fun op => ¬Risky op := by
  unfold notModified
  split_ifs
  · refine Prog.Uses.bind ?_ fun _ => trivial
    simp only [zimgEtagSet, sys_bind, Prog.pure_eq]
    split
    · exact ⟨id, fun _ => trivial⟩
    · refine ⟨id, fun same => ?_⟩
      dsimp only
      split_ifs
      · trivial
      · exact ⟨id, fun _ => trivial⟩
  · trivial

theorem not_crashes_of_not_risky {op : SysOp Im} (h : ¬Risky op) : ¬Crashes op := by
  cases op with
  | crash => exact absurd trivial h
  | _ => exact id

theorem respond_survives (buff : Bytes) :
    (respond settings request buff : Prog (Sys Im) _).Uses fun op => ¬Crashes op := by
  unfold respond
  refine ((notModified_not_risky buff).mono fun _ => not_crashes_of_not_risky).bind fun matched => ?_
  split_ifs
  · trivial
  · rw [sys_bind]
    refine ⟨id, fun sent => ?_⟩
    dsimp only
    split_ifs <;> trivial

theorem renderImg_silent : (renderImg settings req : Prog (Sys Im) _).Uses Silent := by
  unfold renderImg
  refine (loadOrig_silent settings req).bind fun im => ?_
  split
  · trivial
  · refine ((convertReq_plain settings req _).mono fun _ => Plain.silent).bind fun value => ?_
    dsimp only
    split_ifs
    · trivial
    · rw [magick_bind]
      refine ⟨trivial, fun blob => ?_⟩
      dsimp only
      split <;> trivial

theorem readRsp_silent (fd : Nat) : (readRsp fd : Prog (Sys Im) _).Uses Silent := by
  simp only [readRsp, disk_bind, sys_bind, Prog.pure_eq]
  refine ⟨trivial, fun len => ?_⟩
  dsimp only
  split_ifs
  · trivial
  · refine ⟨trivial, fun ok => ?_⟩
    dsimp only
    split_ifs
    · trivial
    · refine ⟨trivial, fun held => ?_⟩
      dsimp only
      split
      · trivial
      · split_ifs <;> trivial

theorem getImg_survives :
    (getImg settings req request : Prog (Sys Im) _).Uses fun op => ¬Crashes op := by
  have plain {α : Type} {p : Prog (Sys Im) α} (uses : p.Uses Plain) :
      p.Uses fun op => ¬Crashes op := uses.mono fun _ h => h.silent.not_crashes
  have silent {α : Type} {p : Prog (Sys Im) α} (uses : p.Uses Silent) :
      p.Uses fun op => ¬Crashes op := uses.mono fun _ => Silent.not_crashes
  unfold getImg
  refine (plain (isDir_plain _)).bind fun dir => ?_
  split_ifs
  · trivial
  refine (plain (findCacheBin_plain settings _ _)).bind fun held => ?_
  split
  · exact respond_survives _
  rw [disk_bind]
  refine ⟨id, fun fd => ?_⟩
  dsimp only
  split
  · refine (silent (renderImg_silent)).bind fun made => ?_
    split
    · trivial
    · exact (plain (saveRsp_plain settings req _ _ _)).bind fun _ =>
        (plain (cacheImg_plain settings _ _ _)).bind fun _ => respond_survives _
  · refine (silent (readRsp_silent _)).bind fun held => ?_
    split
    · rw [disk_bind]
      exact ⟨id, fun _ => trivial⟩
    · refine (plain (cacheImg_plain settings _ _ _)).bind fun _ =>
        (respond_survives _).bind fun result => ?_
      rw [disk_bind]
      exact ⟨id, fun _ => trivial⟩

/-! ### The database modes -/

theorem respondDb_not_risky (toSave : Bool) (buff : Bytes) :
    (respondDb settings req request buff toSave : Prog (Sys Im) _).Uses fun op => ¬Risky op := by
  unfold respondDb
  refine (notModified_not_risky buff).bind fun matched => ?_
  split_ifs
  · trivial
  · rw [sys_bind]
    refine ⟨id, fun sent => ?_⟩
    dsimp only
    split_ifs
    · exact ((saveRspDb_plain settings req toSave buff).mono fun _ => Plain.not_risky).bind
        fun _ => trivial
    · trivial

theorem loadOrigDb_plain : (loadOrigDb settings req : Prog (Sys Im) _).Uses Plain := by
  unfold loadOrigDb
  refine (findCacheBin_plain settings _ _).bind fun held => ?_
  split
  · trivial
  · refine (getImgDb_plain settings _ _).bind fun held => ?_
    split
    · trivial
    · exact (cacheImg_plain settings _ _ _).bind fun _ => trivial

def Kept (request : EvhtpRequest) (result : Int) (calls : CallTrace Im) : Prop :=
  GetContract request calls result ∧ Survived calls ↔ Passed calls

theorem kept_reported {result : Int} (reported : Reported request result calls)
    (steady : Steady calls) : Kept request result calls :=
  iff_of_true ⟨reported.contract, steady.survived⟩ steady.passed

theorem existDb_steady (thrArg : ThrArg) (key : Bytes) (h : Unreported calls)
    (steady : Steady calls) :
    (recorder (Sys Im)).wp (existDb settings thrArg key) (fun r calls' =>
      (Unreported calls' ∧ Steady calls') ∨ (r = -1 ∧ ¬Survived calls' ∧ ¬Passed calls')) calls := by
  unfold existDb
  split_ifs
  · rw [Machine.wp_bind]
    refine Machine.wp_mono (plain_step (existBeansdb_plain _ _) h steady) ?_
    rintro r calls' ⟨⟨h', -⟩, steady'⟩
    split <;> exact .inl ⟨h', steady'⟩
  · unfold existSsdb
    split_ifs
    · exact .inl ⟨h, steady⟩
    rw [Machine.wp_bind, sys_bind, recorder_call]
    intro reply
    cases reply with
    | none =>
        refine (recorder_call _ _ _ _).mpr fun _ => .inr ⟨rfl, fun survived => ?_, fun passed => ?_⟩
        · exact survived ⟨.crash, ()⟩ (by simp) trivial
        · exact passed ⟨.redisCommand (.exists key), none⟩ (by simp) trivial
    | some r =>
        have h' := h.snoc (e := ⟨.redisCommand (.exists key), some r⟩) trivial
        have steady' := steady.snoc (e := ⟨.redisCommand (.exists key), some r⟩) id id
        dsimp only
        rw [freeReplyObject_some, Prog.ret_bind]
        split <;> exact .inl ⟨h', steady'⟩
  · exact .inl ⟨h, steady⟩

/-- After a lapse nothing is in the buffer, so no result but a failure would keep the contract. -/
theorem kept_lapse {result : Int} {e : Event (Sys Im)} (h : Unreported calls) (silent : Silent e.1)
    (lapse : Lapse e) (other : result ≠ -1) : Kept request result (calls ++ [e]) := by
  have h' := h.snoc silent
  refine iff_of_false (fun ⟨contract, _⟩ => ?_) fun passed => passed e (by simp) lapse
  by_cases one : result = 1
  · obtain ⟨buff, -, added⟩ := contract.ok.mp one
    simp [h'.2] at added
  · by_cases two : result = 2
    · exact h'.1.not_matched (contract.notModified.mp two).1
    · exact other (contract.failed one two).1

theorem respondDb_keeps {toSave : Bool} (h : Unreported calls) (steady : Steady calls)
    (delivered : Delivered calls buff) :
    (recorder (Sys Im)).wp (respondDb settings req request buff toSave) (Kept request) calls :=
  Machine.wp_mono (Machine.wp_and (respondDb_reports h delivered)
    (steady_step (respondDb_not_risky toSave buff) steady))
    fun _ _ both => kept_reported both.1 both.2

theorem getImgModeDb_keeps : (recorder (Sys Im)).wp (getImgModeDb settings req request)
    (Kept request) [] := by
  have start : Unreported ([] : CallTrace Im) := ⟨by simp [Unmatched], rfl⟩
  have fresh : Steady ([] : CallTrace Im) := by simp [Steady]
  have failed {calls : CallTrace Im} (h : Unreported calls) (steady : Steady calls) :
      Kept request (-1) calls := kept_reported (.inr (.inr ⟨rfl, h⟩)) steady
  simp only [getImgModeDb, makeRspDb, magick_bind, Prog.pure_eq]
  rw [Machine.wp_bind]
  refine Machine.wp_mono (existDb_steady req.thrArg req.md5.bytes start fresh) ?_
  rintro stored calls (⟨h, steady⟩ | ⟨rfl, crashed, lapsed⟩)
  swap
  · rw [if_pos rfl]
    exact iff_of_false (fun both => crashed both.2) lapsed
  split_ifs
  · exact failed h steady
  rw [Machine.wp_bind]
  refine Machine.wp_mono (Machine.wp_and (findCacheBin_delivers req.thrArg _ h) (steady_step
    ((findCacheBin_plain settings _ _).mono fun _ => Plain.not_risky) steady)) ?_
  rintro held calls ⟨⟨h, delivers⟩, steady⟩
  split
  · exact respondDb_keeps h steady (delivers _ rfl)
  rw [Machine.wp_bind]
  refine Machine.wp_mono (Machine.wp_and (getImgDb_delivers req.thrArg _ h) (steady_step
    ((getImgDb_plain settings _ _).mono fun _ => Plain.not_risky) steady)) ?_
  rintro held calls ⟨⟨h, delivers⟩, steady⟩
  split
  · rename_i buff
    rw [Machine.wp_bind]
    refine Machine.wp_mono (plain_step (cacheImg_plain settings _ _ _) h steady) ?_
    rintro _ calls' ⟨⟨h', kept⟩, steady'⟩
    exact respondDb_keeps h' steady' (kept buff (delivers buff rfl))
  refine (recorder_call _ _ _ _).mpr fun wand => ?_
  have h := h.snoc (e := ⟨.magick .newWand, wand⟩) trivial
  have steady := steady.snoc (e := ⟨.magick .newWand, wand⟩) id id
  split_ifs
  · exact failed h steady
  rw [Machine.wp_bind]
  refine Machine.wp_mono (plain_step (loadOrigDb_plain) h steady) ?_
  rintro origBuff calls ⟨⟨h, -⟩, steady⟩
  split
  · exact failed h steady
  rename_i origBuff
  refine (recorder_call _ _ _ _).mpr fun im => ?_
  cases im with
  | none => exact kept_lapse h trivial trivial (by decide)
  | some im =>
    dsimp only
    have h := h.snoc (e := ⟨.magick (.readImageBlob origBuff), some im⟩) trivial
    have steady := steady.snoc (e := ⟨.magick (.readImageBlob origBuff), some im⟩) id id
    rw [Machine.wp_bind]
    refine Machine.wp_mono (plain_step (convertReq_plain settings req im) h steady) ?_
    rintro ⟨result, im'⟩ calls ⟨⟨h, -⟩, steady⟩
    dsimp only
    split_ifs with code
    · exact failed h steady
    refine (recorder_call _ _ _ _).mpr fun blob => ?_
    cases blob with
    | none => exact kept_lapse h trivial trivial code
    | some buff =>
      dsimp only
      have h := h.snoc (e := ⟨.magick (.getImageBlob im'), some buff⟩) trivial
      have steady := steady.snoc (e := ⟨.magick (.getImageBlob im'), some buff⟩) id id
      rw [Machine.wp_bind]
      refine Machine.wp_mono (plain_step (cacheImg_plain settings _ _ _) h steady) ?_
      rintro _ calls' ⟨⟨h', kept⟩, steady'⟩
      exact respondDb_keeps h' steady' (kept buff (delivered_snoc rfl))

end Contract
end Ximg
