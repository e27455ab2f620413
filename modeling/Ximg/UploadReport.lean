import Ximg.UploadFilter

/-!
# What an upload reports

The list of results and the counter, next to the calls of `save_img` that the callbacks made.
-/

namespace Ximg
open Text Calls

structure SaveCall where
  buff : Bytes
  result : Int
  md5sum : Bytes

def saveCall : Event Http → Option SaveCall
  | ⟨.saveImg buff, (result, md5sum)⟩ => some ⟨buff, result, md5sum⟩
  | _ => none

def saveCalls (log : List (Event Http)) : List SaveCall := log.filterMap saveCall

def SaveCall.info (call : SaveCall) : ImgInfo :=
  if call.result = -1 then Report.failed.info
  else (Report.saved call.md5sum call.buff.length).info

/-- Apart from the refused names the list reports the calls, the last one first, and the counter
counts the entries of saved images. -/
structure Told (mpArg : MpArg) (calls : List SaveCall) : Prop where
  told : mpArg.list.reverse.filter (fun info => info.msg ≠ "File type is not supported!") =
    calls.map SaveCall.info
  saved : (mpArg.list.reverse.filter fun info => info.code = 200).map
      (fun info => (info.md5, info.size)) =
    (calls.filter fun call => call.result ≠ -1).map fun call => (call.md5sum, call.buff.length)
  count : mpArg.succno = (mpArg.list.filter fun info => info.code = 200).length

section Reports
variable {mpArg mpArg' : MpArg} {calls : List SaveCall}

theorem Told.same (told : Told mpArg calls) (list : mpArg'.list = mpArg.list)
    (succno : mpArg'.succno = mpArg.succno) : Told mpArg' calls := by
  obtain ⟨told, saved, count⟩ := told
  constructor
  · rw [list]
    exact told
  · rw [list]
    exact saved
  · rw [list, succno]
    exact count

theorem Told.refused (told : Told mpArg calls) (filename : Bytes) :
    Told { mpArg with list := (Report.refused filename).info :: mpArg.list } calls := by
  obtain ⟨told, saved, count⟩ := told
  constructor
  · rw [List.reverse_cons, List.filter_append, told]
    simp [Report.info]
  · rw [List.reverse_cons, List.filter_append, List.map_append, saved]
    simp [Report.info]
  · simp [Report.info, count]

theorem Told.failed (told : Told mpArg calls) (buff md5sum : Bytes) :
    Told { mpArg with list := Report.failed.info :: mpArg.list } (calls ++ [⟨buff, -1, md5sum⟩]) := by
  obtain ⟨told, saved, count⟩ := told
  constructor
  · rw [List.reverse_cons, List.filter_append, told, List.map_append]
    simp [Report.info, SaveCall.info]
  · rw [List.reverse_cons, List.filter_append, List.map_append, saved, List.filter_append]
    simp [Report.info]
  · simp [Report.info, count]

theorem Told.succeeded (told : Told mpArg calls) (buff md5sum : Bytes) {result : Int}
    (success : result ≠ -1) :
    Told { mpArg with
        succno := mpArg.succno + 1
        list := (Report.saved md5sum buff.length).info :: mpArg.list }
      (calls ++ [⟨buff, result, md5sum⟩]) := by
  obtain ⟨told, saved, count⟩ := told
  constructor
  · rw [List.reverse_cons, List.filter_append, told, List.map_append]
    simp [Report.info, SaveCall.info, success]
  · rw [List.reverse_cons, List.filter_append, List.map_append, saved, List.filter_append]
    simp [Report.info, success]
  · simp [Report.info, count]

end Reports

theorem savedImages_calls (log : List (Event Http)) :
    savedImages log = (saveCalls log).map SaveCall.buff := by
  rw [savedImages, saveCalls, List.map_filterMap]
  congr 1
  funext e
  obtain ⟨op, r⟩ := e
  cases op <;> rfl

/-! ## The callbacks -/

section Callbacks
variable {settings : HttpSettings} {alloc : Nat → Bool} {log before : List (Event Http)}
  {mpArg : MpArg} {room : Nat}

def Reporting (before : List (Event Http)) (room : Nat) (mpArg : MpArg)
    (log : List (Event Http)) : Prop :=
  room ≤ mpArg.mem.length ∧ ∃ calls, saveCalls log = saveCalls before ++ calls ∧ Told mpArg calls

theorem checkQuoted_same (mpArg : MpArg) (filename start length : Nat) :
    (checkQuoted mpArg filename start length).list = mpArg.list ∧
      (checkQuoted mpArg filename start length).succno = mpArg.succno ∧
      (checkQuoted mpArg filename start length).mem.length = mpArg.mem.length := by
  unfold checkQuoted
  split
  · exact ⟨rfl, rfl, rfl⟩
  · dsimp only
    split
    · exact ⟨rfl, rfl, List.length_set⟩
    · exact ⟨rfl, rfl, List.length_set⟩

theorem headerValueCb_reporting (reporting : Reporting before room mpArg log) (start length : Nat) :
    (serving alloc).wp (headerValueCb settings .up mpArg start length)
      (fun r log' => Reporting before room r.2 log') log := by
  have refuse {mpArg : MpArg} (reporting : Reporting before room mpArg log) (filename : Bytes) :
      (serving alloc).wp
        (if filename ≠ [] ∧ mpArg.checkName = -1 then do
          return ((0 : Int32), ← report settings .up (.refused filename) mpArg)
        else return (0, mpArg)) (fun r log' => Reporting before room r.2 log') log := by
    split
    · obtain ⟨whole, calls, made, told⟩ := reporting
      exact ⟨whole, calls, made, told.refused filename⟩
    · exact reporting
  unfold headerValueCb
  split
  · exact reporting
  rename_i found _
  apply refuse
  split
  · obtain ⟨whole, calls, made, told⟩ := reporting
    obtain ⟨list, succno, mem⟩ := checkQuoted_same mpArg (found + 9 + 1) start length
    exact ⟨by rwa [mem], calls, made, told.same list succno⟩
  · exact reporting

theorem chunkDataCb_reporting (reporting : Reporting before room mpArg log) {start length : Nat}
    (inside : start + length ≤ room) :
    (serving alloc).wp (chunkDataCb settings .up mpArg start length)
      (fun r log' => Reporting before room r.2 log') log := by
  obtain ⟨whole, calls, made, told⟩ := reporting
  have size : ((mpArg.mem.drop start).take length).length = length := by
    rw [List.length_take, List.length_drop]
    omega
  unfold chunkDataCb
  dsimp only
  split
  · exact ⟨whole, calls, made, told.same rfl rfl⟩
  split
  · exact ⟨whole, calls, made, told.same rfl rfl⟩
  intro allocated _
  have made : saveCalls (log ++ [⟨.malloc, allocated⟩]) = saveCalls before ++ calls := by
    rw [saveCalls, List.filterMap_append, ← saveCalls, made]
    exact List.append_nil _
  cases allocated with
  | false => exact ⟨whole, calls, made, told.same rfl rfl⟩
  | true =>
      intro r _
      have made (call : SaveCall)
          (last : saveCall ⟨.saveImg ((mpArg.mem.drop start).take length), r⟩ = some call) :
          saveCalls ((log ++ [⟨.malloc, true⟩]) ++
            [⟨.saveImg ((mpArg.mem.drop start).take length), r⟩]) =
            saveCalls before ++ (calls ++ [call]) := by
        rw [saveCalls, List.filterMap_append, ← saveCalls, made, List.append_assoc]
        simp [last]
      obtain ⟨result, md5sum⟩ := r
      have counted : Told { mpArg with partno := mpArg.partno + 1 } calls := told.same rfl rfl
      show (serving alloc).wp (if result = -1 then _ else _) _ _
      split
      · rename_i failed
        subst failed
        refine ⟨whole, _, made _ rfl, ?_⟩
        exact counted.failed _ md5sum
      · rename_i success
        refine ⟨whole, _, made _ rfl, ?_⟩
        have told' := counted.succeeded ((mpArg.mem.drop start).take length) md5sum success
        rw [size] at told'
        exact told'

variable {P buf : Bytes}

theorem multipartCallbacks_reporting (reporting : Reporting before buf.length mpArg log)
    (small : buf.length < 2 ^ 64) (op : MultipartOp) (fine : Fine P buf ⟨op, quietAnswer P buf op⟩) :
    (serving alloc).wp (multipartCallbacks settings .up P op mpArg)
      (fun r log' => Reporting before buf.length r.2 log') log := by
  cases op with
  | buf i => exact reporting
  | boundary i => exact reporting
  | notify cb => exact reporting
  | emit cb first last =>
      cases cb with
      | headerField => exact reporting
      | headerValue => exact headerValueCb_reporting reporting _ _
      | chunkData =>
          obtain ⟨sorted, inside, -⟩ := fine
          apply chunkDataCb_reporting reporting
          rw [wrap_sub (by omega) sorted]
          omega

theorem runMultipart_reporting {mem : Bytes} (nonempty : P ≠ []) (small : buf.length < 2 ^ 64)
    (holds : mem.take buf.length = buf) :
    (serving alloc).wp (runMultipart settings .up P buf.length ⟨mem, 0, 0, 0, []⟩)
      (fun r log' => Reporting log buf.length r.2 log') log := by
  have room : buf.length ≤ mem.length := by
    have length := congrArg List.length holds
    rw [List.length_take] at length
    omega
  have initial : Reporting log buf.length ⟨mem, 0, 0, 0, []⟩ log :=
    ⟨room, [], (List.append_nil _).symm, rfl, rfl, rfl⟩
  refine Machine.wp_mono (runMultipart_keeps nonempty small holds initial
    fun op mpArg log' fine kept => multipartCallbacks_reporting kept small op fine) ?_
  exact fun r log' kept => kept.2

end Callbacks

theorem savedParts_sublist {api : Api} {alloc : Nat → Bool} {asked : Nat} {parts : List FoundPart} :
    (savedParts api alloc asked parts).Sublist parts := by
  induction parts generalizing asked with
  | nil => exact List.Sublist.slnil
  | cons part parts ih =>
      rw [savedParts]
      split_ifs
      · exact ih.cons part
      · exact ih.cons_cons part
      · exact ih.cons_cons part
      · exact ih.cons part

/-- The report of an upload is about the calls of `save_img` that it made, and these are about the
parts that are neither empty nor refused. -/
theorem upload_report (settings : HttpSettings) (alloc : Nat → Bool) (boundary body beyond : Bytes)
    (log : List (Event Http)) (small : body.length < 2 ^ 64) :
    let P := minus :: minus :: boundary
    (serving alloc).wp (runMultipart settings .up P body.length ⟨body ++ beyond, 0, 0, 0, []⟩)
      (fun r log' => ∃ calls, saveCalls log' = saveCalls log ++ calls ∧ Told r.2 calls ∧
        ∃ parts : List FoundPart, parts.Sublist (bodyParts P body) ∧
          calls.map SaveCall.buff = parts.map FoundPart.content ∧
          ∀ part ∈ parts, part.content ≠ [] ∧ ¬∃ value ∈ part.values, Refuses value) log := by
  intro P
  have holds : (body ++ beyond).take body.length = body := List.take_left
  have nonempty : P ≠ [] := List.cons_ne_nil _ _
  refine Machine.wp_mono (Machine.wp_and (runMultipart_saves nonempty small holds)
    (runMultipart_reporting nonempty small holds)) ?_
  rintro r log' ⟨saves, -, calls, made, told⟩
  refine ⟨calls, made, told, savedParts .up alloc (mallocs log) (bodyParts P body),
    savedParts_sublist, ?_, ?_⟩
  · rw [savedImages_calls, savedImages_calls, made, List.map_append] at saves
    exact List.append_cancel_left saves
  · intro part member
    obtain ⟨-, kept⟩ := savedParts_skipped part member
    exact ⟨fun empty => kept (.inl empty), fun bad => kept (.inr bad)⟩

theorem upload_report_small :
    (serving fun _ => true).wp
      (runMultipart uploadSettings .up (ascii "--b") tokenBody.length ⟨tokenBody ++ [], 0, 0, 0, []⟩)
      (fun r log' => ∃ calls, saveCalls log' = saveCalls [] ++ calls ∧ Told r.2 calls ∧
        ∃ parts : List FoundPart, parts.Sublist (bodyParts (ascii "--b") tokenBody) ∧
          calls.map SaveCall.buff = parts.map FoundPart.content ∧
          ∀ part ∈ parts, part.content ≠ [] ∧ ¬∃ value ∈ part.values, Refuses value) [] :=
  upload_report uploadSettings (fun _ => true) (ascii "b") tokenBody [] [] (by decide +kernel)

end Ximg
