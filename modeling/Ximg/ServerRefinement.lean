import Ximg.CallbackSpecs
import Ximg.Service

/-!
# The server behaves as a map of images

Every history of the server over the disk, the cache or a backend is one of its specification over a
map, with the same replies byte for byte.
-/

namespace Ximg
open Text Vfs Calls

variable {Im : Type} {env : Env Im} {settings : Settings} {base : Loc} {w : World} {h : Md5}
  {buff : Bytes} {m : ImageMap} {ops : List StoreOp} {thrArg : ThrArg} {cmd : Int32}

/-! ## The store functions -/

section Store
variable (safe : CacheSafe settings env ops) (free : FaultFree env)
  (short : settings.mode = 1 → settings.imgPath.bytes.length ≤ 254)

include safe free short in
theorem wp_saveImg_result (honest : Honest settings env ops base w m)
    (member : .upload thrArg buff ∈ ops) :
    env.machine.wp (saveImg settings thrArg buff) (fun r _ => r.2 = (md5Of buff).bytes ∧
      (Connected settings thrArg ∧ Storable settings (md5Of buff) → r.1 = 1) ∧
      (¬Connected settings thrArg → r.1 = -1)) w := by
  by_cases connected : Connected settings thrArg
  · refine Machine.wp_mono (wp_saveImg short free.faults free.deletes connected
      (safe.nonempty thrArg buff member) honest.stores) ?_
    rintro r w' ⟨name, -, -, stored, -⟩
    exact ⟨name, fun both => (stored both.2).1, fun un => absurd connected un⟩
  · have unconnected := connected
    rw [Connected, not_or] at connected
    unfold saveImg
    dsimp only
    rw [if_pos connected.1, saveImgModeDb, existDb_unconnected connected.2]
    simp only [Prog.ret_bind]
    rw [if_neg (by decide), saveImgDb_unconnected connected.2]
    exact ⟨rfl, fun both => absurd both.1 unconnected, fun _ => rfl⟩

include safe free short in
theorem wp_saveImg_served (honest : Honest settings env ops base w m)
    (member : .upload thrArg buff ∈ ops) :
    env.machine.wp (saveImg settings thrArg buff) (fun r w' =>
      (r.2 = (md5Of buff).bytes ∧
        (Connected settings thrArg ∧ Storable settings (md5Of buff) → r.1 = 1) ∧
        (¬Connected settings thrArg → r.1 = -1)) ∧
      Honest settings env ops base w' (m.next settings (.upload thrArg buff)) ∧
      w'.reply = w.reply) w :=
  Machine.wp_and (wp_saveImg_result safe free short honest member)
    (Machine.wp_and (wp_saveImg_honest safe free short honest member) (wp_mute (saveImg_mute _)))

include safe free short in
theorem wp_callGetImg_served {req : ZimgReq} {request : EvhtpRequest}
    (honest : Honest settings env ops base w m) (member : .get req request ∈ ops) :
    env.machine.wp (callGetImg settings req request) (fun r w' =>
      Answered settings env m req request w.reply r w' ∧ Honest settings env ops base w' m) w := by
  unfold callGetImg
  split
  · rename_i mode
    exact wp_getImg_answered safe free member mode (short mode) honest
  · rename_i mode
    exact wp_getImgModeDb_answered safe free member mode honest

theorem wp_addInfo_eq {im : Im} {Q : Unit → World → Prop} :
    env.machine.wp (addInfo im) Q w ↔ Q () { w with out := w.out ++ infoText env im } := by
  simp [addInfo, sys, infoText]

include free short in
theorem wp_callInfoImg_served (honest : Honest settings env ops base w m) :
    env.machine.wp (callInfoImg settings thrArg h.bytes) (fun r w' =>
      r = (infoReply settings env m thrArg h).1 ∧
      w' = { w with out := w.out ++ (infoReply settings env m thrArg h).2 }) w := by
  have same : { w with out := w.out ++ [] } = w := by rw [List.append_nil]
  unfold callInfoImg
  split
  · rename_i mode
    have connected : Connected settings thrArg := .inl mode
    obtain ⟨t, n, idle, holds⟩ := honest.stores.disk mode
    have tree : w.disk.tree = t := by rw [idle]; rfl
    rw [infoReply, if_pos connected]
    simp only [infoImg, sys_bind, magick_bind, Prog.pure_eq]
    rw [Machine.wp_bind, wp_isDir, wholePath_short (short mode), tree,
      holds.shape.lookup_whole h]
    cases stored : m h with
    | none =>
        rw [if_neg fun hd => holds.dir_iff.mp hd stored, if_pos rfl]
        exact ⟨rfl, same.symm⟩
    | some buff =>
        have hd := holds.dir_iff.mpr (by simp [stored] : m h ≠ none)
        rw [if_pos hd, if_neg (by decide), Env.wp_magick, free.newWand, if_neg Bool.noConfusion,
          Env.wp_readImage, calm_readImage, tree, holds.lookup_orig (short mode) stored]
        dsimp only
        cases env.lib (.readImageBlob buff) with
        | none => exact ⟨rfl, same.symm⟩
        | some im =>
            dsimp only
            rw [Machine.wp_bind, wp_addInfo_eq]
            exact ⟨rfl, rfl⟩
  · rename_i mode
    by_cases backend : Backend settings thrArg
    · rw [infoReply, if_pos (.inr backend)]
      simp only [infoImgModeDb, magick_bind, Prog.pure_eq]
      rw [Machine.wp_bind, wp_getImgDb backend, honest.stores.db mode h]
      cases m h with
      | none => exact ⟨rfl, same.symm⟩
      | some buff =>
          dsimp only
          rw [Env.wp_magick, free.newWand, if_neg Bool.noConfusion, Env.wp_magick]
          cases env.lib (.readImageBlob buff) with
          | none => exact ⟨rfl, same.symm⟩
          | some im =>
              dsimp only
              rw [Machine.wp_bind, wp_addInfo_eq]
              exact ⟨rfl, rfl⟩
    · have unconnected : ¬Connected settings thrArg := fun connected =>
        backend (connected.resolve_left mode)
      rw [infoImgModeDb, getImgDb_unconnected backend, infoReply, if_neg unconnected]
      exact ⟨rfl, same.symm⟩

/-! ### Deletes -/

theorem adminPage_ne_nil (h : Md5) (cmd : Int32) : adminPage h.bytes cmd ≠ [] := by
  unfold adminPage
  exact List.append_ne_nil_of_left_ne_nil (List.cons_ne_nil _ _) _

def World.reportedReply (w : World) (h : Md5) (cmd : Int32) : Bytes × List (Bytes × Bytes) :=
  (w.out ++ adminPage h.bytes cmd, w.headersOut ++ [(ascii "Content-Type", ascii "text/html")])

theorem wp_report {p : Prog (Sys Im) Int} (mute : p.Uses Mute) {r₀ : Int} :
    env.machine.wp (do
      if (← p) ≠ -1 then
        addAdminPage h.bytes cmd
        return 1
      else return r₀) (fun _ w' => w'.reply = w.reply ∨ w'.reply = w.reportedReply h cmd) w := by
  rw [Machine.wp_bind]
  refine Machine.wp_mono (wp_mute mute) ?_
  intro r w' same
  split
  · rw [Machine.wp_bind, wp_addAdminPage]
    refine .inr ?_
    obtain ⟨out, headers⟩ := Prod.mk.inj same
    simp [World.reply, World.reported, World.reportedReply, out, headers]
  · exact .inl same

theorem wp_callAdminImg_reply :
    env.machine.wp (callAdminImg settings thrArg h.bytes cmd) (fun _ w' =>
      w'.reply = w.reply ∨ w'.reply = w.reportedReply h cmd) w := by
  unfold callAdminImg
  split
  · rw [adminImg, Machine.wp_bind, wp_isDir]
    split
    · rw [if_neg (by decide)]
      split
      · exact wp_report ((deleteFile_removes _ _).mono fun _ => Removes.mute)
      · exact .inl rfl
    · exact .inl rfl
  · unfold adminImgModeDb
    dsimp only
    rw [Machine.wp_bind]
    refine Machine.wp_mono (wp_mute (existDb_mute _)) ?_
    intro r w' same
    have same' : w'.reportedReply h cmd = w.reportedReply h cmd := by
      obtain ⟨out, headers⟩ := Prod.mk.inj same
      simp [World.reportedReply, out, headers]
    split
    · exact .inl same
    split
    · refine Machine.wp_mono (wp_report (delDb_mute _)) ?_
      intro _ w'' replied
      rwa [same, same'] at replied
    · exact .inl same

include free short in
theorem wp_callAdminImg_served (honest : Honest settings env ops base w m) :
    env.machine.wp (callAdminImg settings thrArg h.bytes cmd) (fun r w' =>
      r = adminReply settings m thrArg h cmd ∧
      Honest settings env ops base w' (if Erases settings m thrArg h cmd then m.remove h else m) ∧
      w'.reply = if Erases settings m thrArg h cmd then w.reportedReply h cmd else w.reply) w := by
  have map : m.next settings (.admin thrArg h cmd) =
      if Erases settings m thrArg h cmd then m.remove h else m := by
    unfold Erases ImageMap.next
    by_cases stored : m h = none
    · simp [stored, ImageMap.remove_absent stored]
    · simp [stored]
  have result : env.machine.wp (callAdminImg settings thrArg h.bytes cmd) (fun r w' =>
      r = adminReply settings m thrArg h cmd ∧
      w'.out = if Erases settings m thrArg h cmd then w.out ++ adminPage h.bytes cmd else w.out)
      w := by
    by_cases connected : Connected settings thrArg
    · refine wp_callAdminImg short free.deletes connected honest.stores (fun missing => ?_)
        (fun present other => ?_) fun w' present isDelete _ out _ _ => ?_
      · simp [adminReply, Erases, missing]
      · simp [adminReply, Erases, connected, present, other]
      · simp [adminReply, Erases, connected, present, isDelete, World.reported, out]
    · have unconnected := connected
      rw [Connected, not_or] at connected
      rw [callAdminImg, if_neg connected.1, adminImgModeDb, h.strLcpy,
        existDb_unconnected connected.2]
      simp [adminReply, Erases, unconnected]
  refine Machine.wp_mono (Machine.wp_and result (Machine.wp_and
    (wp_callAdminImg_honest free short honest) wp_callAdminImg_reply)) ?_
  rintro r w' ⟨⟨code, out⟩, honest', replied⟩
  rw [map] at honest'
  refine ⟨code, honest', ?_⟩
  split at out
  · rename_i erases
    rw [if_pos erases]
    refine replied.resolve_left fun same => ?_
    rw [(Prod.mk.inj same).1, eq_comm, List.append_right_eq_self] at out
    exact adminPage_ne_nil h cmd out
  · rename_i keeps
    rw [if_neg keeps]
    refine replied.resolve_right fun reported => ?_
    have page := (Prod.mk.inj reported).1
    rw [out, eq_comm, List.append_right_eq_self] at page
    exact adminPage_ne_nil h cmd page

end Store

/-! ## The simulation -/

structure Mirrors (settings : Settings) (env : Env Im) (ops : List StoreOp) (base : Loc)
    (s : Service) (t : World × Outside) : Prop where
  honest : Honest settings env ops base t.1 s.map
  reply : t.1.reply = (s.out, s.headersOut)
  sent : t.2.sent = s.sent
  made : t.2.made = s.made

def MadeOf (ops : List StoreOp) (t : World × Outside) : Prop := ∀ op ∈ t.2.made, op ∈ ops

def NamesImage : (Http.sum Session).Op → Prop
  | .inl (.adminImg md5 _) | .inl (.infoImg md5) => IsMd5 md5
  | _ => True

theorem serve_names {inetAton : Bytes → Option UInt32} {settings : HttpSettings} {visit : Visit} :
    (serve inetAton settings visit).Uses NamesImage := by
  have handler : (visitHandler inetAton settings visit).Uses fun op => NamesImage (.inl op) := by
    refine visitHandler_once.uses (fun op unreplied => ?_) fun op replies => ?_
    · cases op with
      | adminImg _ _ | infoImg _ => exact unreplied
      | _ => trivial
    · cases op with
      | evhtpSendReply _ => trivial
      | _ => exact replies.elim
  exact ⟨trivial, fun _ => handler.left.bind fun _ => ⟨trivial, fun _ => trivial⟩⟩

namespace Mirrors
variable {s : Service} {t : World × Outside} {pages : Bytes → Option Bytes} {visit : Visit}

theorem writes (related : Mirrors settings env ops base s t) {w' : World} {out : Bytes}
    {headers : List (Bytes × Bytes)} (world : w' = { t.1 with out := out, headersOut := headers }) :
    Mirrors settings env ops base { s with out := out, headersOut := headers } (w', t.2) := by
  subst world
  exact ⟨related.honest.same (fun t n idle => ⟨n, idle⟩) rfl rfl related.honest.cache, rfl,
    related.sent, related.made⟩

theorem out_eq (related : Mirrors settings env ops base s t) : t.1.out = s.out :=
  (Prod.mk.inj related.reply).1

theorem headers_eq (related : Mirrors settings env ops base s t) :
    t.1.headersOut = s.headersOut :=
  (Prod.mk.inj related.reply).2

theorem adds (related : Mirrors settings env ops base s t) (text : Bytes) :
    Mirrors settings env ops base { s with out := s.out ++ text }
      ({ t.1 with out := t.1.out ++ text }, t.2) :=
  related.writes (by rw [← related.out_eq, ← related.headers_eq])

end Mirrors

theorem asMd5_valid {md5 : Bytes} (named : IsMd5 md5) : asMd5 md5 = some ⟨md5, named⟩ :=
  dif_pos named

section Simulation
variable (safe : CacheSafe settings env ops) (free : FaultFree env)
  (short : settings.mode = 1 → settings.imgPath.bytes.length ≤ 254)
  {pages : Bytes → Option Bytes} {visit : Visit}

theorem wp_store {α : Type} {p : Prog (Sys Im) α} {t : World × Outside}
    {Q : α → World × Outside → Prop} (h : env.machine.wp p (fun a w' => Q a (w', t.2)) t.1) :
    (server env pages visit).wp p.left Q t := Machine.wp_left.mpr h

theorem made_left {α : Type} (p : Prog (Sys Im) α) (t : World × Outside) :
    (server env pages visit).wp p.left (fun _ t' => MadeOf ops t' → MadeOf ops t) t :=
  wp_store (Machine.wp_mono (Machine.wp_true p t.1) fun _ _ _ => id)

theorem made_called {α : Type} (op : StoreOp) (p : Prog (Sys Im) α) (t : World × Outside) :
    (server env pages visit).wp (do process (.called op); p.left)
      (fun _ t' => MadeOf ops t' → MadeOf ops t) t := by
  intro _ _
  refine wp_store (Machine.wp_mono (Machine.wp_true p _) fun _ _ _ made => ?_)
  exact fun op' member => made op' (List.mem_append_left _ member)

variable (pages visit)

include safe free short in
theorem server_simulates : Simulation (service settings env pages visit) (server env pages visit)
    (serverCalls settings visit) NamesImage (MadeOf ops) (Mirrors settings env ops base) where
  back op t := by
    cases op with
    | inl op =>
        cases op with
        | zimgAccessInet conf addr => exact id
        | saveImg buff => exact made_called _ _ t
        | getImg req => exact made_called _ _ t
        | adminImg md5 cmd => exact made_left _ t
        | infoImg md5 => exact made_left _ t
        | evbufferAddPrintf text => exact made_left _ t
        | headersAddHeader key value => exact made_left _ t
        | _ => exact fun _ _ => id
    | inr op =>
        cases op with
        | requestNew => exact made_left _ t
        | replies => exact fun _ _ => id
  step op s t valid related := by
    cases op with
    | inl op =>
        cases op with
        | zimgAccessInet conf addr => exact fun _ => ⟨rfl, related⟩
        | mallocBuff size => exact fun r legal _ => ⟨legal, related⟩
        | malloc => exact fun r legal _ => ⟨legal, related⟩
        | multipartParserInit boundaryPattern => exact fun r legal _ => ⟨legal, related⟩
        | saveImg buff =>
            intro _ _
            refine wp_store ?_
            by_cases member : StoreOp.upload visit.thrArg buff ∈ ops
            · refine Machine.wp_mono (wp_saveImg_served safe free short related.honest member) ?_
              rintro r w' ⟨result, honest, same⟩ -
              exact ⟨result, honest, same.trans related.reply, related.sent,
                congrArg (· ++ _) related.made⟩
            · exact Machine.wp_mono (Machine.wp_true _ _) fun _ _ _ made =>
                absurd (made _ (by simp [server, Machine.beside, outside])) member
        | getImg req =>
            intro _ _
            refine wp_store ?_
            by_cases member : StoreOp.get req visit.request ∈ ops
            · refine Machine.wp_mono (wp_callGetImg_served safe free short related.honest member) ?_
              rintro r w' ⟨answered, honest⟩ -
              refine ⟨answered.code, honest, ?_, related.sent, congrArg (· ++ _) related.made⟩
              have reply := answered.reply
              change w'.reply = (t.1.out ++ _, t.1.headersOut ++ _) at reply
              rwa [related.out_eq, related.headers_eq] at reply
            · exact Machine.wp_mono (Machine.wp_true _ _) fun _ _ _ made =>
                absurd (made _ (by simp [server, Machine.beside, outside])) member
        | adminImg md5 cmd =>
            refine wp_store ?_
            refine Machine.wp_mono (wp_callAdminImg_served (h := ⟨md5, valid⟩) free short
              related.honest) ?_
            rintro r w' ⟨code, honest, replied⟩ -
            refine ⟨?_, ?_⟩
            · intro h found
              rw [asMd5_valid valid] at found
              cases found
              exact code
            · change Mirrors settings env ops base ((asMd5 md5).elim s _) _
              rw [asMd5_valid valid, Option.elim_some, Service.administered]
              split at honest
              · rename_i erases
                rw [if_pos erases] at replied ⊢
                refine ⟨honest, ?_, related.sent, related.made⟩
                rw [World.reportedReply, related.out_eq, related.headers_eq] at replied
                exact replied
              · rename_i keeps
                rw [if_neg keeps] at replied ⊢
                exact ⟨honest, replied.trans related.reply, related.sent, related.made⟩
        | infoImg md5 =>
            refine wp_store ?_
            refine Machine.wp_mono (wp_callInfoImg_served (h := ⟨md5, valid⟩) free short
              related.honest) ?_
            rintro r w' ⟨code, rfl⟩ -
            refine ⟨?_, ?_⟩
            · intro h found
              rw [asMd5_valid valid] at found
              cases found
              exact code
            · change Mirrors settings env ops base ((asMd5 md5).elim s _) _
              rw [asMd5_valid valid, Option.elim_some]
              exact related.adds _
        | openPage path => exact fun r legal _ => ⟨legal, related⟩
        | evbufferAddFile path => exact fun _ _ _ => ⟨trivial, related.adds _⟩
        | evbufferAddPrintf text => exact fun _ _ _ => ⟨trivial, related.adds _⟩
        | headersAddHeader key value =>
            refine fun _ _ _ => ⟨trivial, related.writes ?_⟩
            rw [← related.out_eq, ← related.headers_eq]
            rfl
        | evhtpSendReply code =>
            refine fun _ _ _ => ⟨trivial, ?_⟩
            have same : evhtpCreateReply code t.1.headersOut t.1.out =
                evhtpCreateReply code s.headersOut s.out := by
              rw [related.out_eq, related.headers_eq]
            let headers := (evhtpCreateReply code t.1.headersOut t.1.out).headers
            have wrote : Mirrors settings env ops base { s with out := [], headersOut := headers }
              ({ t.1 with out := [], headersOut := headers }, t.2) := related.writes rfl
            refine ⟨wrote.honest, ?_, ?_, related.made⟩
            · change (_, (evhtpCreateReply code t.1.headersOut t.1.out).headers) = (_, _)
              rw [same]
              rfl
            · change t.2.sent ++ [evhtpCreateReply code t.1.headersOut t.1.out] =
                s.sent ++ [evhtpCreateReply code s.headersOut s.out]
              rw [related.sent, same]
        | fault => exact fun r => r.elim
    | inr op =>
        cases op with
        | requestNew => exact fun _ _ _ => ⟨trivial, related.writes rfl⟩
        | replies =>
            refine fun r legal _ => ⟨?_, related.honest, related.reply, rfl, related.made⟩
            exact Eq.trans legal related.sent

end Simulation

/-! ## Whole histories -/

def Service.start (w : World) : Service := ⟨.empty, w.out, w.headersOut, [], []⟩

/-- A server without faults that starts with an empty store and an empty cache. -/
structure FreshServer (settings : HttpSettings) (env : Env Im) (base : Loc) (w : World)
    (made : List StoreOp) : Prop where
  safe : CacheSafe settings.toSettings env made
  free : FaultFree env
  fresh : Fresh settings.toSettings base w
  cold : ∀ key, w.cache key = none
  short : settings.mode = 1 → settings.imgPath.bytes.length ≤ 254

section Histories
variable {inetAton : Bytes → Option UInt32} {settings : HttpSettings} {pages : Bytes → Option Bytes}
  {peers : Nat → UInt32} {s' : World × Outside} {history : List (Visit × (UInt32 × List Reply))}

theorem served_specified (start : FreshServer settings env base w ops)
    (served : Served inetAton settings env pages peers (w, ⟨[], []⟩) history s')
    (made : MadeOf ops s') :
    ∃ final, Specified inetAton settings env pages (.start w) history final ∧
      Mirrors settings.toSettings env ops base final s' :=
  Serves.simulated (A := service settings.toSettings env pages) (C := server env pages)
    (h := serverCalls settings.toSettings) (P := fun _ => True)
    (fun visit _ => server_simulates start.safe start.free start.short pages visit)
    (fun _ _ => serve_names) served.serves (fun _ _ => trivial) made
    ⟨start.fresh.honest start.cold, rfl, rfl, rfl⟩

theorem served_specified_at (start : FreshServer settings env base w ops)
    {before later : List (Visit × (UInt32 × List Reply))} {visit : Visit}
    {answer : UInt32 × List Reply}
    (served : Served inetAton settings env pages peers (w, ⟨[], []⟩)
      (before ++ (visit, answer) :: later) s') (made : MadeOf ops s') :
    ∃ t s₁ s₂, Served inetAton settings env pages peers (w, ⟨[], []⟩) before t ∧
      Specified inetAton settings env pages (.start w) before s₁ ∧
      Mirrors settings.toSettings env ops base s₁ t ∧
      (service settings.toSettings env pages visit).Runs (serve inetAton settings visit) s₁ answer
        s₂ := by
  have sim (visit : Visit) : Simulation (service settings.toSettings env pages visit)
      (server env pages visit) (serverCalls settings.toSettings visit) NamesImage (MadeOf ops)
      (Mirrors settings.toSettings env ops base) :=
    server_simulates start.safe start.free start.short pages visit
  obtain ⟨t, t', first, run, rest⟩ := served.serves.split
  have made' : MadeOf ops t' := Serves.good (P := fun _ => True)
    (A := service settings.toSettings env pages) (fun visit _ => sim visit) rest
    (fun _ _ => trivial) made
  have front : Served inetAton settings env pages peers (w, ⟨[], []⟩) before t :=
    ⟨first, served.threaded.front⟩
  obtain ⟨s₁, specified, related⟩ := served_specified start front
    (run.post ((sim visit).good _ _) made')
  obtain ⟨s₂, run', -⟩ := run.post ((sim visit).runs serve_names related) made'
  exact ⟨t, s₁, s₂, front, specified, related, run'⟩

end Histories

def smallAnswer (pages : Bytes → Option Bytes) (s : World × Outside) :
    (op : ((Sys Bytes).sum Process).Op) → Option (((Sys Bytes).sum Process).Res op)
  | .inl op => some (faithfulEnv.calm s.1 op)
  | .inr (.called _) | .inr (.evbufferAddFile _) | .inr (.evhtpSendReply _) => some ()
  | .inr (.mallocBuff size) => some (some (List.replicate size 0))
  | .inr .malloc | .inr (.multipartParserInit _) => some true
  | .inr (.openPage path) => some (pages path).isSome
  | .inr .fault => none
  | .inr .replies => some s.2.sent

theorem smallAnswer_legal {pages : Bytes → Option Bytes} (visit : Visit) (s : World × Outside)
    (op : ((Sys Bytes).sum Process).Op) (r : ((Sys Bytes).sum Process).Res op)
    (answered : smallAnswer pages s op = some r) : (server faithfulEnv pages visit).Legal s op r := by
  cases op with
  | inl op => exact .inl (Option.some.inj answered).symm
  | inr op =>
      cases op with
      | mallocBuff size =>
          cases answered
          exact (List.length_replicate).ge
      | malloc | multipartParserInit _ => exact fun _ => (Option.some.inj answered).symm
      | openPage path => exact (Option.some.inj answered).symm
      | replies => exact (Option.some.inj answered).symm
      | fault => exact r.elim
      | _ => trivial

def smallHttp : HttpSettings := { uploadSettings with toSettings := smallSettings 1 1 }

def smallVisit (request : EvhtpRequest) : Visit := ⟨smallThread, 0, request, none, 0, true⟩

def CString.of (text : String) : CString :=
  if plain : 0 ∉ ascii text then ⟨ascii text, plain⟩ else ⟨[], List.not_mem_nil⟩

def smallUp : Visit :=
  smallVisit ⟨2, .of "/upload", none,
    [⟨.of "Content-Length", .of "1"⟩, ⟨.of "Content-Type", .of "jpeg"⟩], ascii "a"⟩

theorem smallName_plain : 0 ∉ (md5Of (ascii "a")).bytes := by decide +kernel

theorem smallPath_plain : 0 ∉ slash :: (md5Of (ascii "a")).bytes := by decide +kernel

def smallDownload : Visit :=
  smallVisit ⟨0, ⟨slash :: (md5Of (ascii "a")).bytes, smallPath_plain⟩,
    some [⟨.of "p", .of "0"⟩], [], []⟩

def smallErase : Visit :=
  smallVisit ⟨0, .of "/admin",
    some [⟨.of "md5", ⟨(md5Of (ascii "a")).bytes, smallName_plain⟩⟩, ⟨.of "t", .of "1"⟩], [], []⟩

def smallVisits : List Visit := [smallUp, smallDownload, smallErase, smallDownload]

def smallRun : Option (List (Visit × (UInt32 × List Reply)) × (World × Outside)) :=
  Machine.attemptAll (server faithfulEnv fun _ => none) (smallAnswer fun _ => none) (fun visit =>
    (serve (fun _ => none) smallHttp visit).translate (serverCalls smallHttp.toSettings visit))
    smallVisits (smallWorld, ⟨[], []⟩)

def SmallOp : StoreOp → Prop
  | .upload _ buff => buff = ascii "a"
  | .get req _ => AsksOriginal smallHttp.toSettings req
  | _ => True

instance (op : StoreOp) : Decidable (SmallOp op) := by
  cases op <;> unfold SmallOp <;> infer_instance

theorem smallOps_safe {ops : List StoreOp} (small : ∀ op ∈ ops, SmallOp op) :
    CacheSafe (smallSettings 1 1) faithfulEnv ops := by
  have single {h : Md5} {buff : Bytes} (upload : IsUpload ops h buff) : buff = ascii "a" := by
    obtain ⟨⟨thrArg, member⟩, -⟩ := upload
    exact small _ member
  have body {req : ZimgReq} {request : EvhtpRequest} {buff : Bytes} (member : .get req request ∈ ops) :
      bodyOf (smallSettings 1 1) faithfulEnv req buff = some buff := by
    have original : AsksOriginal (smallSettings 1 1) req := small _ member
    exact if_pos original
  refine ⟨fun h buff buff' first second => (single first).trans (single second).symm,
    fun thrArg buff member => ?_, fun _ req request buff im member converts => ?_,
    fun req request req' request' buff member member' _ _ => ?_,
    fun _ req request req' request' buff member member' _ _ => ?_⟩
  · rw [show buff = ascii "a" from small _ member]
    decide
  · exact absurd (small _ member) converts
  · rw [body member, body member']
  · rw [body member, body member']

theorem smallOps_start {ops : List StoreOp} (small : ∀ op ∈ ops, SmallOp op) :
    FreshServer smallHttp faithfulEnv [ascii "img"] smallWorld ops :=
  ⟨smallOps_safe small, faithful_free, smallWorld_fresh 1 1, fun _ => rfl, fun _ => by decide⟩

theorem smallRun_served : ∃ history s', history.map Prod.fst = smallVisits ∧
    FreshServer smallHttp faithfulEnv [ascii "img"] smallWorld s'.2.made ∧
    Served (fun _ => none) smallHttp faithfulEnv (fun _ => none) (fun _ => 0) (smallWorld, ⟨[], []⟩)
      history s' := by
  have found : (smallRun.map fun x => decide ((∀ op ∈ x.2.2.made, SmallOp op) ∧
      Threaded (fun _ => 0) x.1)) = some true := by
    decide +kernel
  obtain ⟨⟨history, s'⟩, run, both⟩ := Option.map_eq_some_iff.mp found
  obtain ⟨small, threaded⟩ := of_decide_eq_true both
  obtain ⟨requests, serves⟩ := Machine.attemptAll_serves smallAnswer_legal run
  exact ⟨history, s', requests, smallOps_start small, serves, threaded⟩

end Ximg
