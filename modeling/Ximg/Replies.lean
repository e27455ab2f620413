import Ximg.ClientHistories

/-!
# Every request gets one reply

Whatever fails while a request is served, it gets exactly one reply. Where nothing fails but
allocations, the reply says how long its body is.
-/

namespace Ximg
open Text Vfs Calls

variable {Im : Type} {inetAton : Bytes → Option UInt32} {settings : HttpSettings}
  {pages : Bytes → Option Bytes} {visit : Visit} {calls : Machine (Sys Im) World}

/-! ## One reply -/

theorem wp_store_sent {α : Type} {p : Prog (Sys Im) α} {t : World × Outside} {sent : List Reply}
    (same : t.2.sent = sent) :
    (calls.beside (outside pages visit)).wp p.left (fun _ t' => t'.2.sent = sent) t :=
  Machine.wp_left.mpr (Machine.wp_mono (Machine.wp_true p t.1) fun _ _ _ => same)

theorem callbackCalls_sent {op : HttpOp} {t : World × Outside} {sent : List Reply}
    (unreplied : Unreplied op) (same : t.2.sent = sent) :
    (calls.beside (outside pages visit)).wp (callbackCalls settings.toSettings visit op)
      (fun _ t' => t'.2.sent = sent) t := by
  cases op with
  | zimgAccessInet conf addr => exact same
  | saveImg _ | getImg _ => exact fun _ _ => wp_store_sent same
  | adminImg _ _ | infoImg _ | evbufferAddPrintf _ | headersAddHeader _ _ =>
      exact wp_store_sent same
  | evhtpSendReply _ => exact unreplied.elim
  | _ => exact fun _ _ => same

theorem wp_serve_once {t : World × Outside} (taken : t.2.sent = []) :
    (calls.beside (outside pages visit)).wp
      ((serve inetAton settings visit).translate (serverCalls settings.toSettings visit))
      (fun answer t' => (∃ reply, answer.2 = [reply] ∧ reply.code ∈ knownCodes) ∧ t'.2.sent = [])
      t := by
  unfold serve
  have start : (calls.beside (outside pages visit)).wp
      ((session .requestNew).translate (serverCalls settings.toSettings visit))
      (fun _ t' => t'.2.sent = []) t := fun _ _ => taken
  rw [Prog.translate_bind, Machine.wp_bind]
  refine Machine.wp_mono start fun _ t taken => ?_
  rw [Prog.translate_bind, Prog.translate_left, Machine.wp_bind]
  refine Machine.wp_mono (wp_ends_translate (I := fun t : World × Outside => t.2.sent = [])
    (Q := fun t => ∃ reply, t.2.sent = [reply] ∧ reply.code ∈ knownCodes)
    (fun op t => callbackCalls_sent) (fun op t replies taken => ?_) visitHandler_once taken) ?_
  · cases op with
    | evhtpSendReply code =>
        refine fun _ _ => ⟨evhtpCreateReply code t.1.headersOut t.1.out, ?_, ?_⟩
        · change t.2.sent ++ [evhtpCreateReply code t.1.headersOut t.1.out] = _
          rw [taken]
          rfl
        · rw [evhtpCreateReply_code]
          exact replies
    | _ => exact replies.elim
  · rintro saddr t ⟨reply, sent, known⟩ r legal
    exact ⟨⟨reply, Eq.trans legal sent, known⟩, rfl⟩

/-- Every request that is served gets exactly one reply, whatever the disk, the backend, the cache, the
image library and the allocator answer, and whatever is on the pages. -/
theorem one_reply (inetAton : Bytes → Option UInt32) (settings : HttpSettings)
    (calls : Visit → Machine (Sys Im) World) (pages : Visit → Bytes → Option Bytes)
    (s s' : World × Outside) (history : List (Visit × (UInt32 × List Reply)))
    (taken : s.2.sent = [])
    (served : Serves (fun visit => (calls visit).beside (outside (pages visit) visit))
      (fun visit => (serve inetAton settings visit).translate
        (serverCalls settings.toSettings visit)) s history s') :
    ∀ x ∈ history, ∃ reply, x.2.2 = [reply] ∧ reply.code ∈ knownCodes :=
  (Serves.always (P := fun _ => True) (I := fun s : World × Outside => s.2.sent = [])
    (G := fun _ answer => ∃ reply, answer.2 = [reply] ∧ reply.code ∈ knownCodes)
    (fun _ _ _ taken => wp_serve_once taken) served (fun _ _ => trivial) taken).1

theorem one_reply_small : ∃ history : List (Visit × (UInt32 × List Reply)),
    history.map Prod.fst = smallVisits ∧
    ∀ x ∈ history, ∃ reply, x.2.2 = [reply] ∧ reply.code ∈ knownCodes := by
  obtain ⟨history, s', requests, -, served⟩ := smallRun_served
  exact ⟨history, requests, one_reply (fun _ => none) smallHttp (fun _ => faithfulEnv.machine)
    (fun _ _ => none) (smallWorld, ⟨[], []⟩) s' history rfl served.serves⟩

end Ximg
