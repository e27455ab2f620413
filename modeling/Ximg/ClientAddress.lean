import Ximg.HandlerSpecs
import Ximg.BodyHandover

/-!
# The client's address on a connection

The requests of one connection share the address that their handlers read the header into.
-/

namespace Ximg
open Text Calls

section Connection
variable (inetAton : Bytes → Option UInt32) (settings : HttpSettings) (thrArg : ThrArg)

def serveConnection : List (Route × EvhtpRequest) → UInt32 → Prog Http UInt32
  | [], saddr => return saddr
  | (route, req) :: requests, saddr => do
      let saddr ← route.handler inetAton settings thrArg req saddr
      serveConnection requests saddr

def asks (request : Route × EvhtpRequest) (saddr : UInt32) : List (ZimgAccessConf × UInt32) :=
  ((request.1.access settings request.2).map
    (·, forwarded inetAton request.2 saddr)).toList

def connectionAsks : List (Route × EvhtpRequest) → UInt32 → List (ZimgAccessConf × UInt32)
  | [], _ => []
  | request :: requests, saddr =>
      asks inetAton settings request saddr ++
        connectionAsks requests (forwarded inetAton request.2 saddr)

def separateAsks (requests : List (Route × EvhtpRequest)) (peer : UInt32) :
    List (ZimgAccessConf × UInt32) :=
  requests.flatMap fun request => asks inetAton settings request peer

theorem serveConnection_adds {alloc : Nat → Bool} (requests : List (Route × EvhtpRequest))
    (saddr : UInt32) (log : List (Event Http)) :
    Adds alloc (serveConnection inetAton settings thrArg requests saddr)
      (fun _ more => consulted more = connectionAsks inetAton settings requests saddr) log := by
  induction requests generalizing saddr log with
  | nil => exact Adds.ret rfl
  | cons request requests ih =>
      obtain ⟨route, req⟩ := request
      refine (handler_asks inetAton settings thrArg req saddr route).bind ?_
      rintro _ front ⟨rfl, first⟩ log
      refine (ih _ log).mono ?_
      intro _ more rest
      rw [consulted_append, first, rest]
      rfl

def announced (req : EvhtpRequest) : Option UInt32 :=
  (req.headerFind "X-Forwarded-For").bind inetAton

theorem forwarded_eq (req : EvhtpRequest) (saddr : UInt32) :
    forwarded inetAton req saddr = (announced inetAton req).getD saddr := by
  unfold forwarded announced
  cases req.headerFind "X-Forwarded-For" <;> rfl

def lastAnnounced (requests : List (Route × EvhtpRequest)) : Option UInt32 :=
  (requests.filterMap fun request => announced inetAton request.2).getLast?

def addressAfter (requests : List (Route × EvhtpRequest)) (saddr : UInt32) : UInt32 :=
  requests.foldl (fun saddr request => forwarded inetAton request.2 saddr) saddr

theorem addressAfter_eq (requests : List (Route × EvhtpRequest)) (saddr : UInt32) :
    addressAfter inetAton requests saddr = (lastAnnounced inetAton requests).getD saddr := by
  unfold addressAfter lastAnnounced
  induction requests generalizing saddr with
  | nil => rfl
  | cons request requests ih =>
      rw [List.foldl_cons, ih, forwarded_eq, List.filterMap_cons]
      cases announced inetAton request.2 with
      | none => rfl
      | some addr =>
          dsimp only
          cases requests.filterMap fun request => announced inetAton request.2 with
          | nil => rfl
          | cons addr' addrs => rw [List.getLast?_cons_cons, List.getLast?_cons]; rfl

theorem connectionAsks_iff (requests : List (Route × EvhtpRequest)) (saddr peer : UInt32) :
    connectionAsks inetAton settings requests saddr =
        separateAsks inetAton settings requests peer ↔
      ∀ before request after, requests = before ++ request :: after →
        asks inetAton settings request (addressAfter inetAton before saddr) =
          asks inetAton settings request peer := by
  induction requests generalizing saddr with
  | nil =>
      refine iff_of_true rfl ?_
      intro before request after split_
      simp at split_
  | cons request requests ih =>
      have length (addr addr' : UInt32) : (asks inetAton settings request addr).length =
          (asks inetAton settings request addr').length := by
        unfold asks
        cases request.1.access settings request.2 <;> rfl
      rw [connectionAsks, separateAsks, List.flatMap_cons, ← separateAsks]
      constructor
      · intro same before request' after split_
        obtain ⟨first, rest⟩ := List.append_inj same (length _ _)
        cases before with
        | nil =>
            cases split_
            exact first
        | cons first' before =>
            cases split_
            exact (ih _).mp rest before request' after rfl
      · intro each
        have first : asks inetAton settings request saddr = asks inetAton settings request peer :=
          each [] request requests rfl
        rw [first]
        congr 1
        refine (ih _).mpr ?_
        rintro before request' after rfl
        exact each (request :: before) request' after rfl

theorem asks_same (request : Route × EvhtpRequest) (saddr peer : UInt32) :
    asks inetAton settings request saddr = asks inetAton settings request peer ↔
      (request.1.access settings request.2 ≠ none → announced inetAton request.2 = none →
        saddr = peer) := by
  unfold asks
  rw [forwarded_eq, forwarded_eq]
  cases request.1.access settings request.2 with
  | none => simp
  | some conf => cases announced inetAton request.2 <;> simp

/-- The rules are asked about the addresses of connections of their own, exactly when no request
without an address asks after an earlier one gave an address other than the peer's. -/
theorem client_address (alloc : Nat → Bool) (requests : List (Route × EvhtpRequest))
    (peer : UInt32) :
    (serving alloc).wp (serveConnection inetAton settings thrArg requests peer)
      (fun _ log => consulted log = separateAsks inetAton settings requests peer ↔
        ∀ before request after, requests = before ++ request :: after →
          request.1.access settings request.2 ≠ none → announced inetAton request.2 = none →
          ∀ addr, lastAnnounced inetAton before = some addr → addr = peer) [] := by
  refine Machine.wp_mono (serveConnection_adds inetAton settings thrArg requests peer []) ?_
  rintro _ _ ⟨more, rfl, made⟩
  rw [made, connectionAsks_iff]
  refine forall_congr' fun before => forall_congr' fun request => forall_congr' fun after =>
    imp_congr_right fun _ => ?_
  rw [asks_same, addressAfter_eq]
  refine imp_congr_right fun _ => imp_congr_right fun _ => ?_
  cases lastAnnounced inetAton before <;> simp

end Connection

def rootRequest (headersIn : List EvhtpKv) : EvhtpRequest where
  method := 0
  uriPathFull := ⟨[slash], by decide⟩
  uriQuery := none
  headersIn := headersIn
  bufferIn := []

def privateSettings : HttpSettings :=
  { uploadSettings with downAccess := some (confGetRules (ascii "deny all") [0]) }

def privateAton (text : Bytes) : Option UInt32 :=
  if text = ascii "10.0.0.1" then some 0x0100000a else none

def twoRequests : List (Route × EvhtpRequest) :=
  [(.generic, rootRequest
      [⟨⟨ascii "X-Forwarded-For", by decide⟩, ⟨ascii "10.0.0.1", by decide⟩⟩]),
    (.generic, rootRequest [])]

theorem address_kept :
    ¬∀ alloc, (serving alloc).wp
      (serveConnection privateAton privateSettings ⟨false, false, false, true⟩ twoRequests 0)
      (fun _ log => consulted log = separateAsks privateAton privateSettings twoRequests 0) [] := by
  intro h
  have forbidden (addr : UInt32) (known : addr = 0x0100000a) :
      ZIMG_FORBIDDEN = zimgAccessInet (confGetRules (ascii "deny all") [0]) addr := by
    subst known
    decide +kernel
  have asked : consulted _ = separateAsks privateAton privateSettings twoRequests 0 :=
    h (fun _ => true) ZIMG_FORBIDDEN (forbidden _ (by decide +kernel)) () trivial () trivial ()
      trivial () trivial ZIMG_FORBIDDEN (forbidden _ (by decide +kernel)) () trivial () trivial ()
      trivial () trivial
  have addresses := congrArg (List.map Prod.snd) asked
  revert addresses
  decide +kernel

end Ximg
