import Ximg.WireMessages

/-!
# Connections

A client that writes requests is understood: its requests reach their callbacks as they were
written, in their order, however the stream is cut into reads, and whenever the replies go out.
-/

namespace Ximg.Htparse
open Text

/-! ## What the hooks keep -/

section Keeps
variable {σ : Type} {R : σ → σ → Prop} {hook : Htparser → Hook → σ → Bool × σ}

variable (R) in
def Keeps (s : σ) : Turn σ → Prop
  | .goes _ _ s' => R s s'
  | .stops _ _ s' => R s s'

structure Kept (R : σ → σ → Prop) (hook : Htparser → Hook → σ → Bool × σ) : Prop where
  refl : ∀ s, R s s
  trans : ∀ {s s' s''}, R s s' → R s' s'' → R s s''
  hook : ∀ p h s, R s (hook p h s).2

variable {s s' : σ} (kept : Kept R hook)

theorem keeps_checked (n : Nat) {r : Bool × σ} (p : Htparser) (related : R s r.2) :
    Keeps R s (checked n r p) := by
  cases failed : r.1 <;> simpa [checked, failed, Keeps] using related

include kept

theorem keeps_hooked (h : Hook) (p p' : Htparser) (told : R s s') :
    Keeps R s (hooked hook h p p' s') :=
  keeps_checked 1 _ (kept.trans told (kept.hook p h s'))

theorem keeps_hooked₂ (h h' : Hook) (p p' : Htparser) (s : σ) :
    Keeps R s (hooked₂ hook h h' p p' s) := by
  have both := kept.trans (kept.hook p h s) (kept.hook p h' (hook p h s).2)
  unfold hooked₂
  dsimp only
  split <;> exact both

theorem body_kept (p : Htparser) (data : Bytes) (s : σ) : R s (bodyHook hook p data s).2 := by
  unfold bodyHook
  split
  · exact kept.hook _ _ _
  · exact kept.refl s

theorem turn_keeps (first : Bool) (p : Htparser) (ch : UInt8) (rest : Bytes) (s : σ) :
    Keeps R s (turn hook first p ch rest s) := by
  have same : R s s := kept.refl s
  unfold turn
  split
  · exact same
  · cases p.state with
    | port =>
        have told := kept.hook p (.port (p.since p.portOffset)) s
        unfold portTurn hostPath
        dsimp only
        split_ifs <;> first | exact same | exact told
    | host | hostIpv6 =>
        have told := kept.hook p (.host (p.since p.hostOffset)) s
        simp only [hostTurn, hostIpv6Turn, hostDoneTurn, hostPath]
        split_ifs <;> first | exact same | exact told
    | hdrlineHdrVal =>
        unfold hdrValTurn
        cases p.heval with
        | contentLength =>
            cases strToUint64 p.buf <;> dsimp only <;> split_ifs <;> exact same
        | _ => dsimp only; split_ifs <;> first | exact same | exact keeps_hooked kept _ _ _ same
    | hdrlineHdrDone =>
        have told := kept.hook p (.hdrVal p.buf) s
        unfold hdrDoneTurn
        dsimp only
        split_ifs
        · exact told
        · exact keeps_hooked kept _ _ _ told
        · exact same
        · exact same
        · exact keeps_hooked kept _ _ _ same
    | bodyRead =>
        have told := body_kept kept p (ch :: rest) s
        show Keeps R s (bodyReadTurn hook p (ch :: rest) s)
        unfold bodyReadTurn
        split
        · exact keeps_checked _ _ (kept.trans told (kept.hook _ _ _))
        · exact keeps_checked _ _ told
    | chunkData => exact keeps_checked _ _ (body_kept kept p (ch :: rest) s)
    | chunkSizeStart =>
        unfold chunkSizeStartTurn
        cases unhex ch <;> exact same
    | chunkSize =>
        unfold chunkSizeTurn
        cases unhex ch <;> dsimp only <;> split_ifs <;> exact same
    | _ =>
        simp only [startTurn, methodTurn, spacesBeforeUriTurn, schemaTurn, schemaSlashTurn,
          schemaSlashSlashTurn, hostDoneTurn, hostPath, afterSlashInUriTurn,
          checkUriTurn, uriTurn, oldVersion, argsTurn, http09Turn, httpTurn, firstMajorDigitTurn,
          majorDigitTurn, firstMinorDigitTurn, minorDigitTurn, spacesAfterDigitTurn, almostDoneTurn,
          doneTurn, hdrlineStartTurn, hdrKeyTurn, spaceBeforeValTurn, hdrAlmostDoneTurn,
          hdrlineAlmostDoneTurn, chunkSizeAlmostDoneTurn, chunkDataAlmostDoneTurn, chunkDataDoneTurn]
        split_ifs <;>
          first | exact same | exact keeps_hooked kept _ _ _ same | exact keeps_hooked₂ kept _ _ _ _ _

theorem feed_keeps {x y : Htparser × σ} {ch : UInt8} (fed : feed hook x ch = some y) : R x.2 y.2 := by
  have back : Keeps R x.2 (turnBack hook true { x.1 with error := .none } ch [] x.2) := by
    have once := turn_keeps kept true { x.1 with error := .none } ch [] x.2
    unfold turnBack
    split
    · rename_i p' s' turned
      rw [turned] at once
      have again := turn_keeps kept true p' ch [] s'
      revert again
      cases turn hook true p' ch [] s' <;> exact kept.trans once
    · exact once
  unfold feed htparserRun loop at fed
  cases turned : turnBack hook true { x.1 with error := .none } ch [] x.2 with
  | stops n p s => simp [turned] at fed
  | goes n p s =>
      rw [turned] at back
      simp only [turned, loop, Bool.false_eq_true, if_false, Option.some.injEq] at fed
      exact fed ▸ back

theorem feeds_keeps (data : Bytes) {x y : Htparser × σ} (fed : feeds hook x data = some y) :
    R x.2 y.2 := by
  induction data generalizing x with
  | nil =>
      obtain rfl : x = y := by simpa [feeds] using fed
      exact kept.refl _
  | cons ch data ih =>
      rw [feeds_cons, Option.bind_eq_some_iff] at fed
      obtain ⟨z, first, rest⟩ := fed
      exact kept.trans (feed_keeps kept first) (ih rest)

end Keeps
end Ximg.Htparse

namespace Ximg.Wire
open Text Htparse

/-! ## What is received only grows -/

def Unfinished (c : EvhtpConnection) : Prop := ∃ req, c.request = some req ∧ req.finished = false

/-- Only what hands a request over finishes it. -/
structure Grows (c c' : EvhtpConnection) : Prop where
  received : c.received <+: c'.received
  unfinished : Unfinished c → c'.received = c.received → Unfinished c'

theorem Grows.refl (c : EvhtpConnection) : Grows c c := ⟨List.prefix_rfl, fun open' _ => open'⟩

theorem Grows.trans {c c' c'' : EvhtpConnection} (first : Grows c c') (second : Grows c' c'') :
    Grows c c'' where
  received := first.received.trans second.received
  unfinished := fun open' same => by
    have back : c''.received <+: c'.received := same ▸ first.received
    have same' := second.received.eq_of_length_le back.length_le
    exact second.unfinished (first.unfinished open' (same'.trans same)) same'.symm

theorem onRequest_grows {work : Incoming → Bool × Incoming}
    (keeps : ∀ req, (work req).2.finished = req.finished) (c : EvhtpConnection) :
    Grows c (c.onRequest work).2 := by
  unfold EvhtpConnection.onRequest
  split
  · exact .refl c
  · rename_i req request
    refine ⟨List.prefix_rfl, fun open' _ => ⟨_, rfl, ?_⟩⟩
    obtain ⟨req', request', open'⟩ := open'
    obtain rfl : req = req' := Option.some.inj (request.symm.trans request')
    rw [keeps, open']

theorem start_grows (c : EvhtpConnection) : Grows c c.parserStart.2 := by
  unfold EvhtpConnection.parserStart
  split
  · split
    · exact ⟨List.prefix_rfl, fun _ _ => ⟨_, rfl, rfl⟩⟩
    · exact .refl c
  · exact ⟨List.prefix_rfl, fun _ _ => ⟨_, rfl, rfl⟩⟩

theorem headers_grows (p : Htparser) (c : EvhtpConnection) : Grows c (c.parserHeaders p).2 := by
  unfold EvhtpConnection.parserHeaders
  split
  · exact .refl c
  · rename_i req request
    have open' (open' : Unfinished c) : req.finished = false := by
      obtain ⟨req', request', open'⟩ := open'
      obtain rfl : req = req' := Option.some.inj (request.symm.trans request')
      exact open'
    dsimp only
    split <;> exact ⟨List.prefix_rfl, fun still _ => ⟨_, rfl, open' still⟩⟩

theorem fini_grows (p : Htparser) (c : EvhtpConnection) : Grows c (c.parserFini p).2 := by
  unfold EvhtpConnection.parserFini
  split
  · exact .refl c
  · split
    · exact .refl c
    · refine ⟨List.prefix_append _ _, fun _ same => ?_⟩
      simp at same

theorem requestPsets_kept : Kept Grows requestPsets where
  refl := .refl
  trans := .trans
  hook p h c := by
    cases h with
    | onMsgBegin => exact start_grows c
    | path data => exact onRequest_grows (fun _ => rfl) c
    | args data =>
        refine onRequest_grows (fun req => ?_) c
        split <;> rfl
    | hdrKey data => exact onRequest_grows (fun _ => rfl) c
    | hdrVal data =>
        refine onRequest_grows (fun req => ?_) c
        split <;> rfl
    | onHdrsComplete => exact headers_grows p c
    | body data =>
        refine ⟨List.prefix_rfl, fun open' _ => ?_⟩
        obtain ⟨req, request, open'⟩ := open'
        exact ⟨{ req with bufferIn := req.bufferIn ++ data },
          by simp [requestPsets, EvhtpConnection.parserBody, request], open'⟩
    | onMsgComplete => exact fini_grows p c
    | _ => exact .refl c

/-! ## Whole and partial requests -/

structure Between (p : Htparser) (c : EvhtpConnection) : Prop where
  idle : Idle p
  answered : ∀ req ∈ c.request, req.finished = true ∧ req.keepalive = true

def Part (part : Bytes) (rest : List ClientRequest) : Prop :=
  ∀ r ∈ rest.head?, part.length < r.wire.length

section Streams
variable {p : Htparser} {c : EvhtpConnection} {r : ClientRequest}

theorem whole_run (formed : WellFormed r) (between : Between p c) :
    ∃ y, feeds requestPsets (p, c) r.wire = some y ∧ Between y.1 y.2 ∧ y.2.request.isSome = true ∧
      y.2.received = c.received ++ [r.received] := by
  obtain ⟨w, last, x, split, run, -, y, fed, idle, ⟨req, request, finished, kept⟩, received⟩ :=
    wire_run formed between.idle fun req member => (between.answered req member).1
  refine ⟨y, ?_, ⟨idle, fun req' member => ?_⟩, by simp [request], received⟩
  · rw [split, feeds_then run, feeds_cons, fed]
    rfl
  · obtain rfl : req = req' := Option.some.inj (request.symm.trans member)
    exact ⟨finished, kept⟩

theorem part_run (formed : WellFormed r) (between : Between p c) {part more : Bytes}
    (split : part ++ more = r.wire) (some' : more ≠ []) :
    ∃ y, feeds requestPsets (p, c) part = some y ∧ y.2.received = c.received ∧
      (part ≠ [] → Unfinished y.2) := by
  obtain ⟨w, last, x, wire, run, ends⟩ :=
    wire_run formed between.idle fun req member => (between.answered req member).1
  -- the last byte is not in the part
  obtain ⟨more', b, rfl⟩ := (more.eq_nil_or_concat').resolve_left some'
  obtain ⟨rfl, -⟩ : part ++ more' = w ∧ [b] = [last] :=
    List.append_inj' (by rw [List.append_assoc, split, wire]) rfl
  rw [feeds_append, Option.bind_eq_some_iff] at run
  obtain ⟨y, fed, left⟩ := run
  have grown := feeds_keeps requestPsets_kept part fed
  have rest := feeds_keeps requestPsets_kept more' left
  have back : y.2.received <+: c.received := ends.before ▸ rest.received
  have same := (grown.received.eq_of_length_le back.length_le).symm
  refine ⟨y, fed, same, fun some' => ?_⟩
  obtain ⟨ch, part, rfl⟩ := List.exists_cons_of_ne_nil some'
  -- the first byte begins a request, and it ends with its last byte only
  obtain ⟨tokens, named, -⟩ := methods_known r.method formed.method
  obtain ⟨ch', name, letters⟩ := List.exists_cons_of_ne_nil named
  have first : ch = ch' := by
    rw [ClientRequest.wire, ClientRequest.methodName, letters] at split
    exact (List.cons.inj split).1
  obtain ⟨q, begun, -⟩ := start_run between.idle
    (fun req member => (between.answered req member).1)
    (tokens ch (by rw [letters, first]; exact List.mem_cons_self))
  rw [feeds_cons, begun, Option.bind_some] at fed
  exact (feeds_keeps requestPsets_kept part fed).unfinished ⟨_, rfl, rfl⟩ same

theorem stream_run (requests : List ClientRequest) (formed : ∀ r ∈ requests, WellFormed r)
    (between : Between p c) (data : Bytes) {coming : Bytes}
    (stream : data ++ coming = requests.flatMap ClientRequest.wire) :
    ∃ whole rest part p' c' y, requests = whole ++ rest ∧ feeds requestPsets (p, c) data = some y ∧
      Between p' c' ∧ c'.received = c.received ++ whole.map ClientRequest.received ∧
      feeds requestPsets (p', c') part = some y ∧
      part ++ coming = rest.flatMap ClientRequest.wire ∧ Part part rest ∧
      data = whole.flatMap ClientRequest.wire ++ part ∧ (whole = [] → p' = p ∧ c' = c) := by
  induction requests generalizing p c data with
  | nil =>
      obtain ⟨rfl, rfl⟩ := List.append_eq_nil_iff.mp stream
      exact ⟨[], [], [], p, c, (p, c), rfl, rfl, between, by simp, rfl, rfl, by simp [Part], rfl,
        fun _ => ⟨rfl, rfl⟩⟩
  | cons r requests ih =>
      rw [List.flatMap_cons] at stream
      have here := formed r List.mem_cons_self
      by_cases short : data.length < r.wire.length
      · obtain ⟨more, split⟩ : data <+: r.wire :=
          List.prefix_of_prefix_length_le ⟨coming, stream⟩ ⟨_, rfl⟩ short.le
        have some' : more ≠ [] := by
          rintro rfl
          rw [← split, List.append_nil] at short
          omega
        obtain ⟨y, fed, -⟩ := part_run here between split some'
        exact ⟨[], r :: requests, data, p, c, y, rfl, fed, between, by simp, fed,
          by rw [List.flatMap_cons, stream], fun r' member => by
            obtain rfl : r = r' := Option.some.inj member
            exact short, rfl, fun _ => ⟨rfl, rfl⟩⟩
      · obtain ⟨data', rfl⟩ : r.wire <+: data :=
          List.prefix_of_prefix_length_le ⟨_, rfl⟩ ⟨coming, stream⟩ (by omega)
        rw [List.append_assoc] at stream
        obtain ⟨x, first, between', -, received'⟩ := whole_run here between
        obtain ⟨whole, rest, part, p', c', y, split, fed, between'', received, partial', left, short',
          bytes, -⟩ := ih (fun r' member => formed r' (.tail _ member)) between' data'
            (List.append_cancel_left stream)
        refine ⟨r :: whole, rest, part, p', c', y, by rw [split]; rfl, ?_, between'', ?_, partial', left,
          short', by rw [bytes, List.flatMap_cons, List.append_assoc], fun none => by cases none⟩
        · rw [feeds_then first]
          exact fed
        · rw [received, received', List.map_cons, List.append_assoc]
          rfl

end Streams
/-! ## Events of a connection -/

def bytesOf : BevEvent → Bytes
  | .read data => data
  | .wrote _ => []

def bytesRead (events : List BevEvent) : Bytes := events.flatMap bytesOf

def run (maxKeepaliveRequests : UInt64) (events : List BevEvent) : HttpConn :=
  events.foldl (HttpConn.event maxKeepaliveRequests) evhtpConnectionNew

/-- A connection that has got some requests whole and a part of the next one, which began where the
parser was `p` and the connection was `c`. -/
structure Receiving (requests whole rest : List ClientRequest) (sent part coming : Bytes) (p : Htparser)
    (c : EvhtpConnection) (x : HttpConn) : Prop where
  all : requests = whole ++ rest
  read : sent = whole.flatMap ClientRequest.wire ++ part
  short : Part part rest
  left : part ++ coming = rest.flatMap ClientRequest.wire
  between : Between p c
  received : c.received = whole.map ClientRequest.received
  fed : feeds requestPsets (p, c) part = some (x.parser, x.conn)
  alive : x.alive = true
  counted : x.numRequests.toNat + (if c.request.isSome then 1 else 0) ≤ whole.length

section Events
variable {requests whole rest : List ClientRequest} {sent part data coming : Bytes} {p : Htparser}
  {c : EvhtpConnection} {x : HttpConn} {limit : UInt64}

theorem Receiving.readcb (formed : ∀ r ∈ requests, WellFormed r)
    (receiving : Receiving requests whole rest sent part (data ++ coming) p c x) :
    ∃ whole' rest' part' p' c',
      Receiving requests whole' rest' (sent ++ data) part' coming p' c' (x.readcb data) := by
  have members : ∀ r ∈ rest, WellFormed r := fun r member =>
    formed r (by rw [receiving.all]; exact List.mem_append_right _ member)
  obtain ⟨whole', rest', part', p', c', y, split, fed, between, received, partial', left, short, bytes,
    none⟩ := stream_run rest members receiving.between (part ++ data)
      (by rw [List.append_assoc, receiving.left])
  rw [feeds_then receiving.fed] at fed
  have fine := (feeds_run requestPsets_takes part receiving.between.idle.fine receiving.fed).2
  have run := (feeds_run requestPsets_takes data fine fed).1
  have after : x.readcb data = { x with parser := y.1, conn := y.2, alive := true } := by
    simp [HttpConn.readcb, run]
  rw [after]
  refine ⟨whole ++ whole', rest', part', p', c', ⟨by rw [receiving.all, split, List.append_assoc], ?_,
    short, left, between, ?_, partial', rfl, ?_⟩⟩
  · rw [receiving.read, List.append_assoc, bytes, List.flatMap_append, List.append_assoc]
  · rw [received, receiving.received, List.map_append]
  · have counted := receiving.counted
    cases whole' with
    | nil =>
        obtain ⟨-, rfl⟩ := none rfl
        simpa using counted
    | cons r whole' =>
        simp only [List.length_append, List.length_cons]
        split_ifs at counted ⊢ <;> omega

theorem Receiving.open' (formed : ∀ r ∈ requests, WellFormed r)
    (receiving : Receiving requests whole rest sent part coming p c x) (some' : part ≠ []) :
    x.conn.received = c.received ∧ Unfinished x.conn := by
  cases rest with
  | nil => exact absurd (List.append_eq_nil_iff.mp receiving.left).1 some'
  | cons r rest =>
      have member : r ∈ requests := by rw [receiving.all]; simp
      have short : part.length < r.wire.length := receiving.short r rfl
      obtain ⟨more, split⟩ : part <+: r.wire :=
        List.prefix_of_prefix_length_le ⟨coming, receiving.left⟩ ⟨_, rfl⟩ short.le
      obtain ⟨y, fed, received, open'⟩ := part_run (formed r member) receiving.between split (by
        rintro rfl
        rw [← split, List.append_nil] at short
        omega)
      obtain rfl : (x.parser, x.conn) = y := Option.some.inj (receiving.fed.symm.trans fed)
      exact ⟨received, open' some'⟩

theorem Receiving.now (formed : ∀ r ∈ requests, WellFormed r)
    (receiving : Receiving requests whole rest sent part coming p c x) :
    x.conn.received = whole.map ClientRequest.received := by
  by_cases empty : part = []
  · subst empty
    obtain ⟨-, rfl⟩ : p = x.parser ∧ c = x.conn := by simpa [feeds] using receiving.fed
    exact receiving.received
  · rw [(receiving.open' formed empty).1, receiving.received]

theorem Receiving.writecb (formed : ∀ r ∈ requests, WellFormed r)
    (room : limit = 0 ∨ requests.length < limit.toNat) (drained : Bool)
    (receiving : Receiving requests whole rest sent part coming p c x) :
    ∃ p' c', Receiving requests whole rest sent part coming p' c' (x.writecb limit drained) := by
  have idle : x.writecb limit drained = x → ∃ p' c',
      Receiving requests whole rest sent part coming p' c' (x.writecb limit drained) := fun same =>
    ⟨p, c, by rw [same]; exact receiving⟩
  by_cases empty : part = []
  · subst empty
    obtain ⟨rfl, rfl⟩ : p = x.parser ∧ c = x.conn := by simpa [feeds] using receiving.fed
    cases request : x.conn.request with
    | none => exact idle (by simp [HttpConn.writecb, request])
    | some req =>
        obtain ⟨finished, kept⟩ := receiving.between.answered req request
        cases drained with
        | false => exact idle (by simp [HttpConn.writecb, request])
        | true =>
            have counted := receiving.counted
            have many : requests.length = whole.length + rest.length := by simp [receiving.all]
            simp only [request, Option.isSome_some, if_true] at counted
            have small := limit.toNat_lt
            -- the connection is kept for another request
            have below (limited : limit ≠ 0) : (x.numRequests + 1).toNat = x.numRequests.toNat + 1 := by
              have room := room.resolve_left limited
              rw [UInt64.toNat_add]
              exact Nat.mod_eq_of_lt (by simp; omega)
            have under : ¬(limit ≠ 0 ∧
                (if limit ≠ 0 then x.numRequests + 1 else x.numRequests) ≥ limit) := by
              rintro ⟨limited, reached⟩
              have room := room.resolve_left limited
              rw [if_pos limited, ge_iff_le, UInt64.le_iff_toNat_le, below limited] at reached
              omega
            have after : x.writecb limit true = { x with
                parser := htparserInit, conn := { x.conn with request := none }
                numRequests := if limit ≠ 0 then x.numRequests + 1 else x.numRequests } := by
              simp only [HttpConn.writecb, request, finished, kept]
              rw [if_neg (by simp), if_pos ⟨trivial, under⟩]
            rw [after]
            refine ⟨htparserInit, { x.conn with request := none }, ⟨receiving.all, receiving.read,
              receiving.short, receiving.left, ⟨⟨rfl, rfl, rfl⟩, fun req member => ?_⟩,
              receiving.received, rfl, receiving.alive, ?_⟩⟩
            · cases member
            · by_cases limited : limit ≠ 0
              · simpa [limited, below limited] using counted
              · have counted : x.numRequests.toNat ≤ whole.length := by omega
                simpa [limited] using counted
  · obtain ⟨-, req, request, open'⟩ := receiving.open' formed empty
    exact idle (by simp [HttpConn.writecb, request, open'])

theorem Receiving.run (formed : ∀ r ∈ requests, WellFormed r)
    (room : limit = 0 ∨ requests.length < limit.toNat) (events : List BevEvent)
    (receiving : Receiving requests whole rest sent part (bytesRead events ++ coming) p c x) :
    ∃ whole' rest' part' p' c', Receiving requests whole' rest' (sent ++ bytesRead events) part' coming
      p' c' (events.foldl (HttpConn.event limit) x) := by
  induction events generalizing whole rest sent part p c x with
  | nil =>
      rw [bytesRead, List.flatMap_nil, List.append_nil]
      exact ⟨whole, rest, part, p, c, receiving⟩
  | cons event events ih =>
      rw [List.foldl_cons]
      cases event with
      | read data =>
          have next : x.event limit (.read data) = x.readcb data := by
            simp [HttpConn.event, receiving.alive]
          have receiving : Receiving requests whole rest sent part
              (data ++ (bytesRead events ++ coming)) p c x := by
            rw [← List.append_assoc]
            exact receiving
          obtain ⟨whole', rest', part', p', c', receiving⟩ := receiving.readcb formed
          have bytes : sent ++ bytesRead (.read data :: events) = sent ++ data ++ bytesRead events :=
            (List.append_assoc _ _ _).symm
          rw [next, bytes]
          exact ih receiving
      | wrote drained =>
          have next : x.event limit (.wrote drained) = x.writecb limit drained := by
            simp [HttpConn.event, receiving.alive]
          obtain ⟨p', c', receiving⟩ := receiving.writecb formed room drained
          rw [next]
          exact ih receiving

end Events

def smallHost : EvhtpKv := ⟨cStr (ascii "Host"), cStr (ascii "a")⟩

def smallLength : EvhtpKv := ⟨cStr (ascii "Content-Length"), cStr (ascii "2")⟩

def smallGet : ClientRequest := ⟨0, cStr (ascii "/a"), some (cStr (ascii "w=1")), [smallHost], []⟩

def smallPost : ClientRequest :=
  ⟨2, cStr (ascii "/upload"), none, [smallHost, smallLength], ascii "hi"⟩

theorem smallHost_plain : PlainHeader smallHost := by
  constructor <;> decide +kernel

theorem smallLength_plain : PlainHeader smallLength := by
  constructor <;> decide +kernel

theorem smallGet_formed : WellFormed smallGet where
  method := by decide
  absolute := by decide +kernel
  path := by decide +kernel
  args := by decide +kernel
  query args member := by
    obtain rfl := Option.some.inj member
    exact ⟨_, rfl⟩
  short := by decide +kernel
  headed := List.cons_ne_nil _ _
  headers header member := by
    obtain rfl := List.mem_singleton.mp member
    exact smallHost_plain
  unchunked header member := by
    obtain rfl := List.mem_singleton.mp member
    unfold Named
    decide +kernel
  kept header member := by
    obtain rfl := List.mem_singleton.mp member
    unfold Named
    decide +kernel
  lengths header member named := by
    obtain rfl := List.mem_singleton.mp member
    revert named
    unfold Named
    decide +kernel
  length some' := absurd rfl some'
  small := by decide

theorem smallPost_headers {header : EvhtpKv} (member : header ∈ smallPost.headers) :
    header = smallHost ∨ header = smallLength := by
  simpa [smallPost] using member

theorem smallPost_formed : WellFormed smallPost where
  method := by decide
  absolute := by decide +kernel
  path := by decide +kernel
  args := by decide +kernel
  query args member := by cases member
  short := by decide +kernel
  headed := List.cons_ne_nil _ _
  headers header member := by
    obtain rfl | rfl := smallPost_headers member
    · exact smallHost_plain
    · exact smallLength_plain
  unchunked header member := by
    unfold Named
    obtain rfl | rfl := smallPost_headers member <;> decide +kernel
  kept header member := by
    unfold Named
    obtain rfl | rfl := smallPost_headers member <;> decide +kernel
  lengths header member named := by
    obtain rfl | rfl := smallPost_headers member
    · revert named
      unfold Named
      decide +kernel
    · have two : decimalNat 2 = [50] := by
        norm_num [decimalNat]
        rfl
      exact Eq.trans (by decide +kernel) two.symm
  length _ := ⟨smallLength, by simp [smallPost], by unfold Named; decide +kernel⟩
  small := by decide +kernel

def smallEvents : List BevEvent :=
  [.read (smallGet.wire ++ smallPost.wire.take 9), .wrote true, .read (smallPost.wire.drop 9),
    .wrote true]

theorem loop_left {σ : Type} {hook : Htparser → Hook → σ → Bool × σ} (data : Bytes) (skip : Nat)
    (first : Bool) (p : Htparser) (s : σ)
    (through : (loop hook data skip first p s).stopped = false) :
    (loop hook data skip first p s).left = 0 := by
  induction data generalizing skip first p s with
  | nil => rfl
  | cons ch data ih =>
      cases skip with
      | succ skip => exact ih skip false p s through
      | zero =>
          rw [loop] at through ⊢
          cases turned : turnBack hook first p ch data s with
          | goes n p' s' =>
              rw [turned] at through
              exact ih _ _ _ _ through
          | stops n p' s' => simp [turned] at through

theorem reads_events (limit : UInt64) (data : List Bytes) (x : HttpConn) (alive : x.alive = true)
    (through : (reads requestPsets data x.parser x.conn).stopped = false) :
    (data.map BevEvent.read).foldl (HttpConn.event limit) x =
      { x with
        parser := (reads requestPsets data x.parser x.conn).parser
        conn := (reads requestPsets data x.parser x.conn).state } := by
  induction data generalizing x with
  | nil => rfl
  | cons first data ih =>
      have next : x.event limit (.read first) = x.readcb first := by simp [HttpConn.event, alive]
      rw [List.map_cons, List.foldl_cons, next]
      rw [reads] at through ⊢
      split at through
      · rename_i stopped
        rw [stopped] at through
        cases through
      · rename_i going
        rw [if_neg going]
        have left : (htparserRun requestPsets x.parser first x.conn).left = 0 :=
          loop_left _ _ _ _ _ (Bool.eq_false_of_not_eq_true going)
        have after : x.readcb first = { x with
            parser := (htparserRun requestPsets x.parser first x.conn).parser
            conn := (htparserRun requestPsets x.parser first x.conn).state } := by
          simp [HttpConn.readcb, left, alive]
        rw [after]
        exact ih _ alive through

/-- A stream that is taken at all is taken alike in all cuts. -/
theorem stream_uncut (maxKeepaliveRequests : UInt64) (data : List Bytes) (x : HttpConn)
    (alive : x.alive = true) (fine : x.parser.error = .none)
    (whole : (htparserRun requestPsets x.parser data.flatten x.conn).stopped = false)
    (free : Unblocked requestPsets data x.parser x.conn) :
    (data.map BevEvent.read).foldl (HttpConn.event maxKeepaliveRequests) x =
      x.event maxKeepaliveRequests (.read data.flatten) := by
  have same := reads_whole requestPsets_takes data fine whole free
  have left : (htparserRun requestPsets x.parser data.flatten x.conn).left = 0 :=
    loop_left _ _ _ _ _ whole
  rw [reads_events maxKeepaliveRequests data x alive (by rw [same]; exact whole), same]
  simp [HttpConn.event, HttpConn.readcb, alive, left]

def smallCuts : List Bytes := [ascii "GE", ascii "T / HTTP/1.1\x0d\n\x0d\n"]

theorem smallCuts_taken :
    (htparserRun requestPsets htparserInit smallCuts.flatten ⟨none, [], []⟩).stopped = false := by
  decide +kernel

theorem stream_uncut_small :
    (smallCuts.map BevEvent.read).foldl (HttpConn.event 1) evhtpConnectionNew =
      evhtpConnectionNew.event 1 (.read smallCuts.flatten) := by
  refine stream_uncut 1 smallCuts evhtpConnectionNew rfl rfl smallCuts_taken ⟨?_, ?_, trivial⟩
  · rintro ⟨-, blank⟩
    revert blank
    decide +kernel
  · rintro ⟨-, blank⟩
    cases blank

end Ximg.Wire
