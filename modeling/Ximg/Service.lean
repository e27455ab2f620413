import Ximg.Callbacks
import Ximg.CacheTransparency
import Ximg.Library.Simulation
import Ximg.Output

/-!
# The server and its specification

A request is served by running its callback between the start of the request and the replies it sent.
The callback is the same in two settings: over the store functions, whose calls go to the disk, the
cache and the backend, and over a map of images, in which a request for an image is a lookup.
-/

namespace Ximg
open Text Vfs Calls

variable {Im : Type}

/-! ## Serving a request -/

inductive SessionOp where
  | requestNew
  /-- The replies that were sent since the last time. -/
  | replies

@[reducible] def SessionOp.Res : SessionOp → Type
  | requestNew => Unit
  | replies => List Reply

abbrev Session : Signature := ⟨SessionOp, SessionOp.Res⟩

def session (op : SessionOp) : Prog (Http.sum Session) op.Res := .call (.inr op) .ret

def serve (inetAton : Bytes → Option UInt32) (settings : HttpSettings) (visit : Visit) :
    Prog (Http.sum Session) (UInt32 × List Reply) := do
  session .requestNew
  let saddr ← (visitHandler inetAton settings visit).left
  let replies ← session .replies
  return (saddr, replies)

/-! ## Over the store functions -/

inductive ProcessOp where
  /-- A function that saves or gets an image is called. -/
  | called (op : StoreOp)
  | mallocBuff (size : Nat)
  | malloc
  | multipartParserInit (boundaryPattern : Bytes)
  | openPage (path : Bytes)
  | evbufferAddFile (path : Bytes)
  | evhtpSendReply (code : Nat)
  | fault
  | replies

@[reducible] def ProcessOp.Res : ProcessOp → Type
  | called _ | evbufferAddFile _ | evhtpSendReply _ => Unit
  | mallocBuff _ => Option Bytes
  | malloc | multipartParserInit _ | openPage _ => Bool
  | fault => Empty
  | replies => List Reply

abbrev Process : Signature := ⟨ProcessOp, ProcessOp.Res⟩

def process (op : ProcessOp) : Prog ((Sys Im).sum Process) op.Res := .call (.inr op) .ret

def Visit.MallocBuff (visit : Visit) (size : Nat) : Option Bytes → Prop
  | some block => size ≤ block.length
  | none => visit.allocates = false

structure Outside where
  sent : List Reply
  made : List StoreOp

/-- The pages of the configuration do not change. -/
def outside (pages : Bytes → Option Bytes) (visit : Visit) :
    Machine Process (World × Outside) where
  Legal s op r := match op, r with
    | .mallocBuff size, r => visit.MallocBuff size r
    | .malloc, r | .multipartParserInit _, r => visit.allocates = true → r = true
    | .openPage path, r => r = (pages path).isSome
    | .replies, r => r = s.2.sent
    | _, _ => True
  effect s op _ := match op with
    | .called op => (s.1, { s.2 with made := s.2.made ++ [op] })
    | .evbufferAddFile path => ({ s.1 with out := s.1.out ++ (pages path).getD [] }, s.2)
    | .evhtpSendReply code =>
        let reply := evhtpCreateReply code s.1.headersOut s.1.out
        ({ s.1 with out := [], headersOut := reply.headers }, { s.2 with sent := s.2.sent ++ [reply] })
    | .replies => (s.1, { s.2 with sent := [] })
    | _ => s

def server (env : Env Im) (pages : Bytes → Option Bytes) (visit : Visit) :
    Machine ((Sys Im).sum Process) (World × Outside) := env.machine.beside (outside pages visit)

def callbackCalls (settings : Settings) (visit : Visit) :
    (op : HttpOp) → Prog ((Sys Im).sum Process) op.Res
  | .zimgAccessInet conf addr => return zimgAccessInet conf addr
  | .mallocBuff size => process (.mallocBuff size)
  | .malloc => process .malloc
  | .multipartParserInit boundaryPattern => process (.multipartParserInit boundaryPattern)
  | .saveImg buff => do
      process (.called (.upload visit.thrArg buff))
      (saveImg settings visit.thrArg buff).left
  | .getImg req => do
      process (.called (.get req visit.request))
      (callGetImg settings req visit.request).left
  | .adminImg md5 t => (callAdminImg settings visit.thrArg md5 t).left
  | .infoImg md5 => (callInfoImg settings visit.thrArg md5).left
  | .openPage path => process (.openPage path)
  | .evbufferAddFile path => process (.evbufferAddFile path)
  | .evbufferAddPrintf text => (sys (.evbufferAddPrintf text)).left
  | .headersAddHeader key value => (sys (.headersAddHeader key value)).left
  | .evhtpSendReply code => process (.evhtpSendReply code)
  | .fault => process .fault

def serverCalls (settings : Settings) (visit : Visit) :
    (op : (Http.sum Session).Op) → Prog ((Sys Im).sum Process) ((Http.sum Session).Res op)
  | .inl op => callbackCalls settings visit op
  | .inr .requestNew => (sys .requestNew).left
  | .inr .replies => process .replies

/-- Each request meets the address that the one before it left on its connection. -/
def Threaded : (Nat → UInt32) → List (Visit × (UInt32 × List Reply)) → Prop
  | _, [] => True
  | addrs, (visit, answer) :: history =>
      visit.saddr = addrs visit.conn ∧
        Threaded (Function.update addrs visit.conn answer.1) history

instance decidableThreaded : (addrs : Nat → UInt32) →
    (history : List (Visit × (UInt32 × List Reply))) → Decidable (Threaded addrs history)
  | _, [] => .isTrue trivial
  | addrs, (visit, answer) :: history =>
      have := decidableThreaded (Function.update addrs visit.conn answer.1) history
      inferInstanceAs (Decidable (_ ∧ _))

theorem Threaded.front {addrs : Nat → UInt32} {before later : List (Visit × (UInt32 × List Reply))}
    (threaded : Threaded addrs (before ++ later)) : Threaded addrs before := by
  induction before generalizing addrs with
  | nil => trivial
  | cons x before ih => exact ⟨threaded.1, ih threaded.2⟩

/-- Requests in the order in which they are served, with their answers. New connections have the
addresses of their peers. -/
structure Served (inetAton : Bytes → Option UInt32) (settings : HttpSettings) (env : Env Im)
    (pages : Bytes → Option Bytes) (peers : Nat → UInt32) (s : World × Outside)
    (history : List (Visit × (UInt32 × List Reply))) (s' : World × Outside) : Prop where
  serves : Serves (server env pages)
    (fun visit => (serve inetAton settings visit).translate
      (serverCalls settings.toSettings visit)) s history s'
  threaded : Threaded peers history

/-! ## Over a map of images -/

structure Service where
  map : ImageMap
  out : Bytes
  headersOut : List (Bytes × Bytes)
  sent : List Reply
  /-- The uploads and GETs so far. -/
  made : List StoreOp

def infoText (env : Env Im) (im : Im) : Bytes :=
  let quality := env.lib (.getImageCompressionQuality im)
  let quality := if quality = 0 then 100 else quality
  ascii "\x7b\"code\":200,\"data\":\x7b\"size\":" ++ decimalNat (env.lib (.getImageLength im)) ++
    ascii ",\"width\":" ++ decimalNat (env.lib (.getImageWidth im)).toNat ++
    ascii ",\"height\":" ++ decimalNat (env.lib (.getImageHeight im)).toNat ++
    ascii ",\"quality\":" ++ decimalNat (ulong quality).toNat ++
    ascii ",\"format\":\"" ++ env.lib (.getImageFormat im) ++ ascii "\"\x7d\x7d"

section Specification
variable (settings : Settings) (env : Env Im)

def infoReply (m : ImageMap) (thrArg : ThrArg) (h : Md5) : Int × Bytes :=
  if Connected settings thrArg then
    match m h with
    | none => (0, [])
    | some buff => match env.lib (.readImageBlob buff) with
        | none => (-1, [])
        | some im => (1, infoText env im)
  else (0, [])

def adminReply (m : ImageMap) (thrArg : ThrArg) (h : Md5) (t : Int32) : Int :=
  if Connected settings thrArg ∧ m h ≠ none then
    if t = 1 then 1 else if settings.mode = 1 then -1 else 1
  else 2

def Erases (m : ImageMap) (thrArg : ThrArg) (h : Md5) (t : Int32) : Prop :=
  Connected settings thrArg ∧ m h ≠ none ∧ t = 1

instance (m : ImageMap) (thrArg : ThrArg) (h : Md5) (t : Int32) :
    Decidable (Erases settings m thrArg h t) := inferInstanceAs (Decidable (_ ∧ _ ∧ _))

def asMd5 (s : Bytes) : Option Md5 := if named : IsMd5 s then some ⟨s, named⟩ else none

def Service.administered (s : Service) (thrArg : ThrArg) (h : Md5) (t : Int32) : Service :=
  if Erases settings s.map thrArg h t then
    { s with
      map := s.map.remove h
      out := s.out ++ adminPage h.bytes t
      headersOut := s.headersOut ++ [(ascii "Content-Type", ascii "text/html")] }
  else s

def Service.described (s : Service) (thrArg : ThrArg) (h : Md5) : Service :=
  { s with out := s.out ++ (infoReply settings env s.map thrArg h).2 }

variable (pages : Bytes → Option Bytes)

/-- The specification of the server for one request. An upload for which there is no room may fail or
succeed, and is forgotten. -/
def service (visit : Visit) : Machine (Http.sum Session) Service where
  Legal s op r := match op, r with
    | .inl (.zimgAccessInet conf addr), r => r = zimgAccessInet conf addr
    | .inl (.mallocBuff size), r => visit.MallocBuff size r
    | .inl .malloc, r | .inl (.multipartParserInit _), r => visit.allocates = true → r = true
    | .inl (.saveImg buff), r => r.2 = (md5Of buff).bytes ∧
        (Connected settings visit.thrArg ∧ Storable settings (md5Of buff) → r.1 = 1) ∧
        (¬Connected settings visit.thrArg → r.1 = -1)
    | .inl (.getImg req), r => r = (getReply settings env s.map req visit.request).1
    | .inl (.adminImg md5 t), r => ∀ h ∈ asMd5 md5, r = adminReply settings s.map visit.thrArg h t
    | .inl (.infoImg md5), r => ∀ h ∈ asMd5 md5, r = (infoReply settings env s.map visit.thrArg h).1
    | .inl (.openPage path), r => r = (pages path).isSome
    | .inr .replies, r => r = s.sent
    | _, _ => True
  effect s op _ := match op with
    | .inl (.saveImg buff) =>
        { s with
          map := s.map.next settings (.upload visit.thrArg buff)
          made := s.made ++ [.upload visit.thrArg buff] }
    | .inl (.getImg req) =>
        { s with
          out := s.out ++ (getReply settings env s.map req visit.request).2
          headersOut := s.headersOut ++ getHeaders settings env s.map req visit.request
          made := s.made ++ [.get req visit.request] }
    | .inl (.adminImg md5 t) =>
        (asMd5 md5).elim s fun h => s.administered settings visit.thrArg h t
    | .inl (.infoImg md5) => (asMd5 md5).elim s fun h => s.described settings env visit.thrArg h
    | .inl (.evbufferAddFile path) => { s with out := s.out ++ (pages path).getD [] }
    | .inl (.evbufferAddPrintf text) => { s with out := s.out ++ text }
    | .inl (.headersAddHeader key value) => { s with headersOut := s.headersOut ++ [(key, value)] }
    | .inl (.evhtpSendReply code) =>
        let reply := evhtpCreateReply code s.headersOut s.out
        { s with out := [], headersOut := reply.headers, sent := s.sent ++ [reply] }
    | .inr .requestNew => { s with out := [], headersOut := [] }
    | .inr .replies => { s with sent := [] }
    | _ => s

end Specification

abbrev Specified (inetAton : Bytes → Option UInt32) (settings : HttpSettings) (env : Env Im)
    (pages : Bytes → Option Bytes) (s : Service)
    (history : List (Visit × (UInt32 × List Reply))) (s' : Service) : Prop :=
  Serves (service settings.toSettings env pages) (serve inetAton settings) s history s'

end Ximg
