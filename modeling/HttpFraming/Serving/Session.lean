import HttpFraming.Collecting.Source
import HttpFraming.Endpoint.Server
import HttpFraming.Serving.Block
import HttpFraming.Serving.Environment

/-!
# Sessions

The state of a served connection, and what is done with one thing that came out of its
collector: a reply is written, a request is handed to the handler and the response
written, and a request that could not be read is answered with 400. The acts here write
and do not read: see `Act.IgnoresInput`.
-/

namespace HttpFraming

/-- What happens in a session: a response head is put into the outbox as it will be
read, bytes are written to the transport, a request is handed to the handler. -/
inductive Event
  | answered (response : Response)
  | wrote (data : Bytes)
  | handled (request : Request) (body : Bytes)
deriving DecidableEq

structure Session (η : Type) where
  server : Server
  collector : Collector .request Unit
  handler : η
  inbox : Bytes := []
  block : Block := {}
  outbox : Bytes := []
  outlet : Outlet := {}
  events : List Event := []

/-- Something done in a session, which may fail. What was done before stays done. -/
abbrev Act (η : Type) := EStateM HttpError (Session η)

/-- From so many bytes on the outbox is written out before more is put into it. -/
def outboxMark : Nat :=
  8192

namespace Session

def record (event : Event) : Act η Unit := fun session =>
  .ok () { session with events := session.events ++ [event] }

def flush : Act η Unit := fun session =>
  if session.outbox.isEmpty then .ok () session
  else
    let (taken, left, outlet) := session.outlet.accept session.outbox
    let events := if taken.isEmpty then session.events else session.events ++ [.wrote taken]
    let session := { session with outbox := left, outlet, events }
    if left.isEmpty then .ok () session
    else .error (.read (.io outlet.whenFull.message)) session

/-- Puts what the server writes into the outbox, also what it writes before it fails. -/
def write (encode : Server → Written Server) : Act η Unit := fun session =>
  let written := encode session.server
  let outbox := session.outbox ++ written.output
  let session := { session with server := written.state, outbox }
  match written.error? with
  | none => .ok () session
  | some error => .error (.write error) session

def backlog : Act η Nat := fun session =>
  .ok session.outbox.length session

def relieve : Act η Unit := do
  if outboxMark ≤ (← backlog) then flush

/-- The head that the server will make of a response. -/
def plan (response : Response) : Act η Response := fun session =>
  .ok (session.server.pairing.responseHead response).1.head session

/-- Puts a response head into the outbox, with what `encode` writes behind it. -/
def feedHead (encode : Server → Written Server) (response : Response) : Act η Unit := do
  relieve
  let planned ← plan response
  write encode
  record (.answered planned)

def sendHead (response : Response) : Act η Unit := do
  feedHead (·.encodeWhole response) response
  flush

def sendItem (item : Item) : Act η Unit := do
  relieve
  write (·.encode (.payload item))
  flush

def sendBadRequest : Act η Unit :=
  sendHead (Reply.refusal .badRequest true).head

/-- Writes the frames of a body, each as soon as it is there; trailers are kept for the
end. -/
def sendFrames : List Frame → Fields → Act η Unit
  | [], trailers => sendItem (.last [] trailers)
  | .data data :: more, trailers => do
      sendItem (.chunk data)
      sendFrames more trailers
  | .trailers fields :: more, trailers => sendFrames more (trailers.extend fields)
  | .error text :: _, _ => throw (.write (.invalidBody (.source text)))

end Session

def SizeHint.framing (hint : SizeHint) (version : Version) : Framing :=
  match hint.known? with
  | some 0 => .empty
  | some n => .length n
  | none => if version = .http10 then .untilClose else .chunked

/-- The head of a response in the version of its request, framed by the hint on its
body. A connection that ends with it says so where it would not end otherwise. -/
def Response.prepare (status : Status) (fields : Fields) (hint : SizeHint) (keepAlive : Bool)
    (version : Version) : Response :=
  let fields := (hint.framing version).announce fields
  let closes := !keepAlive && version == .http11
  ⟨status, version, if closes then fields.insert .connection .close else fields⟩

namespace Session

def sendResponse (answer : Answer) (keepAlive : Bool) (version : Version) : Act η Unit := do
  let (status, fields, body) := match answer with
    | .respond status fields body => (status, fields, body)
    | .failed => (.internalServerError, ∅, .empty)
  let response := Response.prepare status fields body.hint keepAlive version
  feedHead (·.encode (.header response)) response
  sendFrames body.frames ∅

def ask (handle : Handler η) (request : Request) (body : Bytes) : Act η Answer := fun session =>
  let (answer, handler) := handle request body session.handler
  .ok answer { session with handler, events := session.events ++ [.handled request body] }

/-- Deals with what the collector handed out, and says whether the session goes on. -/
def respond (handle : Handler η) (collected : Collected .request) : Act η Bool := do
  match collected with
  | .reply reply =>
      sendHead reply.head
      return !reply.close
  | .message message =>
      if message.failure?.isSome then
        sendBadRequest
        return false
      else
        let keepAlive := message.head.keepAlive
        let answer ← ask handle message.head message.body
        sendResponse answer keepAlive message.head.version
        return keepAlive
  | .forward (.failure _) =>
      sendBadRequest
      return false
  | .forward _ => throw (.read (.invalidBody .outsideRequest))

end Session

/-- The session after an act, whether it failed or not. -/
def Act.after (act : Act η α) (session : Session η) : Session η :=
  match act session with
  | .ok _ session => session
  | .error _ session => session

end HttpFraming
