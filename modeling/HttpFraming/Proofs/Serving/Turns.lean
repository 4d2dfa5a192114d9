import HttpFraming.Proofs.Collecting.Requests
import HttpFraming.Proofs.Serving.Writing

/-!
# The turns of a server

About each thing that was collected the server takes a turn: it writes a reply, or it hands
the request to the handler and writes the answer. `turns` lists the turns that a connection
with certain requests comes to. What a session does in one turn is `Session.respond_reply` and
`Session.respond_message`.
-/

namespace HttpFraming

open Bytes

/-! ## What is written for a response -/

namespace Parts

def framingFor (parts : Parts .response) (bodiless : Bool) : Framing :=
  if bodiless then .empty else parts.head.announcedFraming

def encodeFor (parts : Parts .response) (bodiless : Bool) : Written Encoder :=
  let written := ({} : Encoder).encodeHead parts.head (parts.framingFor bodiless)
  if written.error?.isSome then written
  else (written.state.encodeAll (Message.payloads parts.chunks parts.tail parts.trailers :
    List (Message .response))).behind written.output

theorem encodeFor_eq {parts : Parts .response} {bodiless : Bool} {written : Bytes}
    (hwrite : parts.head.write = .ok written) :
    parts.encodeFor bodiless =
      ((⟨some (.ofFraming (parts.framingFor bodiless))⟩ : Encoder).encodeAll
        (Message.payloads parts.chunks parts.tail parts.trailers :
          List (Message .response))).behind written := by
  simp [encodeFor, Encoder.encodeHead, Encoder.isIdle, hwrite]

theorem encodeFor_ok {parts : Parts .response} {bodiless : Bool} {bytes : Bytes} :
    parts.encodeFor bodiless = ⟨bytes, {}, none⟩ ↔
      ∃ written body, parts.head.write = .ok written ∧
        (⟨some (.ofFraming (parts.framingFor bodiless))⟩ : Encoder).encodeAll
          (Message.payloads parts.chunks parts.tail parts.trailers :
            List (Message .response)) = ⟨body, {}, none⟩ ∧ bytes = written ++ body := by
  constructor
  · intro h
    cases hwrite : parts.head.write with
    | error error => simp [encodeFor, Encoder.encodeHead, Encoder.isIdle, hwrite] at h
    | ok written =>
        rw [encodeFor_eq hwrite] at h
        rcases hbody : (⟨some (.ofFraming (parts.framingFor bodiless))⟩ : Encoder).encodeAll
          (Message.payloads parts.chunks parts.tail parts.trailers :
            List (Message .response)) with ⟨body, state, error?⟩
        simp only [hbody, Written.behind, Written.mk.injEq] at h
        obtain ⟨rfl, rfl, rfl⟩ := h
        exact ⟨written, body, rfl, rfl, rfl⟩
  · rintro ⟨written, body, hwrite, hbody, rfl⟩
    rw [encodeFor_eq hwrite, hbody]
    rfl

end Parts

namespace Answer

/-- What is sent for an answer: nothing but a status if the handler failed. -/
def sent : Answer → Status × Fields × ResponseBody
  | respond status fields body => (status, fields, body)
  | failed => (.internalServerError, ∅, .empty)

def status (answer : Answer) : Status :=
  answer.sent.1

def fields (answer : Answer) : Fields :=
  answer.sent.2.1

def body (answer : Answer) : ResponseBody :=
  answer.sent.2.2

def response (answer : Answer) : Response :=
  .prepare answer.status answer.fields answer.body.hint true .http11

def parts (answer : Answer) : Parts .response where
  head := answer.response.sanitize
  chunks := ResponseBody.pieces answer.body.frames
  trailers := ResponseBody.trailersOver answer.body.frames ∅

end Answer

/-! ## Turns -/

/-- A turn of the server: a reply to a request of some method, or a request that the handler
is given, with its body and the answer. -/
inductive Turn
  | reply (method : Method) (reply : Reply)
  | answered (request : Request) (body : Bytes) (answer : Answer)
deriving DecidableEq

namespace Turn

def method : Turn → Method
  | reply method _ => method
  | answered request _ _ => request.method

def parts : Turn → Parts .response
  | .reply _ given => { head := given.head }
  | .answered _ _ answer => answer.parts

def status (turn : Turn) : Status :=
  turn.parts.head.status

def isBodiless (turn : Turn) : Bool :=
  turn.status.isBodilessFor (some turn.method)

def encoded (turn : Turn) : Written Encoder :=
  turn.parts.encodeFor turn.isBodiless

def calls : Turn → List (Request × Bytes)
  | reply .. => []
  | answered request body _ => [(request, body)]

/-- What a client reads that wrote a request of this method. -/
def received (turn : Turn) : List (Message .response) :=
  if turn.isBodiless then [.header turn.parts.head, .payload .done] else turn.parts.received

end Turn

def asking (settings : CollectSettings) (request : Request) : List Turn :=
  if settings.asksFor request then [.reply request.method .proceed] else []

/-- The turns for one request, and the handler behind them: the request is refused, or the
handler is given it. -/
def turnsFor (settings : CollectSettings) (handle : Handler η) (parts : Parts .request)
    (handler : η) : List Turn × η :=
  let h := parts.head
  match settings.refusal? h parts.body.length with
  | some reply => (asking settings h ++ [.reply h.method reply], handler)
  | none =>
      let request := CollectSettings.collectedHead h parts.body.length
      let (answer, handler) := handle request parts.body handler
      (asking settings h ++ [.answered request parts.body answer], handler)

def turns (settings : CollectSettings) (handle : Handler η) : List (Parts .request) → η → List Turn
  | [], _ => []
  | parts :: more, handler =>
      let (first, handler) := turnsFor settings handle parts handler
      first ++ turns settings handle more handler

section

variable {η : Type} {settings : CollectSettings} {handle : Handler η} {parts : Parts .request}
  {handler : η}

/-- A request that is refused leaves the handler as it was. -/
theorem turnsFor_refused {reply : Reply}
    (h : settings.refusal? parts.head parts.body.length = some reply) :
    turnsFor settings handle parts handler =
      (asking settings parts.head ++ [.reply parts.head.method reply], handler) := by
  simp only [turnsFor, h]

theorem turnsFor_answered {request : Request} {answer : Answer} {next : η}
    (h : settings.refusal? parts.head parts.body.length = none)
    (hrequest : CollectSettings.collectedHead parts.head parts.body.length = request)
    (hanswer : handle request parts.body handler = (answer, next)) :
    turnsFor settings handle parts handler =
      (asking settings parts.head ++ [.answered request parts.body answer], next) := by
  simp only [turnsFor, h, hrequest, hanswer]

theorem turns_cons (more : List (Parts .request)) :
    turns settings handle (parts :: more) handler =
      (turnsFor settings handle parts handler).1 ++
        turns settings handle more (turnsFor settings handle parts handler).2 :=
  rfl

end

/-! ## Taking a turn -/

namespace Server

/-- The server stands where it writes the response to one request of this method. -/
structure Awaits (server : Server) (method : Method) : Prop where
  upgraded : server.upgraded = false
  encoder : server.encoder = {}
  pairing : server.pairing = ⟨⟨[method]⟩⟩

def answered (server : Server) (status : Status) : Server :=
  if status.isInterim then server else { server with pairing := {} }

theorem Awaits.answered_encoder {server : Server} {method : Method} (h : server.Awaits method)
    (status : Status) : { server.answered status with encoder := {} } = server.answered status := by
  rw [← h.encoder, answered]
  split <;> rfl

theorem encode_header {server : Server} {method : Method} (h : server.Awaits method)
    {response : Response} (htunnel : response.status.opensTunnel (some method) = false)
    {parts : Parts .response} (hhead : parts.head = response.sanitize) {written : Bytes}
    (hwrite : parts.head.write = .ok written) :
    server.encode (.header response) = ⟨written, { server.answered response.status with
      encoder := ⟨some (.ofFraming (parts.framingFor
        (response.status.isBodilessFor (some method))))⟩ }, none⟩ := by
  have hframing : (if response.status.isBodilessFor (some method) then some .empty else
      none).getD response.sanitize.announcedFraming =
        parts.framingFor (response.status.isBodilessFor (some method)) := by
    rw [Parts.framingFor, hhead]
    split <;> rfl
  rw [hhead] at hwrite
  by_cases hinterim : response.status.isInterim = true
  · simp [encode, h.upgraded, h.encoder, h.pairing, ServerPairing.responseHead, Pending.answer,
      hinterim, htunnel, hframing, Encoder.encodeHead, Encoder.isIdle, hwrite, Written.map, answered]
  · simp [encode, h.upgraded, h.encoder, h.pairing, ServerPairing.responseHead, Pending.answer,
      hinterim, htunnel, hframing, Encoder.encodeHead, Encoder.isIdle, hwrite, Written.map, answered]

theorem encodeWhole_eq {server : Server} {method : Method} (h : server.Awaits method)
    {response : Response} (hsanitized : response.sanitize = response)
    (htunnel : response.status.opensTunnel (some method) = false) {bytes : Bytes}
    (hencoded : ({ head := response } : Parts .response).encodeFor
      (response.status.isBodilessFor (some method)) = ⟨bytes, {}, none⟩) :
    server.encodeWhole response = ⟨bytes, server.answered response.status, none⟩ := by
  obtain ⟨written, body, hwrite, hbody, rfl⟩ := Parts.encodeFor_ok.mp hencoded
  obtain ⟨first, next, second, hfirst, hsecond, rfl⟩ := Encoder.encodeAll_cons_ok hbody
  cases hsecond
  have hhead := @encode_header server method h response htunnel { head := response }
    hsanitized.symm written hwrite
  have hlast : (⟨some (.ofFraming (({ head := response } : Parts .response).framingFor
      (response.status.isBodilessFor (some method))))⟩ : Encoder).encode
        (.payload .done : Message .response) = ⟨first, {}, none⟩ := hfirst
  simp only [encodeWhole, hhead, encode_payload, hlast, Written.map]
  simp [h.answered_encoder]

end Server

namespace Session

variable {η : Type} {handle : Handler η} {session : Session η} {method : Method}

/-- The session has come to stand there by asking the handler about these requests and by
writing these bytes, all of which are written out. -/
structure Turned (before : Session η) (server : Server) (handler : η)
    (calls : List (Request × Bytes)) (bytes : Bytes) (after : Session η) : Prop where
  server : after.server = server
  handler : after.handler = handler
  outlet : after.outlet = before.outlet
  calls : Event.calls after.events = Event.calls before.events ++ calls
  written : after.written = before.written ++ bytes
  outbox : after.outbox = []

theorem Turned.refl (h : session.outbox = []) :
    session.Turned session.server session.handler [] [] session :=
  ⟨rfl, rfl, rfl, by simp, by simp, h⟩

theorem Turned.trans {first second third : Session η} {server server' : Server}
    {handler handler' : η} {calls calls' : List (Request × Bytes)} {bytes bytes' : Bytes}
    (h : first.Turned server handler calls bytes second)
    (h' : second.Turned server' handler' calls' bytes' third) :
    first.Turned server' handler' (calls ++ calls') (bytes ++ bytes') third where
  server := h'.server
  handler := h'.handler
  outlet := h'.outlet.trans h.outlet
  calls := by rw [h'.calls, h.calls, List.append_assoc]
  written := by rw [h'.written, h.written, List.append_assoc]
  outbox := h'.outbox

theorem Wrote.turned {after : Session η} {server : Server} {bytes : Bytes}
    (h : session.Wrote server bytes after) (houtbox : after.outbox = []) :
    session.Turned server session.handler [] bytes after :=
  ⟨h.server, h.handler, h.outlet, by simp [h.calls], h.written, houtbox⟩

theorem respond_reply (hawaits : session.server.Awaits method)
    (hroom : session.outlet.room? = none) {reply : Reply} (hclose : reply.close = false)
    (hsanitized : reply.head.sanitize = reply.head)
    (htunnel : reply.head.status.opensTunnel (some method) = false) {bytes : Bytes}
    (hencoded : (Turn.reply method reply).encoded = ⟨bytes, {}, none⟩) :
    ∃ after, respond handle (.reply reply) session = .ok true after ∧
      session.Turned (session.server.answered reply.head.status) session.handler [] bytes after := by
  have hwhole := Server.encodeWhole_eq hawaits hsanitized htunnel hencoded
  obtain ⟨after, hact, hwrote, houtbox⟩ := sendHead_sends hroom hwhole
  refine ⟨after, Act.bind_ok.mpr ⟨(), after, hact, ?_⟩, hwrote.turned houtbox⟩
  rw [hclose]
  rfl

theorem sendResponse_eq (answer : Answer) :
    (sendResponse answer true .http11 : Act η Unit) =
      (feedHead (·.encode (.header answer.response)) answer.response >>= fun _ =>
        sendFrames answer.body.frames ∅) := by
  cases answer <;> rfl

theorem sendResponse_sends (hawaits : session.server.Awaits method)
    (hroom : session.outlet.room? = none) {answer : Answer}
    (herrorless : ResponseBody.IsErrorless answer.body.frames)
    (htunnel : answer.status.opensTunnel (some method) = false) {bytes : Bytes}
    (hencoded : answer.parts.encodeFor (answer.status.isBodilessFor (some method)) =
      ⟨bytes, {}, none⟩) :
    (sendResponse answer true .http11 : Act η Unit).Sends session
      (session.server.answered answer.status) bytes := by
  obtain ⟨written, body, hwrite, hbody, rfl⟩ := Parts.encodeFor_ok.mp hencoded
  have hhead := @Server.encode_header _ method hawaits answer.response htunnel answer.parts rfl
    written hwrite
  rw [sendResponse_eq]
  refine (feedHead_writes hroom hhead _).bind_sends fun middle hmiddle => ?_
  have hthere : middle.server.encoder.encodeAll (Message.payloads
      (ResponseBody.pieces answer.body.frames) [] (ResponseBody.trailersOver answer.body.frames ∅) :
        List (Message .response)) = ⟨body, {}, none⟩ := by
    rw [hmiddle.server]
    exact hbody
  have hframes := sendFrames_sends herrorless (hmiddle.outlet ▸ hroom) hthere
  rw [hmiddle.server] at hframes
  rwa [← hawaits.answered_encoder answer.status]

/-- A request is handed to the handler, and the answer is written. -/
theorem respond_message {message : WholeMessage .request}
    (hawaits : session.server.Awaits message.head.method) (hroom : session.outlet.room? = none)
    (hfailure : message.failure? = none) (hkeep : message.head.keepAlive = true)
    (hversion : message.head.version = .http11) {answer : Answer} {handler : η}
    (hanswer : handle message.head message.body session.handler = (answer, handler))
    (herrorless : ResponseBody.IsErrorless answer.body.frames)
    (htunnel : answer.status.opensTunnel (some message.head.method) = false) {bytes : Bytes}
    (hencoded : (Turn.answered message.head message.body answer).encoded = ⟨bytes, {}, none⟩) :
    ∃ after, respond handle (.message message) session = .ok true after ∧
      session.Turned (session.server.answered answer.status) handler
        [(message.head, message.body)] bytes after := by
  have hstatus : answer.parts.head.status = answer.status := Head.sanitize_status _
  simp only [Turn.encoded, Turn.parts, Turn.isBodiless, Turn.status, Turn.method, hstatus]
    at hencoded
  have hask : ask handle message.head message.body session = .ok answer { session with
      handler
      events := session.events ++ [.handled message.head message.body] } := by
    simp only [ask, hanswer]
  obtain ⟨after, hact, hwrote, houtbox⟩ := @sendResponse_sends η { session with
      handler
      events := session.events ++ [.handled message.head message.body] } message.head.method
    hawaits hroom answer herrorless htunnel bytes hencoded
  refine ⟨after, ?_, hwrote.server, hwrote.handler, hwrote.outlet, ?_, ?_, houtbox⟩
  · simp only [respond, hfailure, hkeep, hversion]
    exact Act.bind_ok.mpr ⟨answer, _, hask, Act.bind_ok.mpr ⟨(), after, hact, rfl⟩⟩
  · rw [hwrote.calls, Event.calls_append]
    rfl
  · rw [hwrote.written, written, Event.output_append]
    simp [written, Event.output]

end Session

end HttpFraming
