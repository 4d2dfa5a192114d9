import HttpFraming.Proofs.Serving.Answers
import HttpFraming.Proofs.Serving.Marks

/-!
# Where responses end

A client that is sent more than one response has to find where each of them ends. Behind every
response but the last one, a status, a length or chunks say so: `Session.run_delimited`. There is
one exception. Whether a connection is kept is read from the request alone, so a request of
version 1.0 keeps it even if the answer has a body of unknown size, which runs until the
connection is closed: `Session.run_not_delimited`.
-/

namespace HttpFraming

open Bytes

/-- Whether the end of the body can be found, in an answer to a request of this method, before
the connection is closed. -/
def Head.isDelimitedFor (response : Response) (method? : Option Method) : Bool :=
  response.status.isBodilessFor method? || response.fields.contains .contentLength ||
    response.isChunked

/-! ## Single responses -/

section

variable {response : Response} {method? : Option Method}

theorem Head.announce_isDelimitedFor {framing : Framing} (h : framing ≠ .untilClose) :
    (response.announce framing).isDelimitedFor method? = true := by
  cases framing with
  | length n => simp [isDelimitedFor, announce, Framing.announce, Fields.contains]
  | chunked =>
      cases response.announces_chunked with
      | chunked hchunked hlength => simp [isDelimitedFor, hchunked]
  | empty => simp [isDelimitedFor, announce, Framing.announce, Fields.contains]
  | untilClose => exact absurd rfl h

/-- What is taken out of a head or put into it before it is written leaves it delimited. -/
theorem ServerPairing.responseHead_isDelimitedFor {pairing : ServerPairing}
    (hmethod : pairing.pending.methods.head? = method?)
    (h : response.isDelimitedFor method? = true) :
    (pairing.responseHead response).1.head.isDelimitedFor method? = true := by
  have hstatus : (pairing.responseHead response).1.head.status = response.status :=
    pairing.underway_status response
  by_cases hbodiless : response.status.isBodilessFor method? = true
  · simp [Head.isDelimitedFor, hstatus, hbodiless]
  · have hanswer : (pairing.pending.answer response.status).1 = method? := by
      rw [← hmethod, Pending.answer]
      split <;> rfl
    rw [Bool.not_eq_true] at hbodiless
    have hbodied := hbodiless
    simp only [Status.isBodilessFor, Status.isBodiless, Bool.or_eq_false_iff] at hbodied
    obtain ⟨⟨⟨⟨hinformational, hempty⟩, -⟩, -⟩, htunnel⟩ := hbodied
    simp only [responseHead, hanswer, htunnel, Bool.false_eq_true, if_false, Head.sanitize,
      hinformational, hempty, Bool.or_self]
    -- Only 205 still changes the head, and announces that there is no body.
    split
    · exact Head.announce_isDelimitedFor (by decide)
    · exact h

theorem Reply.IsPlain.responseHead_eq {reply : Reply} (h : reply.IsPlain)
    (pairing : ServerPairing) : (pairing.responseHead reply.head).1.head = reply.head := by
  simp [ServerPairing.responseHead, h.sanitized, Status.opensTunnel, h.failure]

/-- The answer to a request with which the connection is kept: unless the hint leaves the size
open and the version knows no chunks, it is delimited. -/
theorem Answer.responseTo_isDelimitedFor {answer : Answer} {request : Request}
    (hkeep : request.keepAlive = true)
    (h : answer.body.hint.known? ≠ none ∨ request.version ≠ .http10) :
    (answer.responseTo request).isDelimitedFor method? = true := by
  have hframing : answer.body.hint.framing request.version ≠ .untilClose := by
    unfold SizeHint.framing
    cases hknown : answer.body.hint.known? with
    | none => simp [h.resolve_left (absurd hknown)]
    | some n => cases n <;> nofun
  have hresponse : answer.responseTo request =
      Head.announce (k := .response) ⟨answer.status, request.version, answer.fields⟩
        (answer.body.hint.framing request.version) := by
    simp [responseTo, Response.prepare, hkeep, Head.announce]
  rw [hresponse]
  exact Head.announce_isDelimitedFor hframing

end

/-- The answer to a request as it is written, if the request alone waits for its response. -/
def Answer.writtenTo (answer : Answer) (request : Request) : Response :=
  ((⟨⟨[request.method]⟩⟩ : ServerPairing).responseHead (answer.responseTo request)).1.head

/-! ## Events -/

namespace Event

/-- What the handler was given last, if no response has been begun since. -/
def asked? (events : List Event) : Option (Request × Bytes) :=
  match (marks events).getLast? with
  | some (.handled request body) => some (request, body)
  | _ => none

theorem asked?_handled (events : List Event) (request : Request) (body : Bytes) :
    asked? (events ++ [.handled request body]) = some (request, body) := by
  have hmark : marks [.handled request body] = [.handled request body] := rfl
  rw [asked?, marks_append, hmark, List.getLast?_concat]

/-- The response is the handler's answer to a request of version 1.0 that keeps the connection,
with a body of unknown size. -/
def LeavesOpen (handle : Handler η) (events : List Event) (response : Response) : Prop :=
  ∃ request body handler, asked? events = some (request, body) ∧ request.version = .http10 ∧
    request.keepAlive = true ∧ (handle request body handler).1.body.hint.known? = none ∧
    response = (handle request body handler).1.writtenTo request

def Delimits (handle : Handler η) (events : List Event) (response : Response) : Prop :=
  response.isDelimitedFor ((asked? events).map fun call => call.1.method) = true ∨
    LeavesOpen handle events response

theorem delimits_marks {handle : Handler η} {events : List Event} {response : Response} :
    Delimits handle (marks events) response ↔ Delimits handle events response := by
  have hmarks : marks (marks events) = marks events := by
    simp [marks]
  have hasked : asked? (marks events) = asked? events := by
    rw [asked?, asked?, hmarks]
  rw [Delimits, Delimits, LeavesOpen, LeavesOpen, hasked]

def Delimited (handle : Handler η) (events : List Event) : Prop :=
  ∀ before response after, events = before ++ .answered response :: after →
    response.status.isInformational = false → Delimits handle before response

namespace Delimited

variable {η : Type} {handle : Handler η} {events : List Event}

theorem handled (h : Delimited handle events) (request : Request) (body : Bytes) :
    Delimited handle (events ++ [.handled request body]) :=
  each_handled h request body

theorem answered (h : Delimited handle events) {response : Response}
    (hresponse : response.status.isInformational = false → Delimits handle events response) :
    Delimited handle (events ++ [.answered response]) :=
  each_answered h hresponse

end Delimited

end Event

/-! ## Steps -/

def CollectPhase.methods : CollectPhase .request → List Method
  | collecting h _ _ => [h.method]
  | _ => []

/-- Where a collector stands in this phase, the request that it collects waits for its response,
and there is none that has been left undelimited. -/
structure Ledger.Keeps (ledger : Ledger) (handle : Handler η) (phase : CollectPhase .request) :
    Prop where
  pairing : ledger.pairing = ⟨⟨phase.methods⟩⟩
  delimited : Event.Delimited handle ledger.marks

namespace Ledger

variable {η : Type} {handle : Handler η} {ledger : Ledger} {phase next : CollectPhase .request}
  {response : Response} {method : Method}

theorem planned_refusal {status : Status} (hrefusal : status.isRefusal = true) :
    ledger.planned (Reply.refusal status false).head = (Reply.refusal status false).head :=
  (Reply.refusal_isPlain (Status.le_code_of_isRefusal hrefusal)).responseHead_eq ledger.pairing

theorem Keeps.interim (h : ledger.Keeps handle phase)
    (hinterim : response.status.isInterim = true) :
    (ledger.answer response).Keeps handle phase where
  pairing := by
    rw [answer, ServerPairing.responseHead, Pending.answer_of_interim hinterim]
    exact h.pairing
  delimited := h.delimited.answered fun hfinal => by
    rw [planned_status] at hfinal
    simp [Status.isInterim, hfinal] at hinterim

theorem final (hpairing : ledger.pairing = ⟨⟨[method]⟩⟩)
    (hdelimited : Event.Delimited handle ledger.marks)
    (hfinal : response.status.isInformational = false)
    (hresponse : Event.Delimits handle ledger.marks (ledger.planned response))
    (hnext : next.methods = []) : (ledger.answer response).Keeps handle next where
  pairing := by
    have hinterim : response.status.isInterim = false := by simp [Status.isInterim, hfinal]
    rw [answer, hnext, ServerPairing.responseHead, hpairing, Pending.answer_of_final hinterim rfl]
  delimited := hdelimited.answered fun _ => hresponse

theorem refused (hpairing : ledger.pairing = ⟨⟨[method]⟩⟩)
    (hdelimited : Event.Delimited handle ledger.marks) {status : Status}
    (hrefusal : status.isRefusal = true) (hnext : next.methods = []) :
    (ledger.answer (Reply.refusal status false).head).Keeps handle next := by
  refine final hpairing hdelimited (Status.isInformational_of_isRefusal hrefusal) (.inl ?_) hnext
  rw [planned_refusal hrefusal]
  have hempty : Framing.empty ≠ .untilClose := by decide
  exact @Head.announce_isDelimitedFor ⟨status, .http11, ∅⟩ _ _ hempty

theorem answered (hfinal : ∀ request body handler,
      (handle request body handler).1.status.isInformational = false)
    {request : Request} (hpairing : ledger.pairing = ⟨⟨[request.method]⟩⟩)
    (hdelimited : Event.Delimited handle ledger.marks) (hkeep : request.keepAlive = true)
    (body : Bytes) (handler : η) (hnext : next.methods = []) :
    ((ledger.handle request body).answer
      ((handle request body handler).1.responseTo request)).Keeps handle next := by
  have hasked : Event.asked? (ledger.handle request body).marks = some (request, body) :=
    Event.asked?_handled ledger.marks request body
  refine final hpairing (hdelimited.handled request body) (hfinal request body handler) ?_ hnext
  by_cases hopen : (handle request body handler).1.body.hint.known? = none ∧
      request.version = .http10
  · refine .inr ⟨request, body, handler, hasked, hopen.2, hkeep, hopen.1, ?_⟩
    rw [planned, Ledger.handle, hpairing, Answer.writtenTo]
  · refine .inl ?_
    rw [hasked]
    have hmethod : ledger.pairing.pending.methods.head? = some request.method := by
      rw [hpairing]
      rfl
    refine ServerPairing.responseHead_isDelimitedFor hmethod ?_
    exact Answer.responseTo_isDelimitedFor hkeep (Decidable.not_and_iff_not_or_not.mp hopen)

theorem Keeps.note_pairing (h : ledger.Keeps handle .idle) (request : Request) :
    (ledger.note (.header request)).pairing = ⟨⟨[request.method]⟩⟩ := by
  rw [note, h.pairing]
  rfl

end Ledger

theorem Head.admitted_method (h : Request) : h.admitted.method = h.method := by
  unfold admitted
  split <;> rfl

section

variable {η : Type} {handle : Handler η}
  (hfinal : ∀ request body handler, (handle request body handler).1.status.isInformational = false)

include hfinal

theorem CollectSettings.Advances.keeps {settings : CollectSettings}
    {phase next : CollectPhase .request} {message : Message .request}
    {out? : Option (Collected .request)} (h : settings.Advances phase message out? next)
    {ledger : Ledger} (hledger : ledger.Keeps handle phase) (handler : η)
    (hkeep : ∀ whole, out? = some (.message whole) → whole.head.keepAlive = true) :
    ((ledger.note message).settle handle handler out?).Keeps handle next := by
  cases h with
  | accept head hsupported =>
      have hnoted : (ledger.note (.header head)).Keeps handle
          (.collecting head.admitted {} (head.expectation == .awaitContinue)) :=
        ⟨by rw [hledger.note_pairing, CollectPhase.methods, head.admitted_method],
          hledger.delimited⟩
      split
      · exact hnoted.interim rfl
      · exact hnoted
  | refuse head hrefusal =>
      exact Ledger.refused (hledger.note_pairing head) hledger.delimited hrefusal rfl
  | gather head content awaited data hroom => exact ⟨hledger.pairing, hledger.delimited⟩
  | overflow head content awaited item =>
      refine Ledger.refused hledger.pairing hledger.delimited rfl ?_
      cases item <;> rfl
  | finish head content awaited data trailers hroom =>
      have hkept := hkeep _ rfl
      have hpairing : ledger.pairing =
        ⟨⟨[((content.push data).finish head trailers).head.method]⟩⟩ := hledger.pairing
      exact Ledger.answered hfinal hpairing hledger.delimited hkept _ handler rfl
  | drop item =>
      refine ⟨hledger.pairing.trans ?_, hledger.delimited⟩
      cases item <;> rfl

namespace Session

variable {session after : Session η}

structure Keeps (handle : Handler η) (session : Session η) : Prop where
  isOpen : session.collector.isClosed = false
  ledger : session.ledger.Keeps handle session.collector.phase

theorem Keeps.deal {message : Message .request} (h : session.Keeps handle)
    (hdeal : deal handle message session = .ok true after) : after.Keeps handle := by
  obtain ⟨out?, hadvances, -, -, hledger, hkeep⟩ := deal_advances h.isOpen hdeal
  refine ⟨by simpa [Collector.isClosed] using hadvances.ne_closed, ?_⟩
  rw [hledger]
  exact hadvances.keeps hfinal h.ledger session.handler hkeep

theorem Keeps.deals {messages : List (Message .request)} (h : session.Keeps handle)
    (hdeals : Deals handle session messages after) : after.Keeps handle :=
  hdeals.preserves (fun hbefore hdeal => hbefore.deal hfinal hdeal) h

/-- Whatever is read and however it fails, what is written are recorded responses, and a final one
behind which anything else is written or given to the handler is delimited. The exception are
answers of unknown size to requests of version 1.0 that keep the connection. -/
theorem run_delimited (limits : Limits) (settings : CollectSettings) (outlet : Outlet)
    (handler : η) (reads : List Read) :
    let stop := (run handle reads (start limits settings outlet handler)).2
    (∃ bytes body?, Event.Speaks stop.events bytes body? ∧ Event.output stop.events <+: bytes) ∧
      ∀ before response after, stop.events = before ++ .answered response :: after →
        response.status.isInformational = false → Event.marks after ≠ [] →
          Event.Delimits handle before response := by
  intro stop
  obtain ⟨cuts, dealt, -, hserves⟩ :=
    run_serves handle (start limits settings outlet handler) rfl reads
  have hspoken : (start limits settings outlet handler).Spoken := .nil
  refine ⟨hserves.speaks hspoken, fun before response after hsplit hresponse hafter => ?_⟩
  have hstart : (start limits settings outlet handler).Keeps handle :=
    ⟨rfl, rfl, fun before response after hnone => by simp [ledger, start, Event.marks] at hnone⟩
  obtain ⟨front, last, given, -, hdeals, henters⟩ := hserves.enters
  have hmarks : Event.marks stop.events =
      Event.marks before ++ .answered response :: Event.marks after := by
    rw [hsplit, Event.marks_append]
    rfl
  obtain ⟨others, hfront⟩ := henters.front hmarks hafter
  have hdelimits := (hstart.deals hfinal hdeals).ledger.delimited _ response others hfront hresponse
  rwa [Event.delimits_marks] at hdelimits

end Session

end

namespace Session

/-- Two requests, the first of which is answered in chunks. -/
theorem run_delimited_of_chunks :
    let handle : Handler Unit := fun _ _ state =>
      (.respond .ok ∅ ⟨[.data (ascii "ab"), .data (ascii "cd")], {}⟩, state)
    let reads : List Read := [.bytes (ascii "GET / HTTP/1.1\r\n\r\nGET /n HTTP/1.1\r\n\r\n")]
    let stop := (run handle reads (start {} {} {} ())).2
    (∀ request body state, (handle request body state).1.status.isInformational = false) ∧
      (Event.calls stop.events).length = 2 ∧
      ∀ before response after, stop.events = before ++ .answered response :: after →
        response.status.isInformational = false → Event.marks after ≠ [] →
          Event.Delimits handle before response :=
  ⟨fun _ _ _ => rfl, by decide +kernel, (run_delimited (fun _ _ _ => rfl) {} {} {} () _).2⟩

/-- A request of version 1.0 that keeps the connection, and one behind it. The first answer has a
body of unknown size, which nothing but the end of the connection delimits, and still the second
request is given to the handler and answered. -/
theorem run_not_delimited :
    let handle : Handler Bool := fun _ body first =>
      if first then (.respond .ok ∅ ⟨[.data (ascii "ab"), .data (ascii "cd")], {}⟩, false)
      else (.respond .ok ∅ (.whole body), false)
    let bytes := ascii
      "GET /k HTTP/1.0\r\nConnection: keep-alive\r\n\r\nGET /n HTTP/1.1\r\n\r\n"
    let stop := (run handle [.bytes bytes] (start {} {} {} true)).2
    (∀ request body state, (handle request body state).1.status.isInformational = false) ∧
      ∃ before response after, stop.events = before ++ .answered response :: after ∧
        response.status.isInformational = false ∧
        response.isDelimitedFor ((Event.asked? before).map fun call => call.1.method) = false ∧
        (Event.calls after).length = 1 ∧
        Event.output after = ascii
          ("HTTP/1.0 200 OK\r\n\r\nabcd" ++ "HTTP/1.1 200 OK\r\ncontent-length: 0\r\n\r\n") := by
  intro handle bytes stop
  refine ⟨fun request body state => by cases state <;> rfl, stop.events.take 1,
    ⟨.ok, .http10, ∅⟩, stop.events.drop 2, ?_⟩
  decide +kernel

end Session

end HttpFraming
