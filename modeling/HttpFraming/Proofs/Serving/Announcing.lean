import HttpFraming.Proofs.Serving.Closing

/-!
# Responses that announce the end of the connection

The server announces the end of a connection in its refusals and in the answers to requests that
do not keep it, and behind these it ends. A handler may announce it as well, in the fields of an
answer. Nothing looks at these: whether the connection goes on is read from the request alone. So
a response that announces the end is the last one, unless the announcement is a handler's own in
the answer to a request that keeps the connection: `Session.run_announces`. In that case requests
are still read and answered: `Session.run_not_announced`.
-/

namespace HttpFraming

open Bytes

def Head.announcesEnd (h : Head k) : Bool :=
  h.hasConnectionOption "close"

/-! ## Connection fields of a response -/

theorem Head.announcesEnd_of_find?_none {h : Head k} (hnone : h.fields.find? .connection = none) :
    h.announcesEnd = false := by
  simp [announcesEnd, hasConnectionOption, connectionOptions, Fields.values, hnone]

/-- The server touches no field of a response but those on the body. -/
theorem ServerPairing.responseHead_find?_of_ne (pairing : ServerPairing) (response : Response)
    {name : FieldName} (hlength : name ≠ .contentLength) (hcoding : name ≠ .transferEncoding) :
    (pairing.responseHead response).1.head.fields.find? name = response.fields.find? name := by
  have hsanitize : response.sanitize.fields.find? name = response.fields.find? name := by
    unfold Head.sanitize
    dsimp only
    split
    · rw [Fields.find?_remove_of_ne _ hcoding, Fields.find?_remove_of_ne _ hlength]
    · split
      · exact Framing.announce_find?_of_ne .empty response.fields hlength hcoding
      · rfl
  unfold responseHead
  dsimp only
  split
  · rw [Fields.find?_remove_of_ne _ hcoding, hsanitize]
  · exact hsanitize

/-- The server adds no Connection field to the answer to a request that keeps the connection. -/
theorem Answer.responseTo_connection {answer : Answer} {request : Request}
    (hkeep : request.keepAlive = true) :
    (answer.responseTo request).fields.find? .connection = answer.fields.find? .connection := by
  simp only [responseTo, Response.prepare, hkeep, Bool.not_true, Bool.false_and,
    Bool.false_eq_true, if_false]
  exact Framing.announce_find?_of_ne _ _ (by decide) (by decide)

namespace Reply

theorem proceed_connection : proceed.head.fields.find? .connection = none :=
  rfl

/-- A refusal behind which the connection is kept does not announce anything else. -/
theorem refusal_connection (status : Status) :
    (refusal status false).head.fields.find? .connection = none := by
  show ((∅ : Fields).insert .contentLength (.ofNat 0)).find? .connection = none
  rw [Fields.find?_insert_of_ne _ _ (by decide)]
  rfl

end Reply

/-! ## Events -/

namespace Event

/-- The response is the handler's answer to the request that it was given last. The request keeps
the connection, and the Connection fields are those that the handler has set. -/
def Volunteers (handle : Handler η) (events : List Event) (response : Response) : Prop :=
  ∃ request body handler, asked? events = some (request, body) ∧ request.keepAlive = true ∧
    (∃ pairing : ServerPairing, response =
      (pairing.responseHead ((handle request body handler).1.responseTo request)).1.head) ∧
    response.fields.find? .connection = (handle request body handler).1.fields.find? .connection

/-- Each of these responses that announces the end does so as the handler's answer. -/
def Volunteered (handle : Handler η) (events : List Event) : Prop :=
  ∀ before response after, events = before ++ .answered response :: after →
    response.announcesEnd = true → Volunteers handle before response

namespace Volunteered

variable {η : Type} {handle : Handler η} {events : List Event} {response : Response}

theorem answered (h : Volunteered handle events) (hresponse : response.announcesEnd = false) :
    Volunteered handle (events ++ [.answered response]) :=
  each_answered h fun hannounces => absurd hannounces (by simp [hresponse])

theorem of_split {before after : List Event} (h : Volunteered handle events)
    (hsplit : events = marks before ++ .answered response :: after)
    (hannounces : response.announcesEnd = true) : Volunteers handle before response := by
  have hbefore := h (marks before) response after hsplit hannounces
  have hmarks : marks (marks before) = marks before := by
    simp [marks]
  have hasked : asked? (marks before) = asked? before := by
    rw [asked?, asked?, hmarks]
  rwa [Volunteers, hasked] at hbefore

end Volunteered

end Event

/-! ## Steps -/

namespace Ledger

variable {η : Type} {handle : Handler η} {ledger : Ledger} {response : Response}

theorem planned_connection (ledger : Ledger) (response : Response) :
    (ledger.planned response).fields.find? .connection = response.fields.find? .connection :=
  ledger.pairing.responseHead_find?_of_ne response (by decide) (by decide)

theorem volunteered_reply (h : Event.Volunteered handle ledger.marks)
    (hnone : response.fields.find? .connection = none) :
    Event.Volunteered handle (ledger.answer response).marks :=
  h.answered (Head.announcesEnd_of_find?_none ((ledger.planned_connection response).trans hnone))

/-- The handler's answer to a request that keeps the connection. -/
theorem volunteered_answer (h : Event.Volunteered handle ledger.marks) {request : Request}
    (hkeep : request.keepAlive = true) (body : Bytes) (handler : η) :
    Event.Volunteered handle ((ledger.handle request body).answer
      ((handle request body handler).1.responseTo request)).marks := by
  have hgiven : Event.Volunteered handle (ledger.handle request body).marks :=
    Event.each_handled h request body
  refine Event.each_answered hgiven fun _ => ?_
  have hasked := Event.asked?_handled ledger.marks request body
  exact ⟨request, body, handler, hasked, hkeep, ⟨ledger.pairing, rfl⟩,
    (planned_connection _ _).trans (Answer.responseTo_connection hkeep)⟩

end Ledger

theorem CollectSettings.Advances.volunteered {settings : CollectSettings}
    {phase next : CollectPhase .request} {message : Message .request}
    {out? : Option (Collected .request)} (h : settings.Advances phase message out? next)
    {handle : Handler η} {ledger : Ledger} (hledger : Event.Volunteered handle ledger.marks)
    (handler : η)
    (hkeep : ∀ whole, out? = some (.message whole) → whole.head.keepAlive = true) :
    Event.Volunteered handle ((ledger.note message).settle handle handler out?).marks := by
  have hnoted : Event.Volunteered handle (ledger.note message).marks := by
    cases message <;> exact hledger
  cases h with
  | accept head hsupported =>
      split
      · exact Ledger.volunteered_reply hnoted Reply.proceed_connection
      · exact hnoted
  | refuse head hrefusal =>
      exact Ledger.volunteered_reply hnoted (Reply.refusal_connection _)
  | gather head content awaited data hroom => exact hnoted
  | overflow head content awaited item =>
      exact Ledger.volunteered_reply hnoted (Reply.refusal_connection _)
  | finish head content awaited data trailers hroom =>
      exact Ledger.volunteered_answer hnoted (hkeep _ rfl) _ handler
  | drop item => exact hnoted

namespace Session

variable {η : Type} {handle : Handler η} {session after : Session η}

/-- Where the session may go on, only the handler has announced its end. -/
structure Volunteers (handle : Handler η) (session : Session η) : Prop where
  isOpen : session.collector.isClosed = false
  ledger : Event.Volunteered handle session.ledger.marks

theorem Volunteers.deal {message : Message .request} (h : session.Volunteers handle)
    (hdeal : deal handle message session = .ok true after) : after.Volunteers handle := by
  obtain ⟨out?, hadvances, -, -, hledger, hkeep⟩ := deal_advances h.isOpen hdeal
  refine ⟨by simpa [Collector.isClosed] using hadvances.ne_closed, ?_⟩
  rw [hledger]
  exact hadvances.volunteered h.ledger session.handler hkeep

/-- Whatever is read and however it fails, what is written are recorded responses. One that
announces the end of the connection, and behind which anything else is written or given to the
handler, or more is read, is the handler's answer to a request that keeps the connection, and the
announcement is the handler's own. -/
theorem run_announces (handle : Handler η) (limits : Limits) (settings : CollectSettings)
    (outlet : Outlet) (handler : η) (reads : List Read) :
    let first := start limits settings outlet handler
    let stop := (run handle reads first).2
    (∃ bytes body?, Event.Speaks stop.events bytes body? ∧ Event.output stop.events <+: bytes) ∧
    (∀ before response after, stop.events = before ++ .answered response :: after →
      response.announcesEnd = true → Event.marks after ≠ [] →
        Event.Volunteers handle before response) ∧
    ((∃ result stop, ∀ more, run handle (reads ++ more) first = (result, stop)) ∨
      ∃ middle, (∀ more, run handle (reads ++ more) first = run handle more middle) ∧
        Event.Volunteered handle middle.events) := by
  intro first stop
  have hstart : first.Volunteers handle :=
    ⟨rfl, fun before response after hnone => by simp [first, ledger, start, Event.marks] at hnone⟩
  obtain ⟨cuts, dealt, -, hserves⟩ := run_serves handle first rfl reads
  have hspoken : first.Spoken := .nil
  refine ⟨hserves.speaks hspoken, ?_, ?_⟩
  · intro before response after hsplit hannounces hafter
    -- With anything left to see behind it, the response was begun where the session went on.
    obtain ⟨front, last, given, -, hdeals, henters⟩ := hserves.enters
    obtain ⟨others, hothers⟩ := henters.front (Event.marks_split hsplit) hafter
    have hlast := hdeals.preserves Volunteers.deal hstart
    exact hlast.ledger.of_split hothers hannounces
  · rcases run_append_cases handle first rfl reads with ⟨middle, hdealt, hrun⟩ | hended
    · obtain ⟨cuts, last, block, -, hdeals, rfl⟩ := hdealt
      have hlast := hdeals.preserves Volunteers.deal hstart
      refine .inr ⟨_, hrun, fun before response after hsplit hannounces => ?_⟩
      exact hlast.ledger.of_split (Event.marks_split hsplit) hannounces
    · exact .inl hended

/-- Two requests that keep the connection. The handler announces the end of it in its first answer,
and still the second request is given to the handler and answered. -/
theorem run_not_announced :
    let handle : Handler Bool := fun _ body first =>
      (.respond .ok (if first then (∅ : Fields).insert .connection .close else ∅) (.whole body),
        false)
    let bytes := ascii "GET /a HTTP/1.1\r\n\r\nGET /b HTTP/1.1\r\n\r\n"
    let stop := (run handle [.bytes bytes] (start {} {} {} true)).2
    ∃ before response after, stop.events = before ++ .answered response :: after ∧
      response.status.isInformational = false ∧ response.announcesEnd = true ∧
      (Event.calls after).length = 1 ∧
      Event.output after = ascii
        ("HTTP/1.1 200 OK\r\nconnection: close\r\ncontent-length: 0\r\n\r\n" ++
          "HTTP/1.1 200 OK\r\ncontent-length: 0\r\n\r\n") := by
  intro handle bytes stop
  refine ⟨stop.events.take 1, ⟨.ok, .http11,
    .ofList [(.connection, .close), (.contentLength, .ofNat 0)]⟩, stop.events.drop 2, ?_⟩
  decide +kernel

end Session

end HttpFraming
