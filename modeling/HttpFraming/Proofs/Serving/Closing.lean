import HttpFraming.Proofs.Arrival.Independence
import HttpFraming.Proofs.Serving.Delimiting
import HttpFraming.Proofs.Serving.Finals

/-!
# The last request that is served

A request that does not keep its connection is the last one to be answered. Behind the final
response to it nothing more is begun, the handler is not called again and no more is read:
`Session.run_closes`. Refusals are the exception. An expectation that cannot be met costs the
connection only where the settings say so: `Session.run_not_closed`. Nor does a body that is
refused to a client that was waiting to send it.
-/

namespace HttpFraming

open Bytes

/-- What lets the connection go on behind the final response to a request: the request, or that it
was refused in one of two ways on a connection that is not closed on refusals. -/
inductive Head.Outlived (settings : CollectSettings) (request : Request) (response : Response) :
    Prop
  | kept (hkeep : request.keepAlive = true)
  | unsupported (hopen : settings.closeOnRefusal = false)
      (hexpects : request.expectation = .unsupported)
      (hresponse : response = (Reply.expectationFailed false).head)
  | awaited (hopen : settings.closeOnRefusal = false)
      (hexpects : request.expectation = .awaitContinue)
      (hresponse : response = (Reply.tooLarge false).head)

/-! ## Refusals behind which the connection is kept -/

namespace CollectSettings

variable {settings : CollectSettings} {request : Request}

theorem outlived_of_tooLarge (hkept : settings.closesOnTooLarge request.keepAlive
      (request.expectation == .awaitContinue) = false) :
    request.Outlived settings (Reply.tooLarge false).head := by
  obtain ⟨hopen, hkeep | hawaited⟩ := closesOnTooLarge_eq_false.mp hkept
  · exact .kept hkeep
  · exact .awaited hopen (by simpa using hawaited) rfl

theorem outlived_of_inspect {reply : Reply} {h : Request}
    (hinspect : settings.inspect request = .ok (.refuse reply, h)) (hkept : reply.close = false) :
    request.Outlived settings reply.head := by
  rcases inspect_kept hinspect hkept with ⟨hopen, hunsupported, rfl⟩ | ⟨hopen, rfl⟩
  · exact .unsupported hopen hunsupported rfl
  · exact outlived_of_tooLarge hopen

end CollectSettings

/-! ## Which request a response answers -/

namespace Event

/-- What the events so far tell about the responses to come: how many requests have their final
response, and whether the handler was given one whose response has not been begun. -/
structure Tally where
  answered : Nat := 0
  asked : Bool := false

namespace Tally

/-- Whether a response is the final one to its request. The handler answers once, in any status;
what is not asked of it is answered with a final status. -/
def closes (tally : Tally) (response : Response) : Bool :=
  tally.asked || !response.status.isInformational

def note (tally : Tally) : Event → Tally
  | .answered response => ⟨tally.answered + (tally.closes response).toNat, false⟩
  | .handled .. => { tally with asked := true }
  | .wrote _ => tally

end Tally

def tally (events : List Event) : Tally :=
  events.foldl Tally.note {}

theorem tally_concat (events : List Event) (event : Event) :
    tally (events ++ [event]) = (tally events).note event := by
  simp [tally]

theorem tally_marks (events : List Event) : tally (marks events) = tally events := by
  rw [tally, marks, List.foldl_filter, tally]
  congr 1
  funext tally event
  cases event <;> rfl

/-- Behind these events the response answers one of these requests, in their order, and the
connection may go on behind it. -/
def Outlives (settings : CollectSettings) (requests : List Request) (events : List Event)
    (response : Response) : Prop :=
  ∃ request, requests[(tally events).answered]? = some request ∧ request.Outlived settings response

def Outlived (settings : CollectSettings) (requests : List Request) (events : List Event) : Prop :=
  ∀ before response after, events = before ++ .answered response :: after →
    (tally before).closes response = true → Outlives settings requests before response

namespace Outlived

variable {settings : CollectSettings} {requests more : List Request} {events : List Event}
  {response : Response}

theorem mono (h : Outlived settings requests events) (hmore : requests <+: more) :
    Outlived settings more events := by
  intro before response after hsplit hcloses
  obtain ⟨request, hrequest, hkept⟩ := h before response after hsplit hcloses
  obtain ⟨behind, rfl⟩ := hmore
  have hindex := (List.getElem?_eq_some_iff.mp hrequest).1
  exact ⟨request, by rw [List.getElem?_append_left hindex, hrequest], hkept⟩

theorem handled (h : Outlived settings requests events) (request : Request) (body : Bytes) :
    Outlived settings requests (events ++ [.handled request body]) :=
  each_handled h request body

theorem answered (h : Outlived settings requests events)
    (hresponse : (tally events).closes response = true →
      Outlives settings requests events response) :
    Outlived settings requests (events ++ [.answered response]) :=
  each_answered h hresponse

theorem of_split {before after : List Event} (h : Outlived settings requests events)
    (hsplit : events = marks before ++ .answered response :: after)
    (hcloses : (tally before).closes response = true) :
    Outlives settings requests before response := by
  have hbefore := h (marks before) response after hsplit
  rw [Outlives, tally_marks] at hbefore
  exact hbefore hcloses

end Outlived

end Event

/-! ## Steps -/

/-- Where a collector stands when these heads were read and so many requests have their final
response: all of them, but for the last one while it is collected. -/
def CollectPhase.Stands (requests : List Request) (answered : Nat) : CollectPhase .request → Prop
  | collecting h _ awaited => ∃ front request, requests = front ++ [request] ∧
      answered = front.length ∧ h = request.admitted ∧
        awaited = (request.expectation == .awaitContinue)
  | _ => answered = requests.length

theorem CollectPhase.stands_behind (requests : List Request) (item : Item) :
    Stands requests requests.length (if item.isLast then .idle else .dropping) := by
  cases item <;> exact rfl

/-- Where a collector is in this phase and these heads were read, no response is due to a request
that the handler was given, and every final one so far is outlived. -/
structure Ledger.Settles (ledger : Ledger) (settings : CollectSettings)
    (phase : CollectPhase .request) (requests : List Request) : Prop where
  asked : (Event.tally ledger.marks).asked = false
  stands : phase.Stands requests (Event.tally ledger.marks).answered
  outlived : Event.Outlived settings requests ledger.marks

namespace Ledger

variable {η : Type} {ledger : Ledger} {settings : CollectSettings}
  {phase next : CollectPhase .request} {requests : List Request} {request : Request}
  {response : Response}

theorem Settles.proceed (h : ledger.Settles settings phase requests) :
    (ledger.answer Reply.proceed.head).Settles settings phase requests := by
  have hinterim :
      (Event.tally ledger.marks).closes (ledger.planned Reply.proceed.head) = false := by
    rw [Event.Tally.closes, h.asked, ledger.planned_status]
    rfl
  refine ⟨?_, ?_, h.outlived.answered fun hcloses => ?_⟩
  · rw [answer, Event.tally_concat]
    rfl
  · rw [answer, Event.tally_concat, Event.Tally.note, hinterim]
    exact h.stands
  · rw [hinterim] at hcloses
    cases hcloses

theorem settles_final (hanswered : (Event.tally ledger.marks).answered = requests.length)
    (houtlived : Event.Outlived settings (requests ++ [request]) ledger.marks)
    (hcloses : (Event.tally ledger.marks).closes (ledger.planned response) = true)
    (hkept : request.Outlived settings (ledger.planned response))
    (hnext : next.Stands (requests ++ [request]) (requests ++ [request]).length) :
    (ledger.answer response).Settles settings next (requests ++ [request]) := by
  refine ⟨?_, ?_, houtlived.answered fun _ => ⟨request, ?_, hkept⟩⟩
  · rw [answer, Event.tally_concat]
    rfl
  · rw [answer, Event.tally_concat, Event.Tally.note, hcloses, hanswered]
    simpa using hnext
  · rw [hanswered]
    simp

theorem settles_refused (hanswered : (Event.tally ledger.marks).answered = requests.length)
    (houtlived : Event.Outlived settings (requests ++ [request]) ledger.marks)
    {status : Status} (hrefusal : status.isRefusal = true)
    (hkept : request.Outlived settings (Reply.refusal status false).head)
    (hnext : next.Stands (requests ++ [request]) (requests ++ [request]).length) :
    (ledger.answer (Reply.refusal status false).head).Settles settings next
      (requests ++ [request]) := by
  have hplain := ledger.planned_refusal hrefusal
  refine settles_final hanswered houtlived ?_ (by rwa [hplain]) hnext
  rw [hplain, Event.Tally.closes]
  simp [Head.status, Reply.refusal, Status.isInformational_of_isRefusal hrefusal]

theorem settles_handled (hanswered : (Event.tally ledger.marks).answered = requests.length)
    (houtlived : Event.Outlived settings (requests ++ [request]) ledger.marks)
    (hkeep : request.keepAlive = true) (given : Request) (body : Bytes) (response : Response)
    (hnext : next.Stands (requests ++ [request]) (requests ++ [request]).length) :
    ((ledger.handle given body).answer response).Settles settings next (requests ++ [request]) := by
  have htally : Event.tally (ledger.handle given body).marks =
      ⟨(Event.tally ledger.marks).answered, true⟩ := by
    rw [handle, Event.tally_concat]
    rfl
  refine settles_final ?_ (houtlived.handled given body) ?_ (.kept hkeep) hnext
  · rw [htally]
    exact hanswered
  · rw [htally]
    rfl

end Ledger

theorem CollectSettings.Advances.settles {settings : CollectSettings}
    {phase next : CollectPhase .request} {message : Message .request}
    {out? : Option (Collected .request)} (h : settings.Advances phase message out? next)
    {ledger : Ledger} {requests : List Request} (hledger : ledger.Settles settings phase requests)
    (handle : Handler η) (handler : η)
    (hkeep : ∀ whole, out? = some (.message whole) → whole.head.keepAlive = true) :
    ((ledger.note message).settle handle handler out?).Settles settings next
      (requests ++ [message].filterMap Message.head?) := by
  obtain ⟨hasked, hstands, houtlived⟩ := hledger
  -- Only a head adds a request. The request to be answered is the last one, and the collector
  -- decides with the head and the expectation that it had.
  have hsame : ∀ item, requests ++ [Message.payload item].filterMap Message.head? = requests :=
    fun item => List.append_nil requests
  cases h with
  | accept head hsupported =>
      have hnoted : (ledger.note (.header head)).Settles settings
          (.collecting head.admitted {} (head.expectation == .awaitContinue))
          (requests ++ [head]) :=
        ⟨hasked, ⟨requests, head, rfl, hstands, rfl, rfl⟩,
          houtlived.mono (List.prefix_append requests [head])⟩
      split
      · exact hnoted.proceed
      · exact hnoted
  | refuse head hrefusal hinspect =>
      have hkept := CollectSettings.outlived_of_inspect hinspect rfl
      have hanswered : (Event.tally (ledger.note (.header head)).marks).answered =
        requests.length := hstands
      have hnext : CollectPhase.Stands (requests ++ [head]) (requests ++ [head]).length .dropping :=
        rfl
      exact Ledger.settles_refused hanswered (houtlived.mono (List.prefix_append requests [head]))
        hrefusal hkept hnext
  | gather head content awaited data hroom =>
      rw [hsame]
      exact ⟨hasked, hstands, houtlived⟩
  | overflow head content awaited item hkept =>
      rw [hsame]
      obtain ⟨front, request, rfl, hanswered, rfl, rfl⟩ := hstands
      rw [request.keepAlive_admitted] at hkept
      exact Ledger.settles_refused hanswered houtlived rfl
        (CollectSettings.outlived_of_tooLarge hkept) (CollectPhase.stands_behind _ item)
  | finish head content awaited data trailers hroom =>
      rw [hsame]
      obtain ⟨front, request, rfl, hanswered, rfl, rfl⟩ := hstands
      have hkept := hkeep _ rfl
      rw [Content.finish, Head.keepAlive_announce, request.keepAlive_admitted] at hkept
      exact Ledger.settles_handled hanswered houtlived hkept _ _ _ rfl
  | drop item =>
      rw [hsame]
      have hanswered : (Event.tally ledger.marks).answered = requests.length := hstands
      refine ⟨hasked, ?_, houtlived⟩
      show CollectPhase.Stands requests (Event.tally ledger.marks).answered _
      rw [hanswered]
      exact CollectPhase.stands_behind requests item

namespace Session

variable {η : Type} {handle : Handler η} {session after : Session η} {settings : CollectSettings}
  {requests : List Request}

structure Settles (session : Session η) (settings : CollectSettings) (requests : List Request) :
    Prop where
  isOpen : session.collector.isClosed = false
  kept : session.collector.settings = settings
  ledger : session.ledger.Settles settings session.collector.phase requests

theorem settles_start (limits : Limits) (settings : CollectSettings) (outlet : Outlet)
    (handler : η) : (start limits settings outlet handler).Settles settings [] := by
  refine ⟨rfl, rfl, rfl, rfl, fun before response after hnone => ?_⟩
  simp [ledger, start, Event.marks] at hnone

theorem Settles.deal {message : Message .request} (h : session.Settles settings requests)
    (hdeal : deal handle message session = .ok true after) :
    after.Settles settings (requests ++ [message].filterMap Message.head?) := by
  obtain ⟨out?, hadvances, -, hsettings, hledger, hkeep⟩ := deal_advances h.isOpen hdeal
  refine ⟨by simpa [Collector.isClosed] using hadvances.ne_closed, hsettings.trans h.kept, ?_⟩
  rw [h.kept] at hadvances
  rw [hledger]
  exact hadvances.settles h.ledger handle session.handler hkeep

theorem Settles.deals {messages : List (Message .request)} (h : session.Settles settings requests)
    (hdeals : Deals handle session messages after) :
    after.Settles settings (requests ++ messages.filterMap Message.head?) := by
  induction hdeals generalizing requests with
  | nil session =>
      rw [List.filterMap_nil, List.append_nil]
      exact h
  | @cons message more session middle after hdeal _ ih =>
      have hall := ih (h.deal hdeal)
      rw [List.append_assoc, ← List.filterMap_append] at hall
      exact hall

/-- After so many reads serving has come to its end, whatever else may be read, or it awaits the
next one and has dealt with all of them. -/
theorem run_append_cases (handle : Handler η) (session : Session η)
    (hupgraded : session.server.upgraded = false) (reads : List Read) :
    (∃ middle, Dealt handle session (Read.arriving reads).flatten middle ∧
      ∀ more, run handle (reads ++ more) session = run handle more middle) ∨
    ∃ result stop, ∀ more, run handle (reads ++ more) session = (result, stop) := by
  induction reads generalizing session with
  | nil => exact .inl ⟨session, .refl session, fun more => rfl⟩
  | cons read reads ih =>
      cases read with
      | error text => exact .inr ⟨_, _, fun more => rfl⟩
      | bytes data =>
          rcases receive_cases handle session hupgraded data with
            ⟨middle, hfirst, hreceived⟩ | ⟨hpause, -⟩
          · have hrun : ∀ more, run handle (.bytes data :: (reads ++ more)) session =
                run handle (reads ++ more) middle := fun more => by rw [run, hreceived]
            rcases ih middle (hfirst.upgraded.trans hupgraded) with
              ⟨last, hmore, hrest⟩ | ⟨result, stop, hrest⟩
            · exact .inl ⟨last, hfirst.trans hmore, fun more => (hrun more).trans (hrest more)⟩
            · exact .inr ⟨result, stop, fun more => (hrun more).trans (hrest more)⟩
          · refine .inr ?_
            rcases hreceive : receive handle data session with ⟨pause, stop⟩
            rw [hreceive] at hpause
            cases pause with
            | waiting => exact absurd rfl hpause
            | finished => exact ⟨.ok (), stop, fun more => by rw [List.cons_append, run, hreceive]⟩
            | failed error =>
                exact ⟨.error error, stop, fun more => by rw [List.cons_append, run, hreceive]⟩

/-- Whatever is read and however it fails, what is written are recorded responses, and a final one
behind which anything else is written or given to the handler, or more is read, answers a request
that keeps the connection. The exceptions are refusals, where the settings do not close on them:
of an expectation that cannot be met, and of the body of a request that awaits an interim
response. The final responses answer the requests in the order in which their heads are read. -/
theorem run_closes (handle : Handler η) (limits : Limits) (settings : CollectSettings)
    (outlet : Outlet) (handler : η) (reads : List Read) :
    let first := start limits settings outlet handler
    let stop := (run handle reads first).2
    (∃ bytes body?, Event.Speaks stop.events bytes body? ∧ Event.output stop.events <+: bytes) ∧
    (∃ cuts dealt, cuts.flatten = (Read.arriving reads).flatten ∧
      Serves handle first (first.decoded cuts (Read.comeToEnd reads)) dealt stop.events ∧
      ∀ before response after, stop.events = before ++ .answered response :: after →
        (Event.tally before).closes response = true → Event.marks after ≠ [] →
          Event.Outlives settings (dealt.filterMap Message.head?) before response) ∧
    ((∃ result stop, ∀ more, run handle (reads ++ more) first = (result, stop)) ∨
      ∃ middle cuts, (∀ more, run handle (reads ++ more) first = run handle more middle) ∧
        cuts.flatten = (Read.arriving reads).flatten ∧
        Event.Outlived settings ((first.delivered cuts).values.filterMap Message.head?)
          middle.events) := by
  intro first stop
  have hstart := settles_start limits settings outlet handler
  obtain ⟨cuts, dealt, hcuts, hserves⟩ := run_serves handle first rfl reads
  have hspoken : first.Spoken := .nil
  refine ⟨hserves.speaks hspoken, ⟨cuts, dealt, hcuts, hserves, ?_⟩, ?_⟩
  · intro before response after hsplit hcloses hafter
    -- With anything left to see behind it, the response was begun where the session went on.
    obtain ⟨front, last, given, hfront, hdeals, henters⟩ := hserves.enters
    obtain ⟨others, hothers⟩ := henters.front (Event.marks_split hsplit) hafter
    have houtlived := (hstart.deals hdeals).ledger.outlived.mono
      (hfront.filterMap Message.head?)
    exact houtlived.of_split hothers hcloses
  · rcases run_append_cases handle first rfl reads with ⟨middle, hdealt, hrun⟩ | hended
    · obtain ⟨cuts, last, block, hcuts, hdeals, rfl⟩ := hdealt
      refine .inr ⟨_, cuts, hrun, hcuts, fun before response after hsplit hcloses => ?_⟩
      exact (hstart.deals hdeals).ledger.outlived.of_split (Event.marks_split hsplit) hcloses
    · exact .inl hended

/-- A request with an expectation that cannot be met, and another behind it. The first one closes
the connection, and yet it is refused and the second one given to the handler and answered. -/
theorem run_not_closed :
    let handle : Handler Unit := fun _ body state => (.respond .ok ∅ (.whole body), state)
    let bytes := ascii
      ("PUT /a HTTP/1.1\r\nExpect: x\r\nConnection: close\r\n\r\n" ++
        "GET /n HTTP/1.1\r\n\r\n")
    let first := start {} {} {} ()
    let stop := (run handle [.bytes bytes] first).2
    ((first.delivered [bytes]).values.filterMap Message.head?).map Head.keepAlive =
        [false, true] ∧
      stop.events.head? = some (.answered (Reply.expectationFailed false).head) ∧
      Event.finals stop.events = 2 ∧
      (Event.calls stop.events).map (fun call => call.1.keepAlive) = [true] := by
  decide +kernel

end Session

end HttpFraming
