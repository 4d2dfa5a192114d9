import HttpFraming.Proofs.Serving.Marks

/-!
# How many final responses are written

What a session writes about a part is bounded by what its collector makes of the part, so a run
writes as many final responses as the collector owes. `Session.InStep` is what a session keeps to
from part to part, and `Session.DealsUpTo.finals_le` what follows when it ends.
-/

namespace HttpFraming

open Bytes

/-! ## Final responses -/

namespace Event

def isFinal : Event → Bool
  | answered response => !response.status.isInformational
  | _ => false

def finals (events : List Event) : Nat :=
  events.countP isFinal

theorem finals_append (first second : List Event) :
    finals (first ++ second) = finals first + finals second :=
  List.countP_append

theorem finals_answered (response : Response) : finals [.answered response] = response.finals := by
  unfold Head.finals
  cases hstatus : response.status.isInformational <;> simp [finals, isFinal, hstatus]

theorem finals_marks (events : List Event) : finals (marks events) = finals events := by
  rw [finals, finals, marks, List.countP_filter]
  apply List.countP_congr
  intro event _
  cases event <;> simp [isFinal]

def Refuses (events : List Event) : Prop :=
  ∃ response, .answered response ∈ events ∧ response.status.isRefusal = true

theorem refuses_marks {events : List Event} : Refuses (marks events) ↔ Refuses events := by
  simp [Refuses, marks]

namespace Enters

variable {earlier later : List Event} {given : List (Request × Bytes)}

theorem finals_le (h : Enters earlier later given) : finals later ≤ finals earlier + 1 := by
  obtain ⟨begun, hlength, hmarks⟩ := h
  have hgiven : finals (given.map fun call => handled call.1 call.2) = 0 := by
    simp [finals, isFinal]
  have hbegun : finals (begun.map answered) ≤ 1 :=
    Nat.le_trans List.countP_le_length (by simpa using hlength)
  rw [← finals_marks later, hmarks, finals_append, finals_append, finals_marks, hgiven]
  omega

theorem refuses (h : Enters earlier later given) (hrefuses : Refuses earlier) : Refuses later := by
  obtain ⟨begun, -, hmarks⟩ := h
  obtain ⟨response, hmem, hrefusal⟩ := refuses_marks.mpr hrefuses
  rw [← refuses_marks, hmarks]
  exact ⟨response, by simp [hmem], hrefusal⟩

end Enters

end Event

namespace Ledger

variable {η : Type} (ledger : Ledger) (response : Response)

theorem finals_answer :
    Event.finals (ledger.answer response).marks = Event.finals ledger.marks + response.finals := by
  rw [answer, Event.finals_append, Event.finals_answered, Head.finals, Head.finals,
    planned_status]

theorem note_marks (message : Message .request) : (ledger.note message).marks = ledger.marks := by
  cases message <;> rfl

theorem finals_settle_le (handle : Handler η) (handler : η)
    (out? : Option (Collected .request)) :
    Event.finals (ledger.settle handle handler out?).marks ≤
      Event.finals ledger.marks + answers (.ok out?) := by
  cases out? with
  | none => exact Nat.le_refl _
  | some collected =>
      cases collected with
      | reply reply => exact Nat.le_of_eq (ledger.finals_answer reply.head)
      | forward message => exact Nat.le_add_right _ _
      | message whole =>
          let asked := ledger.handle whole.head whole.body
          let response := (handle whole.head whole.body handler).1.responseTo whole.head
          have hasked : Event.finals asked.marks = Event.finals ledger.marks :=
            Event.finals_append ledger.marks [.handled whole.head whole.body]
          show Event.finals (asked.answer response).marks ≤ Event.finals ledger.marks + 1
          rw [finals_answer, hasked]
          exact Nat.add_le_add_left response.finals_le _

end Ledger

/-! ## Acts -/

namespace Act

variable {η α : Type}

theorem Begins.finals_le {act : Act η α} {response : Response} (h : act.Begins response)
    (session : Session η) :
    Event.finals (act.after session).events ≤ Event.finals session.events + response.finals := by
  have hbegun := session.ledger.finals_answer response
  rw [← Event.finals_marks, ← Event.finals_marks session.events]
  cases h.marks session with
  | inl hsame =>
      have hkept := Nat.le_of_eq (congrArg Event.finals hsame)
      exact Nat.le_trans hkept (Nat.le_add_right _ _)
  | inr hmarks => exact Nat.le_of_eq ((congrArg Event.finals hmarks).trans hbegun)

theorem finals_respond_le (handle : Handler η) (collected : Collected .request)
    (session : Session η) :
    Event.finals (Act.after (Session.respond handle collected) session).events ≤
      Event.finals session.events + collected.finals := by
  have hone := (Enters.respond handle collected session).finals_le
  cases collected with
  | reply reply =>
      have hbegins : Act.Begins (Session.respond handle (.reply reply)) reply.head :=
        (Begins.sendHead reply.head).bind fun _ => .pure _
      exact hbegins.finals_le session
  | message whole => exact hone
  | forward message =>
      cases message with
      | failure failure => exact hone
      | header h => exact Nat.le_refl _
      | payload item => exact Nat.le_refl _
      | raw data => exact Nat.le_refl _

end Act

/-! ## What is due -/

namespace CollectSettings.Advances

variable {settings : CollectSettings} {phase next : CollectPhase .request}
  {message : Message .request} {out? : Option (Collected .request)}

/-- A head is answered once, then or later. -/
theorem answers_le (h : settings.Advances phase message out? next) :
    answers (.ok out?) + next.due ≤ phase.due + Message.heads [message] := by
  have hbehind : ∀ isLast : Bool,
      (if isLast then .idle else .dropping : CollectPhase .request).due = 0 := by
    intro isLast
    cases isLast <;> rfl
  cases h with
  | accept h hsupported => split <;> exact Nat.le_refl 1
  | refuse h hrefusal hinspect => exact (Reply.refusal _ false).head.finals_le
  | gather h content awaited data hroom => exact Nat.le_refl 1
  | overflow h content awaited item hkept =>
      rw [hbehind]
      exact (Reply.tooLarge false).head.finals_le
  | finish h content awaited data trailers hroom => exact Nat.le_refl 1
  | drop item =>
      rw [hbehind]
      exact Nat.zero_le _

/-- A message is under way just if one more has begun than was completed. -/
theorem busy_eq (h : settings.Advances phase message out? next) :
    next.busy + Message.completed [message] = phase.busy + Message.heads [message] := by
  cases h with
  | overflow h content awaited item hkept => cases item <;> rfl
  | drop item => cases item <;> rfl
  | _ => rfl

/-- An answer is due to the message under way unless it was refused, now or before. -/
theorem due_eq (h : settings.Advances phase message out? next) :
    next.due = next.busy ∨ next = .dropping ∧ (phase = .dropping ∨
      settings.closeOnRefusal = false ∧
        ∃ reply, out? = some (.reply reply) ∧ reply.head.status.isRefusal = true) := by
  cases h with
  | accept h hsupported => exact .inl rfl
  | refuse h hrefusal hinspect =>
      refine .inr ⟨rfl, .inr ⟨?_, _, rfl, hrefusal⟩⟩
      cases inspect_kept hinspect rfl with
      | inl hunsupported => exact hunsupported.1
      | inr htooLarge => exact (closesOnTooLarge_eq_false.mp htooLarge.1).1
  | gather h content awaited data hroom => exact .inl rfl
  | overflow h content awaited item hkept =>
      cases item with
      | chunk data =>
          exact .inr ⟨rfl, .inr ⟨(closesOnTooLarge_eq_false.mp hkept).1, _, rfl, rfl⟩⟩
      | last data trailers => exact .inl rfl
  | finish h content awaited data trailers hroom => exact .inl rfl
  | drop item =>
      cases item with
      | chunk data => exact .inr ⟨rfl, .inl rfl⟩
      | last data trailers => exact .inl rfl

end CollectSettings.Advances

/-- The request under way behind these parts was refused: what is left of it is dropped. -/
def Message.Refused (settings : CollectSettings) (parts : List (Message .request)) : Prop :=
  ((⟨settings, (), .idle⟩ : Collector .request Unit).takeAll (selectAll .request) parts).2.phase =
    .dropping

/-! ## Sessions -/

namespace Session

variable {η : Type} {handle : Handler η}

theorem finals_settle_le (handle : Handler η)
    (result : Except CollectError (Option (Collected .request))) (session : Session η) :
    Event.finals (Act.after (settle handle result) session).events ≤
      Event.finals session.events + answers result := by
  rcases result with error | _ | collected
  · exact Nat.le_add_right _ _
  · exact Nat.le_refl _
  · exact Act.finals_respond_le handle collected session

theorem finals_stopAt_le (handle : Handler η) (session : Session η) (message : Message .request) :
    Event.finals (stopAt handle message session).events ≤ Event.finals session.events +
      answers (session.collector.take (selectAll .request) message).1 := by
  rcases htake : session.collector.take (selectAll .request) message with ⟨result, collector⟩
  have hsettled := finals_settle_le handle result { session with
    server := session.server.noteMessage (some message)
    collector }
  cases result with
  | error error =>
      simp only [stopAt, htake]
      exact (Act.Begins.sendHead (Reply.refusal .badRequest true).head).finals_le _
  | ok out? =>
      simp only [stopAt, htake]
      rw [Act.after, deal_eq htake]
      exact hsettled

/-- Where a session stands that goes on behind these parts: each head has its answer, but for
one that is due, and no failure was met. An answer is due to the request under way unless it was
refused. -/
structure InStep (settings : CollectSettings) (session : Session η)
    (dealt : List (Message .request)) : Prop where
  collector : session.collector =
    ((⟨settings, (), .idle⟩ : Collector .request Unit).takeAll (selectAll .request) dealt).2
  isOpen : session.collector.isClosed = false
  sound : Message.failures dealt = 0
  finals : Event.finals session.events + session.collector.phase.due ≤ Message.heads dealt
  busy : session.collector.phase.busy + Message.completed dealt = Message.heads dealt
  due : session.collector.phase.due = session.collector.phase.busy ∨
    session.collector.phase = .dropping ∧ settings.closeOnRefusal = false ∧
      Event.Refuses session.events

namespace InStep

variable {settings : CollectSettings}

theorem start (limits : Limits) (settings : CollectSettings) (outlet : Outlet) (handler : η) :
    InStep settings (start limits settings outlet handler) [] :=
  ⟨rfl, rfl, rfl, Nat.le_refl 0, rfl, .inl rfl⟩

variable {session : Session η} {dealt : List (Message .request)}

theorem settings_eq (h : InStep settings session dealt) :
    session.collector.settings = settings := by
  rw [h.collector, Collector.takeAll_settings]

theorem deal {middle : Session η} {message : Message .request} (h : InStep settings session dealt)
    (hdeal : deal handle message session = .ok true middle) :
    InStep settings middle (dealt ++ [message]) := by
  obtain ⟨out?, hadvances, -, -, hledger, -⟩ := deal_advances h.isOpen hdeal
  have hanswers := hadvances.answers_le
  have hstep := hadvances.busy_eq
  have hbefore := h.finals
  have hunderway := h.busy
  refine ⟨?_, ?_, ?_, ?_, ?_, ?_⟩
  · rw [Collector.takeAll_append, ← h.collector]
    exact deal_collector hdeal
  · simpa [Collector.isClosed] using hadvances.ne_closed
  · rw [Message.failures, List.countP_append, List.countP_singleton, hadvances.isFailure]
    exact h.sound
  · have hsettled := (session.ledger.note message).finals_settle_le handle session.handler out?
    rw [← hledger, Ledger.note_marks] at hsettled
    simp only [ledger, Event.finals_marks] at hsettled
    rw [Message.heads_append]
    omega
  · rw [Message.completed, List.countP_append, Message.heads_append]
    simp only [Message.completed] at hstep hunderway
    omega
  · -- What was refused is so before the step, or by the reply that is written now.
    rcases hadvances.due_eq with hdue | ⟨hdropping, hwas | ⟨hopen, reply, rfl, hrefusal⟩⟩
    · exact .inl hdue
    · obtain hidle | ⟨-, hopen, hrefuses⟩ := h.due
      · rw [hwas] at hidle
        cases hidle
      · have henters := deal_enters handle session message
        rw [Act.after, hdeal] at henters
        exact .inr ⟨hdropping, hopen, henters.refuses hrefuses⟩
    · refine .inr ⟨hdropping, h.settings_eq ▸ hopen, Event.refuses_marks.mp ?_⟩
      have hmarks := congrArg Ledger.marks hledger
      refine ⟨(session.ledger.note message).planned reply.head, ?_, ?_⟩
      · rw [show Event.marks middle.events = _ from hmarks]
        simp [Ledger.settle, Ledger.answer]
      · rw [Ledger.planned_status]
        exact hrefusal

theorem deals {after : Session η} {more : List (Message .request)}
    (h : InStep settings session dealt) (hdeals : Deals handle session more after) :
    InStep settings after (dealt ++ more) := by
  induction hdeals generalizing dealt with
  | nil session =>
      rw [List.append_nil]
      exact h
  | cons hdeal _ ih =>
      have hmore := ih (h.deal hdeal)
      rw [List.append_assoc] at hmore
      exact hmore

/-- With the part at which a session stops there is one answer for each head at most, and
another for a failure where none is due. -/
theorem stopAt (h : InStep settings session dealt) (handle : Handler η)
    (message : Message .request) :
    Event.finals (stopAt handle message session).events ≤ Message.heads (dealt ++ [message]) +
      if message.isFailure = true ∧ session.collector.phase.due = 0 then 1 else 0 := by
  have hanswers := Collector.answers_le h.isOpen message
  have hfinals := finals_stopAt_le handle session message
  have hbefore := h.finals
  rw [Message.heads_append]
  omega

theorem refused_of_due (h : InStep settings session dealt)
    (hdue : session.collector.phase.due = 0)
    (hunder : Message.completed dealt ≠ Message.heads dealt) :
    Message.Refused settings dealt ∧ settings.closeOnRefusal = false ∧
      Event.Refuses session.events := by
  obtain hsame | ⟨hdropping, hopen, hrefuses⟩ := h.due
  · have hbusy := h.busy
    omega
  · rw [h.collector] at hdropping
    exact ⟨hdropping, hopen, hrefuses⟩

/-- If a request is under way behind that part, there is no other answer unless it was refused. -/
theorem stopAt_underway (h : InStep settings session dealt) (handle : Handler η)
    {message : Message .request}
    (hunder : Message.completed (dealt ++ [message]) ≠ Message.heads (dealt ++ [message])) :
    Event.finals (Session.stopAt handle message session).events ≤
        Message.heads (dealt ++ [message]) ∨
      Message.Refused settings dealt ∧ settings.closeOnRefusal = false ∧
        Event.Refuses (Session.stopAt handle message session).events := by
  have hlast := h.stopAt handle message
  by_cases hstray : message.isFailure = true ∧ session.collector.phase.due = 0
  · -- The failure neither begins nor completes a message, so the one under way was so before.
    have hbefore : Message.completed dealt ≠ Message.heads dealt := by
      intro hsame
      refine hunder ?_
      cases message with
      | failure failure =>
          rw [Message.completed, Message.heads, List.countP_append, List.countP_append]
          exact congrArg (· + 0) hsame
      | _ => cases hstray.1
    obtain ⟨hrefused, hopen, hrefuses⟩ := h.refused_of_due hstray.2 hbefore
    exact .inr ⟨hrefused, hopen, (stopAt_enters handle session message).refuses hrefuses⟩
  · rw [if_neg hstray] at hlast
    exact .inl hlast

end InStep

/-- A session that deals with parts writes one final response for each head at most, and one more
for a failure. That is no failure of a request under way, unless this very request was refused. -/
theorem DealsUpTo.finals_le {settings : CollectSettings} {session : Session η}
    (h : InStep settings session []) {messages dealt : List (Message .request)}
    {events : List Event} (hdeals : DealsUpTo handle session messages dealt events) :
    Event.finals events ≤ Message.heads dealt + Message.failures dealt ∧
      Message.failures dealt ≤ 1 ∧
      (Message.completed dealt ≠ Message.heads dealt →
        Event.finals events ≤ Message.heads dealt ∨
          Message.Refused settings dealt.dropLast ∧ settings.closeOnRefusal = false ∧
            Event.Refuses events) := by
  cases hdeals with
  | all hall hevents =>
      have hafter := h.deals hall
      have hfinals := hafter.finals
      have hsound := hafter.sound
      rw [List.nil_append] at hfinals hsound
      subst hevents
      exact ⟨by omega, by omega, fun _ => .inl (by omega)⟩
  | halts hhalts =>
      cases hhalts with
      | @here before later last middle hbefore hstop decoder inbox block =>
          have hmiddle : InStep settings (middle.withStream decoder inbox block) before := by
            obtain ⟨hcollector, hopen, hsound, hfinals, hbusy, hdue⟩ := h.deals hbefore
            exact ⟨hcollector, hopen, hsound, hfinals, hbusy, hdue⟩
          have hlast := hmiddle.stopAt handle last
          have hfailures : Message.failures (before ++ [last]) =
              if last.isFailure = true then 1 else 0 := by
            have hsound := hmiddle.sound
            simp only [Message.failures] at hsound ⊢
            rw [List.countP_append, List.countP_singleton, hsound, Nat.zero_add]
          refine ⟨?_, ?_, fun hunder => ?_⟩
          · refine Nat.le_trans hlast (Nat.add_le_add_left ?_ _)
            rw [hfailures]
            split
            · rename_i hstray
              exact Nat.le_of_eq (if_pos hstray.1).symm
            · exact Nat.zero_le _
          · rw [hfailures]
            split <;> decide
          · rw [List.dropLast_concat]
            exact hmiddle.stopAt_underway handle hunder

/-- Whatever is read and whatever the handler does, what is written are recorded responses, and
there are no more final ones among them than heads were decoded, and one more if the decoder
fails. The one more is for a failure between requests, where a head could not be decoded, or for
one of a request that was refused and its connection kept. The parts that were decoded are those
with which the session deals. -/
theorem run_finals_le (handle : Handler η) (limits : Limits) (settings : CollectSettings)
    (outlet : Outlet) (handler : η) (reads : List Bytes) :
    let stop := (run handle (reads.map .bytes) (start limits settings outlet handler)).2
    ∃ cuts dealt bytes body?, cuts.flatten = reads.flatten ∧
      DealsUpTo handle (start limits settings outlet handler)
        ((Decoder.source (statusRule .request)).arrive (⟨limits, .head⟩, ()) cuts true).values
        dealt stop.events ∧
      Event.Speaks stop.events bytes body? ∧ Event.output stop.events <+: bytes ∧
      Event.finals stop.events ≤ Message.heads dealt + Message.failures dealt ∧
      Message.failures dealt ≤ 1 ∧
      (Message.completed dealt ≠ Message.heads dealt →
        Event.finals stop.events ≤ Message.heads dealt ∨
          Message.Refused settings dealt.dropLast ∧ settings.closeOnRefusal = false ∧
            Event.Refuses stop.events) := by
  intro stop
  obtain ⟨cuts, dealt, hcuts, hdeals⟩ := run_dealsUpTo handle
    (start limits settings outlet handler) rfl reads
  have harrived : ((Decoder.source (statusRule .request)).arrive (⟨limits, .head⟩, ()) cuts
      true).values = ((start limits settings outlet handler).arrived cuts).values := by
    rw [Decoder.arrive_eq]
    rfl
  rw [← harrived] at hdeals
  have hstart : (start limits settings outlet handler).Spoken := .nil
  obtain ⟨bytes, body?, hspeaks, hwritten⟩ := hdeals.speaks hstart
  have hfinals := hdeals.finals_le (.start limits settings outlet handler)
  exact ⟨cuts, dealt, bytes, body?, hcuts, hdeals, hspeaks, hwritten, hfinals⟩

/-- A request with too large a body is refused, and its connection kept. When its body then ends
too early, it is answered again. -/
theorem heads_lt_finals_of_truncated_body :
    let bytes := ascii "POST / HTTP/1.1\r\nContent-Length: 10\r\n\r\nabc"
    let handle : Handler Unit := fun _ _ state => (.failed, state)
    let stop := (run handle [.bytes bytes] (start {} { maxLength := 4 } {} ())).2
    let decoded :=
      ((Decoder.source (statusRule .request)).arrive (⟨{}, .head⟩, ()) [bytes] true).values
    Message.completed decoded = 0 ∧ Message.heads decoded = 1 ∧ Event.finals stop.events = 2 ∧
      Event.output stop.events =
        ascii ("HTTP/1.1 413 Payload Too Large\r\n" ++ "content-length: 0\r\n\r\n" ++
          "HTTP/1.1 400 Bad Request\r\n" ++ "content-length: 0\r\nconnection: close\r\n\r\n") := by
  decide +kernel

end Session

end HttpFraming
