import HttpFraming.Proofs.Serving.Marks

/-!
# What reaches the handler

Whatever is read and however it fails, the handler is given requests in one piece: their length
is known and within the limit, nothing is left to expect, and each is a message that the decoder
has handed out from its head to its end: `Session.run_handed`. A failure of the decoder is the
last thing that a session deals with, and it is not given to the handler.
-/

namespace HttpFraming

/-- A request in one piece, with its body: it is not too long, its length and nothing else frames
it, and it expects nothing any more. -/
structure Head.IsWhole (request : Request) (settings : CollectSettings) (body : Bytes) : Prop where
  fits : body.length ≤ settings.maxLength
  announced : request.fields.values .contentLength = [.ofNat body.length]
  uncoded : request.fields.contains .transferEncoding = false
  unexpecting : request.expectation = .absent

theorem Head.expectation_collected {h : Request} (hsupported : h.expectation ≠ .unsupported)
    (length : Nat) : (h.collected length).expectation = .absent := by
  have hcollected := h.isCollectedAs length
  cases hexpectation : h.expectation with
  | unsupported => exact absurd hexpectation hsupported
  | awaitContinue =>
      have hgone : (h.collected length).fields.get? .expect = none := by
        simpa [Fields.contains, Fields.get?] using hcollected.met hexpectation
      simp [expectation, hgone]
  | absent =>
      have hsame : (h.collected length).fields.get? .expect = h.fields.get? .expect := by
        rw [Fields.get?, Fields.get?, hcollected.others .expect (by decide) (by decide)
          (by simp [hexpectation])]
      rw [← hexpectation]
      simp only [expectation, hcollected.version, hsame]

namespace Parts

theorem IsWelcome.isWhole {settings : CollectSettings} {parts : Parts .request}
    (h : parts.IsWelcome settings) : parts.handed.1.IsWhole settings parts.handed.2 :=
  ⟨h.fits, Head.values_collected _ _, (Head.isCollectedAs _ _).uncoded,
    Head.expectation_collected h.supported _⟩

theorem Handed.isWhole {settings : CollectSettings} {complete : List (Parts .request)}
    {calls : List (Request × Bytes)} (h : Handed settings complete calls)
    {call : Request × Bytes} (hcall : call ∈ calls) : call.1.IsWhole settings call.2 := by
  obtain ⟨some, -, hwelcome, rfl⟩ := h
  obtain ⟨parts, hparts, rfl⟩ := List.mem_map.mp hcall
  exact (hwelcome parts hparts).isWhole

end Parts

/-! ## Sessions in step with a stream -/

namespace CollectPhase.Follows

variable {settings : CollectSettings} {phase : CollectPhase .request}
  {tail : List (Message .request)}

theorem ne_closed (h : phase.Follows settings tail) : phase ≠ .closed := by
  cases h <;> nofun

theorem any_isFailure (h : phase.Follows settings tail) : tail.any Message.isFailure = false := by
  cases h with
  | idle => rfl
  | collecting h chunks => exact Message.opened_any_isFailure h chunks
  | dropping h chunks => exact Message.opened_any_isFailure h chunks

end CollectPhase.Follows

theorem Collected.calls_of_stop {result : Except CollectError (Option (Collected .request))}
    (h : goesOn result = false) : Collected.calls result = [] := by
  rcases result with error | _ | whole | message | reply
  · rfl
  · rfl
  · have hfailure : whole.failure?.isNone = false := h
    simp [calls, hfailure]
  · rfl
  · rfl

namespace Session

variable {η : Type} {handle : Handler η}

/-- The session is in step with a decoder that has handed out these parts: what the handler was
given are messages that were complete. -/
structure Tracks (settings : CollectSettings) (session : Session η) (decoder : Decoder .request)
    (messages : List (Message .request)) (complete : List (Parts .request))
    (tail : List (Message .request)) : Prop where
  kept : session.collector.settings = settings
  shown : decoder.Shown messages complete tail
  follows : session.collector.phase.Follows settings tail
  handed : Parts.Handed settings complete (Event.calls session.events)

/-- What has reached the handler when the session has dealt with these parts: complete messages
among them. If there is a failure, it is the last of them, and nothing came of it. -/
structure HandsOver (handle : Handler η) (settings : CollectSettings) (session : Session η)
    (dealt : List (Message .request)) (events : List Event) : Prop where
  whole : ∃ complete tail, dealt = complete.flatMap Parts.messages ++ tail ∧
    Message.Unfinished tail ∧ Parts.Handed settings complete (Event.calls events)
  stops : ∀ before failure later, dealt = before ++ .failure failure :: later →
    later = [] ∧ ∃ middle, Deals handle session before middle ∧
      Event.calls events = Event.calls middle.events

namespace Tracks

variable {settings : CollectSettings} {session middle after : Session η}
  {decoder next last : Decoder .request} {messages more tail : List (Message .request)}
  {complete : List (Parts .request)} {message : Message .request}

theorem start (limits : Limits) (settings : CollectSettings) (outlet : Outlet) (handler : η) :
    Tracks settings (start limits settings outlet handler) ⟨limits, .head⟩ [] [] [] :=
  ⟨rfl, .start limits, .idle, .nil settings⟩

theorem isOpen (h : session.Tracks settings decoder messages complete tail) :
    session.collector.isClosed = false := by
  simpa [Collector.isClosed] using h.follows.ne_closed

theorem any_isFailure (h : session.Tracks settings decoder messages complete tail) :
    messages.any Message.isFailure = false := by
  rw [h.shown.split, List.any_append, List.any_flatMap]
  simp [Parts.any_isFailure, h.follows.any_isFailure]

theorem deal (h : session.Tracks settings decoder messages complete tail)
    (hands : decoder.Hands message next) (hallows : decoder.phase.Allows message)
    (hdeal : deal handle message session = .ok true after) :
    ∃ complete' tail', after.Tracks settings next (messages ++ [message]) complete' tail' := by
  obtain ⟨out?, hadvances, htake, hkept, -⟩ := deal_advances h.isOpen hdeal
  rw [h.kept] at hadvances
  obtain ⟨complete', tail', hshown, hfollows, hhanded⟩ :=
    hadvances.follows h.follows h.shown h.handed hands hallows
  have hentered := (deal_enters handle session message).calls_eq
  rw [Act.after, hdeal, htake] at hentered
  exact ⟨complete', tail', hkept.trans h.kept, hshown, hfollows, hentered ▸ hhanded⟩

theorem stopAt (h : session.Tracks settings decoder messages complete tail)
    (handle : Handler η) (hands : decoder.Hands message next)
    (hallows : decoder.phase.Allows message) :
    ∃ complete' tail', next.Shown (messages ++ [message]) complete' tail' ∧
      Parts.Handed settings complete' (Event.calls (stopAt handle message session).events) := by
  have hentered := (stopAt_enters handle session message).calls_eq
  rw [hentered]
  rcases htake : session.collector.take (selectAll .request) message with ⟨result, collector⟩
  cases hgoes : goesOn result with
  | true =>
      -- The handler may have been given a last request, behind which the session stops.
      obtain ⟨out?, rfl, hadvances⟩ := Collector.advances h.isOpen htake hgoes
      rw [h.kept] at hadvances
      obtain ⟨complete', tail', hshown, -, hhanded⟩ :=
        hadvances.follows h.follows h.shown h.handed hands hallows
      exact ⟨complete', tail', hshown, hhanded⟩
  | false =>
      obtain ⟨more, tail', hshown⟩ := h.shown.hands hands hallows
      rw [Collected.calls_of_stop hgoes, List.append_nil]
      exact ⟨complete ++ more, tail', hshown, h.handed.passed more⟩

theorem stopAt_failure (h : session.Tracks settings decoder messages complete tail)
    (failure : Failure .request) :
    Event.calls (Session.stopAt handle (.failure failure) session).events =
      Event.calls session.events := by
  have hentered := (stopAt_enters handle session (.failure failure)).calls_eq
  rw [hentered]
  rcases htake : session.collector.take (selectAll .request) (.failure failure) with
    ⟨result, collector⟩
  cases hgoes : goesOn result with
  | true =>
      obtain ⟨out?, -, hadvances⟩ := Collector.advances h.isOpen htake hgoes
      cases hadvances.isFailure
  | false => rw [Collected.calls_of_stop hgoes, List.append_nil]

theorem deals {rest : List (Message .request)}
    (h : session.Tracks settings decoder messages complete tail)
    (hdeals : Deals handle session more after) (hgives : decoder.Gives (more ++ rest) last) :
    ∃ next complete' tail', after.Tracks settings next (messages ++ more) complete' tail' ∧
      next.Gives rest last := by
  induction hdeals generalizing decoder messages complete tail with
  | nil session => exact ⟨decoder, complete, tail, (List.append_nil messages).symm ▸ h, hgives⟩
  | @cons message more session middle after hdeal _ ih =>
      obtain ⟨reached, next, hshown, hands, hallows, hgives⟩ := hgives.cons_shown h.shown
      have hreached : session.Tracks settings reached messages complete tail :=
        ⟨h.kept, hshown, h.follows, h.handed⟩
      obtain ⟨complete', tail', hmiddle⟩ := hreached.deal hands hallows hdeal
      have hmore := ih hmiddle hgives
      rwa [List.append_assoc] at hmore

theorem handsOver (h : session.Tracks settings decoder messages complete tail)
    {events : List Event} (hcalls : Event.calls events = Event.calls session.events)
    (start : Session η) : HandsOver handle settings start messages events := by
  refine ⟨⟨complete, tail, h.shown.split, h.shown.unfinished, hcalls ▸ h.handed⟩, ?_⟩
  rintro before failure later rfl
  have hnone := h.any_isFailure
  simp [Message.isFailure] at hnone

end Tracks

theorem Serves.handsOver {settings : CollectSettings} {session : Session η}
    {decoder last : Decoder .request} {messages dealt : List (Message .request)}
    {events : List Event} (h : Serves handle session messages dealt events)
    (htracks : session.Tracks settings decoder [] [] []) (hgives : decoder.Gives messages last) :
    HandsOver handle settings session dealt events := by
  cases h with
  | @broken after hdeals decoder' inbox block =>
      obtain ⟨next, complete, tail, hafter, -⟩ :=
        htracks.deals hdeals ((List.append_nil messages).symm ▸ hgives)
      have hbad := (Act.Enters.sendBadRequest (after.withStream decoder' inbox block)).calls_eq
      exact hafter.handsOver (hbad.trans (List.append_nil _)) session
  | upTo hupTo =>
      cases hupTo with
      | all hdeals hevents =>
          obtain ⟨next, complete, tail, hafter, -⟩ :=
            htracks.deals hdeals ((List.append_nil messages).symm ▸ hgives)
          exact hafter.handsOver (congrArg Event.calls hevents) session
      | halts hhalts =>
          cases hhalts with
          | @here before later message middle hbefore hstop decoder' inbox block =>
              obtain ⟨next, complete, tail, hmiddle, hgives⟩ := htracks.deals hbefore hgives
              obtain ⟨reached, behind, hshown, hands, hallows, -⟩ :=
                hgives.cons_shown hmiddle.shown
              have hreached : (middle.withStream decoder' inbox block).Tracks settings reached
                  before complete tail := ⟨hmiddle.kept, hshown, hmiddle.follows, hmiddle.handed⟩
              obtain ⟨complete', tail', hshown', hhanded⟩ :=
                hreached.stopAt handle hands hallows
              refine ⟨⟨complete', tail', hshown'.split, hshown'.unfinished, hhanded⟩, ?_⟩
              -- No failure is among the parts behind which the session went on.
              intro front failure later' hsplit
              rcases append_singleton_eq_append_cons hsplit with
                ⟨rfl, rfl, rfl⟩ | ⟨others, -, rfl⟩
              · exact ⟨rfl, middle, hbefore, hreached.stopAt_failure failure⟩
              · have hnone := hreached.any_isFailure
                simp [Message.isFailure] at hnone

/-- Nothing else reaches the handler. Whatever is read and however it fails, each request that
the handler is given is whole, and a message that was decoded from its head to its end; behind a
failure of the decoder there is none. -/
theorem run_handed (handle : Handler η) (limits : Limits) (settings : CollectSettings)
    (outlet : Outlet) (handler : η) (reads : List Read) :
    let session := start limits settings outlet handler
    let stop := (run handle reads session).2
    (∀ call ∈ Event.calls stop.events, call.1.IsWhole settings call.2) ∧
      ∃ cuts dealt, cuts.flatten = (Read.arriving reads).flatten ∧
        Serves handle session ((Decoder.source (statusRule .request)).arrive
          (⟨limits, .head⟩, ()) cuts (Read.comeToEnd reads)).values dealt stop.events ∧
        HandsOver handle settings session dealt stop.events := by
  intro session stop
  obtain ⟨cuts, dealt, hcuts, hserves⟩ := run_serves handle session rfl reads
  have hdecoded : session.decoded cuts (Read.comeToEnd reads) =
      ((Decoder.source (statusRule .request)).arrive (⟨limits, .head⟩, ()) cuts
        (Read.comeToEnd reads)).values := by
    rw [Decoder.arrive_eq, decoded]
    split <;> rfl
  rw [hdecoded] at hserves
  have hhands := hserves.handsOver (.start limits settings outlet handler)
    (Decoder.gives_of_arrive (statusRule .request) (⟨limits, .head⟩, ()) cuts _)
  obtain ⟨complete, tail, -, -, hhanded⟩ := hhands.whole
  exact ⟨fun call hcall => hhanded.isWhole hcall, cuts, dealt, hcuts, hserves, hhands⟩

end Session

end HttpFraming
