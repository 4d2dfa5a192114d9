import HttpFraming.Proofs.Arrival.Streams
import HttpFraming.Proofs.Collecting.Bounds
import HttpFraming.Proofs.Collecting.Failures
import HttpFraming.Proofs.Collecting.Steps

/-!
# A collector in step with a stream

Where a session may go on behind a part, its collector has let a head in, refused it, gathered
data, handed a whole request out, or dropped a piece: `CollectSettings.Advances`. In step with a
stream of messages it is between messages where the stream is, and within one it has gathered the
data of the chunks so far, or drops them.
-/

namespace HttpFraming

/-- What a collector that selects every request does with a part where the session may go on. -/
inductive CollectSettings.Advances (settings : CollectSettings) : CollectPhase .request →
    Message .request → Option (Collected .request) → CollectPhase .request → Prop
  | accept (h : Request) (hsupported : h.expectation ≠ .unsupported) :
      Advances settings .idle (.header h)
        (if h.expectation = .awaitContinue then some (.reply .proceed) else none)
        (.collecting h.admitted {} (h.expectation == .awaitContinue))
  | refuse (h : Request) {status : Status} (hrefusal : status.isRefusal = true)
      (hinspect : settings.inspect h = .ok (.refuse (.refusal status false), h)) :
      Advances settings .idle (.header h) (some (.reply (.refusal status false))) .dropping
  | gather (h : Request) (content : Content) (awaited : Bool) (data : Bytes)
      (hroom : settings.exceeds (content.push data).length = false) :
      Advances settings (.collecting h content awaited) (.payload (.chunk data)) none
        (.collecting h (content.push data) awaited)
  | overflow (h : Request) (content : Content) (awaited : Bool) (item : Item)
      (hkept : settings.closesOnTooLarge h.keepAlive awaited = false) :
      Advances settings (.collecting h content awaited) (.payload item)
        (some (.reply (.tooLarge false))) (if item.isLast then .idle else .dropping)
  | finish (h : Request) (content : Content) (awaited : Bool) (data : Bytes) (trailers : Fields)
      (hroom : settings.exceeds (content.push data).length = false) :
      Advances settings (.collecting h content awaited) (.payload (.last data trailers))
        (some (.message ((content.push data).finish h trailers))) .idle
  | drop (item : Item) :
      Advances settings .dropping (.payload item) none (if item.isLast then .idle else .dropping)

namespace CollectSettings.Advances

variable {settings : CollectSettings} {phase next : CollectPhase .request}
  {message : Message .request} {out? : Option (Collected .request)}

theorem isFailure (h : settings.Advances phase message out? next) : message.isFailure = false := by
  cases h <;> rfl

theorem ne_closed (h : settings.Advances phase message out? next) : next ≠ .closed := by
  cases h with
  | overflow h content awaited item => cases item <;> nofun
  | drop item => cases item <;> nofun
  | _ => nofun

end CollectSettings.Advances

namespace CollectSettings

variable {settings : CollectSettings}

theorem closesOnTooLarge_eq_false {keepAlive awaited : Bool} :
    settings.closesOnTooLarge keepAlive awaited = false ↔
      settings.closeOnRefusal = false ∧ (keepAlive = true ∨ awaited = true) := by
  simp only [closesOnTooLarge, Bool.or_eq_false_iff, Bool.not_eq_false', Bool.or_eq_true]

/-- The two ways in which a request is refused when its head is read and the connection kept. -/
theorem inspect_kept {request h : Request} {reply : Reply}
    (hinspect : settings.inspect request = .ok (.refuse reply, h)) (hkept : reply.close = false) :
    settings.closeOnRefusal = false ∧ request.expectation = .unsupported ∧
        reply = .expectationFailed false ∨
      settings.closesOnTooLarge request.keepAlive (request.expectation == .awaitContinue) = false ∧
        reply = .tooLarge false := by
  unfold inspect at hinspect
  by_cases hunsupported : request.expectation = .unsupported
  · simp only [hunsupported, if_true] at hinspect
    cases hinspect
    rw [show settings.closeOnRefusal = false from hkept]
    exact .inl ⟨rfl, hunsupported, rfl⟩
  · cases hover : request.contentLength?.filter settings.exceeds with
    | some length =>
        simp only [hunsupported, if_false, hover, if_true] at hinspect
        cases hinspect
        rw [show settings.closesOnTooLarge request.keepAlive _ = false from hkept]
        exact .inr ⟨rfl, rfl⟩
    | none =>
        simp only [hunsupported, if_false, hover] at hinspect
        split at hinspect <;> cases hinspect

end CollectSettings

theorem Reply.of_goesOn {status : Status} {close : Bool}
    (h : goesOn (.ok (some (.reply (Reply.refusal status close)))) = true) : close = false := by
  simpa [goesOn, Reply.refusal] using h

theorem Collected.goesOn_of_cause {out : Collected .request} (h : out.cause?.isSome = true) :
    goesOn (.ok (some out)) = false := by
  cases out with
  | reply reply => cases h
  | message whole =>
      have hfailed : whole.failure?.isSome = true := h
      simpa [goesOn] using hfailed
  | forward message => rfl

namespace Collector

variable {collector next : Collector .request Unit}
  {result : Except CollectError (Option (Collected .request))}

theorem advances_head {h : Request} (hidle : collector.phase = .idle)
    (htake : collector.takeHead (selectAll .request) h = (result, next))
    (hgoes : goesOn result = true) :
    ∃ out?, result = .ok out? ∧
      collector.settings.Advances .idle (.header h) out? next.phase := by
  have hselected : collector.isIdle = true := by simp [isIdle, hidle]
  simp only [takeHead, hselected, if_true, selectAll, CollectSettings.inspect] at htake
  by_cases hunsupported : h.expectation = .unsupported
  · simp only [hunsupported, if_true] at htake
    obtain ⟨rfl, rfl⟩ := Prod.mk.inj htake
    rw [Reply.expectationFailed] at hgoes ⊢
    have hkept := Reply.of_goesOn hgoes
    rw [hkept]
    refine ⟨_, rfl, .refuse h rfl ?_⟩
    simp [CollectSettings.inspect, hunsupported, hkept, Reply.expectationFailed]
  · have haccept : collector.settings.Advances .idle (.header h)
        (if h.expectation = .awaitContinue then some (.reply .proceed) else none)
        (.collecting h.admitted {} (h.expectation == .awaitContinue)) := .accept h hunsupported
    rw [Head.admitted] at haccept
    cases hover : h.contentLength?.filter collector.settings.exceeds with
    | some length =>
        simp only [hunsupported, if_false, hover] at htake
        obtain ⟨rfl, rfl⟩ := Prod.mk.inj htake
        rw [Reply.tooLarge] at hgoes ⊢
        have hkept := Reply.of_goesOn hgoes
        rw [hkept]
        refine ⟨_, rfl, .refuse h rfl ?_⟩
        simp [CollectSettings.inspect, hunsupported, hover, hkept, Reply.tooLarge]
    | none =>
        simp only [hunsupported, if_false, hover] at htake
        by_cases hawaited : h.expectation = .awaitContinue
        · simp only [hawaited, beq_self_eq_true, if_true] at htake haccept
          obtain ⟨rfl, rfl⟩ := Prod.mk.inj htake
          exact ⟨_, rfl, haccept⟩
        · have hunasked : (h.expectation == .awaitContinue) = false := by simpa using hawaited
          simp only [hunasked, Bool.false_eq_true, if_false] at htake
          simp only [hawaited, hunasked, if_false] at haccept
          obtain ⟨rfl, rfl⟩ := Prod.mk.inj htake
          exact ⟨_, rfl, haccept⟩

theorem advances_item {item : Item} (hopen : collector.isClosed = false)
    (htake : collector.takeItem item = (result, next)) (hgoes : goesOn result = true) :
    ∃ out?, result = .ok out? ∧
      collector.settings.Advances collector.phase (.payload item) out? next.phase := by
  unfold takeItem at htake
  dsimp only at htake
  cases hphase : collector.phase with
  | idle =>
      simp only [hphase] at htake
      obtain ⟨rfl, rfl⟩ := Prod.mk.inj htake
      cases hgoes
  | passing =>
      simp only [hphase] at htake
      obtain ⟨rfl, rfl⟩ := Prod.mk.inj htake
      cases hgoes
  | closed => simp [isClosed, hphase] at hopen
  | dropping =>
      simp only [hphase] at htake
      obtain ⟨rfl, rfl⟩ := Prod.mk.inj htake
      have hdrop : collector.settings.Advances .dropping (.payload item) none
        (if item.isLast then .idle else .dropping) := .drop item
      refine ⟨none, rfl, ?_⟩
      split <;> simp_all [enter]
  | collecting h content awaited =>
      simp only [hphase] at htake
      by_cases hover : collector.settings.exceeds (content.push item.data).length = true
      · simp only [hover, if_true, overflow] at htake
        obtain ⟨rfl, rfl⟩ := Prod.mk.inj htake
        rw [Reply.tooLarge] at hgoes ⊢
        have hkept := Reply.of_goesOn hgoes
        rw [hkept]
        exact ⟨_, rfl, .overflow h content awaited item hkept⟩
      · have hroom := Bool.eq_false_iff.mpr hover
        simp only [hroom, Bool.false_eq_true, if_false] at htake
        cases item with
        | chunk data =>
            obtain ⟨rfl, rfl⟩ := Prod.mk.inj htake
            exact ⟨none, rfl, .gather h content awaited data hroom⟩
        | last data trailers =>
            obtain ⟨rfl, rfl⟩ := Prod.mk.inj htake
            exact ⟨_, rfl, .finish h content awaited data trailers hroom⟩

/-- Where the session may go on, the collector has advanced. -/
theorem advances {message : Message .request} (hopen : collector.isClosed = false)
    (htake : collector.take (selectAll .request) message = (result, next))
    (hgoes : goesOn result = true) :
    ∃ out?, result = .ok out? ∧
      collector.settings.Advances collector.phase message out? next.phase := by
  simp only [take, hopen, Bool.false_eq_true, if_false] at htake
  cases message with
  | header h =>
      cases hidle : collector.isIdle with
      | true =>
          have hphase : collector.phase = .idle := by simpa [isIdle] using hidle
          rw [hphase]
          exact advances_head hphase htake hgoes
      | false =>
          simp only [takeHead, hidle, Bool.false_eq_true, if_false] at htake
          obtain ⟨rfl, rfl⟩ := Prod.mk.inj htake
          cases hgoes
  | payload item => exact advances_item hopen htake hgoes
  | failure failure =>
      obtain ⟨out, hanswer, hcause, -⟩ := takeFailure_answer hopen (selectAll .request) failure
      obtain ⟨rfl, -⟩ := Prod.mk.inj (hanswer.symm.trans htake)
      rw [Collected.goesOn_of_cause (by rw [hcause]; rfl)] at hgoes
      cases hgoes
  | raw data =>
      obtain ⟨rfl, rfl⟩ := Prod.mk.inj htake
      cases hgoes

end Collector

/-! ## Streams -/

namespace Parts

def handed (parts : Parts .request) : Request × Bytes :=
  (parts.head.collected parts.body.length, parts.body)

structure IsWelcome (settings : CollectSettings) (parts : Parts .request) : Prop where
  fits : parts.body.length ≤ settings.maxLength
  supported : parts.head.expectation ≠ .unsupported

/-- Some of these requests, in order, are those that were handed out. -/
def Handed (settings : CollectSettings) (complete : List (Parts .request))
    (calls : List (Request × Bytes)) : Prop :=
  ∃ some : List (Parts .request), some.Sublist complete ∧
    (∀ parts ∈ some, parts.IsWelcome settings) ∧ calls = some.map handed

namespace Handed

variable {settings : CollectSettings} {complete : List (Parts .request)}
  {calls : List (Request × Bytes)}

theorem nil (settings : CollectSettings) : Handed settings [] [] :=
  ⟨[], .slnil, nofun, rfl⟩

theorem passed (h : Handed settings complete calls) (more : List (Parts .request)) :
    Handed settings (complete ++ more) calls := by
  obtain ⟨some, hsome, hwelcome, hcalls⟩ := h
  exact ⟨some, hsome.trans (List.sublist_append_left complete more), hwelcome, hcalls⟩

theorem append (h : Handed settings complete calls) {parts : Parts .request}
    (hparts : parts.IsWelcome settings) :
    Handed settings (complete ++ [parts]) (calls ++ [parts.handed]) := by
  obtain ⟨some, hsome, hwelcome, rfl⟩ := h
  refine ⟨some ++ [parts], hsome.append (.refl _), fun other hmem => ?_, by simp⟩
  rcases List.mem_append.mp hmem with hmem | hmem
  · exact hwelcome other hmem
  · rw [List.mem_singleton.mp hmem]
    exact hparts

end Handed

end Parts

/-- The request that is there for the handler when the collector has taken a part, with its
body. -/
def Collected.calls :
    Except CollectError (Option (Collected .request)) → List (Request × Bytes)
  | .ok (some (.message whole)) =>
      if whole.failure?.isNone then [(whole.head, whole.body)] else []
  | _ => []

/-- Where a collector stands that is in step with a stream, behind complete messages and this
tail. -/
inductive CollectPhase.Follows (settings : CollectSettings) :
    CollectPhase .request → List (Message .request) → Prop
  | idle : Follows settings .idle []
  | collecting (h : Request) (chunks : List Bytes) (content : Content) (awaited : Bool)
      (hsupported : h.expectation ≠ .unsupported)
      (hdata : content.chunks.flatten = chunks.flatten) (hfits : content.Fits settings) :
      Follows settings (.collecting h.admitted content awaited) (Message.opened h chunks)
  | dropping (h : Request) (chunks : List Bytes) :
      Follows settings .dropping (Message.opened h chunks)

section Steps

variable {settings : CollectSettings} {decoder next : Decoder .request} {h : Request}
  {chunks : List Bytes} {messages tail : List (Message .request)}
  {complete : List (Parts .request)} {calls : List (Request × Bytes)}

theorem Decoder.Hands.shown_header (hands : decoder.Hands (.header h) next)
    (hshown : decoder.Shown messages complete []) :
    next.Shown (messages ++ [.header h]) complete (Message.opened h []) := by
  cases hands with
  | header _ reader hphase => exact hshown.header h reader

theorem Decoder.Hands.shown_chunk {data : Bytes}
    (hands : decoder.Hands (.payload (.chunk data)) next)
    (hallows : decoder.phase.Allows (.payload (.chunk data) : Message .request))
    (hshown : decoder.Shown messages complete (Message.opened h chunks)) :
    next.Shown (messages ++ [.payload (.chunk data)]) complete
      (Message.opened h (chunks ++ [data])) := by
  cases hands with
  | payload _ reader reader' hphase => exact hshown.chunk hallows reader'

theorem Decoder.Hands.shown_last {data : Bytes} {trailers : Fields}
    (hands : decoder.Hands (.payload (.last data trailers)) next)
    (hshown : decoder.Shown messages complete (Message.opened h chunks)) :
    next.Shown (messages ++ [.payload (.last data trailers)])
      (complete ++ [⟨h, chunks, data, trailers⟩]) [] := by
  cases hands with
  | payload _ reader reader' hphase => exact hshown.last data trailers

theorem CollectPhase.Follows.dropped {item : Item}
    (hshown : decoder.Shown messages complete (Message.opened h chunks))
    (hhanded : Parts.Handed settings complete calls)
    (hands : decoder.Hands (.payload item) next)
    (hallows : decoder.phase.Allows (.payload item : Message .request)) :
    ∃ complete' tail', next.Shown (messages ++ [.payload item]) complete' tail' ∧
      Follows settings (if item.isLast then .idle else .dropping) tail' ∧
      Parts.Handed settings complete' calls := by
  cases item with
  | chunk data =>
      exact ⟨_, _, hands.shown_chunk hallows hshown, .dropping h (chunks ++ [data]), hhanded⟩
  | last data trailers => exact ⟨_, _, hands.shown_last hshown, .idle, hhanded.passed _⟩

/-- What was gathered by the last piece is the body of the message that the stream completes. -/
theorem Parts.Handed.finish {content : Content} {data : Bytes} (trailers : Fields)
    (hhanded : Handed settings complete calls) (hsupported : h.expectation ≠ .unsupported)
    (hdata : content.chunks.flatten = chunks.flatten) (hfits : content.Fits settings)
    (hroom : settings.exceeds (content.push data).length = false) :
    Handed settings (complete ++ [⟨h, chunks, data, trailers⟩]) (calls ++
      Collected.calls (.ok (some (.message ((content.push data).finish h.admitted trailers))))) := by
  have hpushed := hfits.push hroom
  have hbody : (content.push data).chunks.flatten = chunks.flatten ++ data := by
    rw [Content.push_chunks, hdata]
  have hlength : (content.push data).length = (chunks.flatten ++ data).length := by
    rw [hpushed.length, hbody]
  have hcalls : Collected.calls (.ok (some (.message
      ((content.push data).finish h.admitted trailers)))) =
        [handed ⟨h, chunks, data, trailers⟩] := by
    simp [Collected.calls, Content.finish, WholeMessage.body, handed, body, Head.collected,
      hbody, hlength]
  rw [hcalls]
  exact hhanded.append ⟨hlength ▸ hpushed.le, hsupported⟩

/-- A step of the collector with a step of the decoder: a request that is handed out is that
which the stream completes. -/
theorem CollectSettings.Advances.follows {phase phase' : CollectPhase .request}
    {message : Message .request} {out? : Option (Collected .request)}
    (hadvances : settings.Advances phase message out? phase')
    (hfollows : phase.Follows settings tail) (hshown : decoder.Shown messages complete tail)
    (hhanded : Parts.Handed settings complete calls) (hands : decoder.Hands message next)
    (hallows : decoder.phase.Allows message) :
    ∃ complete' tail', next.Shown (messages ++ [message]) complete' tail' ∧
      phase'.Follows settings tail' ∧
      Parts.Handed settings complete' (calls ++ Collected.calls (.ok out?)) := by
  have hnone : ∀ out?, Collected.calls (.ok out?) = [] →
      calls ++ Collected.calls (.ok out?) = calls := by
    intro out? hcalls
    rw [hcalls, List.append_nil]
  -- The phase tells where in the stream the part stands.
  cases hadvances with
  | accept head hsupported =>
      cases hfollows
      refine ⟨_, _, hands.shown_header hshown, .collecting head [] {} _ hsupported rfl
        (.nil settings), ?_⟩
      rw [hnone _ (by split <;> rfl)]
      exact hhanded
  | refuse head hrefusal =>
      cases hfollows
      rw [hnone _ rfl]
      exact ⟨_, _, hands.shown_header hshown, .dropping head [], hhanded⟩
  | gather head content awaited data hroom =>
      cases hfollows with
      | collecting opened chunks _ _ hsupported hdata hfits =>
          have hgathered : (content.push data).chunks.flatten = (chunks ++ [data]).flatten := by
            rw [Content.push_chunks, hdata]
            simp
          rw [hnone _ rfl]
          exact ⟨_, _, hands.shown_chunk hallows hshown,
            .collecting opened _ _ awaited hsupported hgathered (hfits.push hroom), hhanded⟩
  | overflow head content awaited item =>
      cases hfollows with
      | collecting opened chunks _ _ hsupported hdata hfits =>
          rw [hnone _ rfl]
          exact CollectPhase.Follows.dropped hshown hhanded hands hallows
  | finish head content awaited data trailers hroom =>
      cases hfollows with
      | collecting opened chunks _ _ hsupported hdata hfits =>
          exact ⟨_, _, hands.shown_last hshown, .idle,
            hhanded.finish trailers hsupported hdata hfits hroom⟩
  | drop item =>
      cases hfollows with
      | dropping opened chunks =>
          rw [hnone _ rfl]
          exact CollectPhase.Follows.dropped hshown hhanded hands hallows

end Steps

end HttpFraming
