import HttpFraming.Proofs.Arrival.Streams
import HttpFraming.Proofs.Collecting.Steps

/-!
# What a collector forwards

A decoder and the collector behind it both know whether a message is under way. Each part that the
decoder hands out leaves them in step: `Collector.take_inStep`. What the collector then forwards
are heads that its rule declines, the bodies behind them, and failures. A head never meets it
within a message.
-/

namespace HttpFraming

/-- Where a collector may stand while its decoder stands there. -/
inductive CollectPhase.InStep : CollectPhase k → DecoderPhase → Prop
  | closed (place : DecoderPhase) : InStep .closed place
  | between : InStep .idle .head
  | within {phase : CollectPhase k} (hbusy : phase.busy = 1) (reader : BodyReader) :
      InStep phase (.body reader)

namespace CollectPhase.InStep

variable {k : Kind} {phase : CollectPhase k} {decoder next : Decoder k}

theorem idle_iff (h : phase.InStep decoder.phase) (hopen : phase ≠ .closed) :
    phase = .idle ↔ decoder.isIdle = true := by
  rw [Decoder.isIdle, beq_iff_eq]
  generalize decoder.phase = place at h
  cases h with
  | closed => exact absurd rfl hopen
  | between => exact ⟨fun _ => rfl, fun _ => rfl⟩
  | within hbusy reader =>
      constructor
      · rintro rfl
        cases hbusy
      · rintro ⟨⟩

theorem waits {ended : Bool} {rest : Bytes} (h : phase.InStep decoder.phase)
    (hwaits : decoder.Waits ended next rest) : phase.InStep next.phase := by
  cases hwaits with
  | head rest hphase hroom hend => exact h
  | failed hphase => exact h
  | body reader reader' rest hphase hroom hend =>
      rw [hphase] at h
      cases h with
      | closed => exact .closed _
      | within hbusy => exact .within hbusy reader'

end CollectPhase.InStep

def CollectPhase.passes : CollectPhase k → Bool
  | passing => true
  | _ => false

def Collected.isQuiet : Except CollectError (Option (Collected k)) → Bool
  | .error .unexpectedHead => false
  | .ok (some (.forward _)) => false
  | _ => true

/-- What a collector forwards of the parts of a decoder: a head that the rule declines, the body
behind such a head, and failures. -/
inductive HeadRule.Forwards (select : HeadRule k ρ) (rule : ρ) : CollectPhase k → Message k →
    Except CollectError (Option (Collected k)) → CollectPhase k → Prop
  | head (h : Head k) (hdeclined : (select h rule).1 = false) :
      Forwards select rule .idle (.header h) (.ok (some (.forward (.header h)))) .passing
  | item (item : Item) :
      Forwards select rule .passing (.payload item) (.ok (some (.forward (.payload item))))
        (if item.isLast then .idle else .passing)
  | failure (phase : CollectPhase k) (failure : Failure k) :
      Forwards select rule phase (.failure failure) (.ok (some (.forward (.failure failure))))
        .closed
  | nothing {phase next : CollectPhase k} {message : Message k}
      {result : Except CollectError (Option (Collected k))}
      (hquiet : Collected.isQuiet result = true) (hnext : next.passes = false) :
      Forwards select rule phase message result next

namespace Collector

variable {k : Kind} {ρ : Type} {settings : CollectSettings} {rule : ρ}

theorem isQuiet_inspect {h : Head k} {error : CollectError}
    (hinspect : settings.inspect h = .error error) :
    Collected.isQuiet (.error error : Except CollectError (Option (Collected k))) = true := by
  unfold CollectSettings.inspect at hinspect
  dsimp only at hinspect
  split at hinspect
  · cases hinspect
  · split at hinspect
    · split at hinspect
      · cases hinspect
      · cases hinspect
        rfl
    · split at hinspect <;> cases hinspect

theorem takeHead_inStep (select : HeadRule k ρ) (h : Head k) (reader : BodyReader) :
    let taken := (⟨settings, rule, .idle⟩ : Collector k ρ).takeHead select h
    taken.2.phase.InStep (.body reader) ∧
      select.Forwards rule .idle (.header h) taken.1 taken.2.phase := by
  intro taken
  rcases hselect : select h rule with ⟨selected, after⟩
  have hidle : (⟨settings, rule, .idle⟩ : Collector k ρ).isIdle = true := rfl
  simp only [taken, takeHead, hidle, if_true, hselect]
  cases selected with
  | false => exact ⟨.within rfl reader, .head h (by rw [hselect])⟩
  | true =>
      rcases hinspect : settings.inspect h with error | ⟨admission, admitted⟩
      · simp only [if_true]
        exact ⟨.closed _, .nothing (isQuiet_inspect hinspect) rfl⟩
      · cases admission with
        | accept => exact ⟨.within rfl reader, .nothing rfl rfl⟩
        | proceed reply => exact ⟨.within rfl reader, .nothing rfl rfl⟩
        | refuse reply =>
            simp only [if_true, enter]
            cases reply.close with
            | true => exact ⟨.closed _, .nothing rfl rfl⟩
            | false => exact ⟨.within rfl reader, .nothing rfl rfl⟩

theorem takeItem_inStep (select : HeadRule k ρ) {phase : CollectPhase k} (hbusy : phase.busy = 1)
    (hopen : phase ≠ .closed) (item : Item) (reader : BodyReader) :
    let taken := (⟨settings, rule, phase⟩ : Collector k ρ).takeItem item
    taken.2.phase.InStep (if item.isLast then .head else .body reader) ∧
      select.Forwards rule phase (.payload item) taken.1 taken.2.phase := by
  -- Behind a piece that is dropped the collector drops the next one, or is between messages.
  have hdropped : (if item.isLast then .idle else .dropping : CollectPhase k).InStep
        (if item.isLast then .head else .body reader) ∧
      (if item.isLast then .idle else .dropping : CollectPhase k).passes = false := by
    cases item with
    | chunk data => exact ⟨.within rfl reader, rfl⟩
    | last data trailers => exact ⟨.between, rfl⟩
  intro taken
  cases phase with
  | idle => cases hbusy
  | closed => exact absurd rfl hopen
  | passing =>
      have hforwards : select.Forwards rule .passing (.payload item)
        (.ok (some (.forward (.payload item)))) (if item.isLast then .idle else .passing) :=
          .item item
      cases item with
      | chunk data => exact ⟨.within rfl reader, hforwards⟩
      | last data trailers => exact ⟨.between, hforwards⟩
  | dropping =>
      have hphase : taken.2.phase = if item.isLast then .idle else .dropping := by
        cases item <;> rfl
      rw [hphase]
      exact ⟨hdropped.1, .nothing rfl hdropped.2⟩
  | collecting h content awaited =>
      simp only [taken, takeItem]
      split
      · unfold overflow
        split
        · dsimp only [enter]
          split
          · exact ⟨.closed _, .nothing rfl rfl⟩
          · exact ⟨hdropped.1, .nothing rfl hdropped.2⟩
        · exact ⟨.closed _, .nothing rfl rfl⟩
      · cases item with
        | chunk data => exact ⟨.within rfl reader, .nothing rfl rfl⟩
        | last data trailers => exact ⟨.between, .nothing rfl rfl⟩

theorem takeFailure_inStep (select : HeadRule k ρ) {phase : CollectPhase k}
    (failure : Failure k) (hfatal : failure.fatal = true) (place : DecoderPhase) :
    let taken := (⟨settings, rule, phase⟩ : Collector k ρ).takeFailure select failure
    taken.2.phase.InStep place ∧
      select.Forwards rule phase (.failure failure) taken.1 taken.2.phase := by
  intro taken
  simp only [taken, takeFailure, hfatal, if_true]
  cases phase with
  | closed => exact ⟨.closed place, .nothing rfl rfl⟩
  | collecting h content awaited => exact ⟨.closed place, .nothing rfl rfl⟩
  | passing => exact ⟨.closed place, .failure .passing failure⟩
  | dropping => exact ⟨.closed place, .failure .dropping failure⟩
  | idle =>
      cases hhead : failure.head? with
      | none => exact ⟨.closed place, .failure .idle failure⟩
      | some h =>
          dsimp only
          cases (select h rule).1 with
          | true => exact ⟨.closed place, .nothing rfl rfl⟩
          | false => exact ⟨.closed place, .failure .idle failure⟩

/-- A part that the decoder hands out leaves both in step. -/
theorem take_inStep (select : HeadRule k ρ) {collector : Collector k ρ} {decoder next : Decoder k}
    {message : Message k} (hstep : collector.phase.InStep decoder.phase)
    (hands : decoder.Hands message next) (hallows : decoder.phase.Allows message) :
    (collector.take select message).2.phase.InStep next.phase ∧
      select.Forwards collector.rule collector.phase message (collector.take select message).1
        (collector.take select message).2.phase := by
  obtain ⟨settings, rule, phase⟩ := collector
  by_cases hclosed : phase = .closed
  · subst hclosed
    exact ⟨.closed _, .nothing rfl rfl⟩
  have hopen : (⟨settings, rule, phase⟩ : Collector k ρ).isClosed = false := by
    simpa [isClosed] using hclosed
  simp only [take, hopen, Bool.false_eq_true, if_false]
  cases hands with
  | header h reader hphase =>
      rw [hphase] at hstep
      cases hstep with
      | closed => exact absurd rfl hclosed
      | between => exact takeHead_inStep select h reader
  | payload item reader reader' hphase =>
      rw [hphase] at hstep
      cases hstep with
      | closed => exact absurd rfl hclosed
      | within hbusy =>
          have htaken :=
            @takeItem_inStep k ρ settings rule select phase hbusy hclosed item reader'
          cases item <;> exact htaken
  | failure failure => exact takeFailure_inStep select failure hallows.1 _

end Collector

end HttpFraming
