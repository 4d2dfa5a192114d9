import HttpFraming.Proofs.Arrival.Independence
import HttpFraming.Proofs.Collecting.Messages
import Mathlib.Data.List.Induction
import Mathlib.Data.List.Perm.Subperm

/-!
# Failures at a collector

A failure that reaches an open collector always comes out, once. It takes the place of the
message that was collected, and what was gathered of that is gone: nothing handed out from then on
contains a piece that came before. Behind a failure the collector stands between messages, as if
nothing had been, or is closed if nothing more can be read: `Collector.takeFailure_reported`.
-/

namespace HttpFraming

open Bytes

variable {k : Kind} {ρ : Type} {select : HeadRule k ρ}

/-! ## Answers -/

def Message.pieces : Message k → List Bytes
  | payload item => [item.data]
  | raw data => [data]
  | _ => []

def Collected.pieces : Except CollectError (Option (Collected k)) → List Bytes
  | .ok (some (.message whole)) => whole.chunks
  | .ok (some (.forward part)) => part.pieces
  | _ => []

def Collected.cause? : Collected k → Option ReadError
  | message whole => whole.failure?
  | forward (.failure failure) => some failure.cause
  | _ => none

/-- The pieces that were gathered and not yet handed out. -/
def CollectPhase.held : CollectPhase k → List Bytes
  | collecting _ content _ => content.chunks
  | _ => []

/-! ## The step at a failure -/

namespace Collector

/-- An open collector answers a failure once, with its cause and without any data. It asks the rule
between messages only, and only about a head that came with the failure. -/
theorem takeFailure_answer {collector : Collector k ρ} (hopen : collector.isClosed = false)
    (select : HeadRule k ρ) (failure : Failure k) :
    let asked? := if collector.isIdle then failure.head?.map (select · collector.rule) else none
    ∃ out, collector.takeFailure select failure = (.ok (some out), ⟨collector.settings,
        (asked?.map Prod.snd).getD collector.rule, if failure.fatal then .closed else .idle⟩) ∧
      out.cause? = some failure.cause ∧ Collected.pieces (.ok (some out)) = [] ∧
      (∀ h content awaited, collector.phase = .collecting h content awaited →
        out = .message (.failed h failure.cause)) ∧
      (∀ h, collector.isIdle = true → failure.head? = some h →
        (select h collector.rule).1 = true → out = .message (.failed h failure.cause)) ∧
      ((∀ h content awaited, collector.phase ≠ .collecting h content awaited) →
        (∀ h, collector.isIdle = true → failure.head? = some h →
          (select h collector.rule).1 = false) → out = .forward (.failure failure)) := by
  obtain ⟨settings, rule, phase⟩ := collector
  cases phase with
  | closed => cases hopen
  | collecting h content awaited =>
      refine ⟨.message (.failed h failure.cause), rfl, rfl, rfl, ?_, ?_, ?_⟩
      · rintro _ _ _ ⟨⟩
        rfl
      · rintro _ ⟨⟩
      · exact fun hnone => absurd rfl (hnone h content awaited)
  | passing =>
      refine ⟨.forward (.failure failure), rfl, rfl, rfl, ?_, ?_, fun _ _ => rfl⟩
      · rintro _ _ _ ⟨⟩
      · rintro _ ⟨⟩
  | dropping =>
      refine ⟨.forward (.failure failure), rfl, rfl, rfl, ?_, ?_, fun _ _ => rfl⟩
      · rintro _ _ _ ⟨⟩
      · rintro _ ⟨⟩
  | idle =>
      cases hhead : failure.head? with
      | none =>
          refine ⟨.forward (.failure failure), ?_, rfl, rfl, ?_, ?_, fun _ _ => rfl⟩
          · simp [takeFailure, hhead, enter]
          · rintro _ _ _ ⟨⟩
          · rintro _ - ⟨⟩
      | some h =>
          cases hselect : (select h rule).1 with
          | true =>
              refine ⟨.message (.failed h failure.cause), ?_, rfl, rfl, ?_, ?_, ?_⟩
              · simp [takeFailure, hhead, hselect, enter, isIdle]
              · rintro _ _ _ ⟨⟩
              · rintro _ - ⟨⟩ -
                rfl
              · intro _ hdeclined
                cases hselect.symm.trans (hdeclined h rfl rfl)
          | false =>
              refine ⟨.forward (.failure failure), ?_, rfl, rfl, ?_, ?_, fun _ _ => rfl⟩
              · simp [takeFailure, hhead, hselect, enter, isIdle]
              · rintro _ _ _ ⟨⟩
              · rintro _ - ⟨⟩ hselected
                cases hselect.symm.trans hselected

end Collector

/-! ## Settings and phases -/

namespace Collector

theorem takeHead_settings (select : HeadRule k ρ) (collector : Collector k ρ) (h : Head k) :
    (collector.takeHead select h).2.settings = collector.settings := by
  unfold takeHead
  split
  · dsimp only
    split
    · split <;> rfl
    · rfl
  · rfl

theorem takeItem_settings (collector : Collector k ρ) (item : Item) :
    (collector.takeItem item).2.settings = collector.settings := by
  unfold takeItem
  dsimp only
  split
  · rfl
  · split <;> rfl
  · split <;> rfl
  · rfl
  · split
    · unfold overflow
      split <;> rfl
    · cases item <;> rfl

theorem take_settings (select : HeadRule k ρ) (collector : Collector k ρ) (message : Message k) :
    (collector.take select message).2.settings = collector.settings := by
  unfold take
  split
  · rfl
  · rename_i hopen
    cases message with
    | header h => exact takeHead_settings select collector h
    | payload item => exact collector.takeItem_settings item
    | failure failure =>
        obtain ⟨out, htake, -⟩ := takeFailure_answer (Bool.eq_false_iff.mpr hopen) select failure
        exact congrArg (·.2.settings) htake
    | raw data => rfl

theorem takeAll_settings (select : HeadRule k ρ) (collector : Collector k ρ)
    (messages : List (Message k)) :
    (collector.takeAll select messages).2.settings = collector.settings := by
  induction messages generalizing collector with
  | nil => rfl
  | cons message more ih => exact (ih _).trans (take_settings select collector message)

theorem overflow_phase (collector : Collector k ρ) (h : Head k) (length : Nat)
    (awaited isLast : Bool) :
    let reached := (collector.overflow h length awaited isLast).2.phase
    reached = .closed ∨ reached = if isLast then .idle else .dropping := by
  unfold overflow
  split
  · by_cases hclose : collector.settings.closesOnTooLarge h.keepAlive awaited = true
    · exact .inl (if_pos hclose)
    · exact .inr (if_neg hclose)
  · exact .inl rfl

end Collector

/-! ## The message that is collected -/

/-- Behind this history a message is being collected: it began with a head that the rule selected,
as it was let in, and what has come since is data. So much was gathered of it. -/
def Collector.Gathers (start : Collector k ρ) (select : HeadRule k ρ) (history : List (Message k))
    (h : Head k) (content : Content) : Prop :=
  ∃ (before since : List (Message k)) (head : Head k),
    history = before ++ .header head :: since ∧
    (start.takeAll select before).2.isIdle = true ∧
    (select head (start.takeAll select before).2.rule).1 = true ∧
    h = head.admitted ∧
    (∀ message ∈ since, message.head? = none ∧ message.isLast = false) ∧
    content.chunks.flatten = Message.data since

theorem CollectSettings.admitted_of_inspect {settings : CollectSettings} {h h' : Head k}
    {admission : Admission} (hinspect : settings.inspect h = .ok (admission, h'))
    (hadmits : ∀ reply, admission ≠ .refuse reply) : h' = h.admitted := by
  unfold inspect at hinspect
  dsimp only at hinspect
  split at hinspect
  · cases hinspect
    exact absurd rfl (hadmits _)
  · split at hinspect
    · split at hinspect
      · cases hinspect
        exact absurd rfl (hadmits _)
      · cases hinspect
    · split at hinspect
      · rename_i hawaited
        cases hinspect
        exact (if_pos (by simpa using hawaited)).symm
      · rename_i hawaited
        cases hinspect
        exact (if_neg (by simpa using hawaited)).symm

namespace Collector

theorem collecting_of_takeHead {collector : Collector k ρ} {head h : Head k} {content : Content}
    {awaited : Bool}
    (hnext : (collector.takeHead select head).2.phase = .collecting h content awaited) :
    collector.isIdle = true ∧ (select head collector.rule).1 = true ∧ h = head.admitted ∧
      awaited = (head.expectation == .awaitContinue) ∧ content = {} := by
  unfold takeHead at hnext
  split at hnext
  · rename_i hidle
    dsimp only at hnext
    split at hnext
    · rename_i hselected
      split at hnext
      · rename_i admitted hinspect
        cases hnext
        exact ⟨hidle, hselected, CollectSettings.admitted_of_inspect hinspect nofun, rfl, rfl⟩
      · rename_i reply admitted hinspect
        cases hnext
        exact ⟨hidle, hselected, CollectSettings.admitted_of_inspect hinspect nofun, rfl, rfl⟩
      · rename_i reply _ _
        cases hclose : reply.close <;> simp [enter, hclose] at hnext
      · cases hnext
    · cases hnext
  · cases hnext

theorem collecting_of_takeItem {collector : Collector k ρ} {item : Item} {h : Head k}
    {content : Content} {awaited : Bool}
    (hnext : (collector.takeItem item).2.phase = .collecting h content awaited) :
    ∃ gathered data, collector.phase = .collecting h gathered awaited ∧ item = .chunk data ∧
      content = gathered.push data := by
  obtain ⟨settings, rule, phase⟩ := collector
  cases phase with
  | idle => cases hnext
  | passing => cases item <;> cases hnext
  | dropping => cases item <;> cases hnext
  | closed => cases hnext
  | collecting h' gathered awaited' =>
      dsimp only [takeItem] at hnext
      split at hnext
      · rcases overflow_phase ⟨settings, rule, .collecting h' gathered awaited'⟩ h'
          (gathered.push item.data).length awaited' item.isLast with hphase | hphase
        · cases hphase.symm.trans hnext
        · cases item <;> cases hphase.symm.trans hnext
      · cases item with
        | chunk data =>
            cases hnext
            exact ⟨gathered, data, rfl, rfl, rfl⟩
        | last data trailers => cases hnext

/-- A step behind which a message is being collected began with it, or gathered some more of it,
or let raw bytes pass. -/
theorem collecting_of_take {collector : Collector k ρ} {message : Message k} {h : Head k}
    {content : Content} {awaited : Bool}
    (hnext : (collector.take select message).2.phase = .collecting h content awaited) :
    (∃ head, message = .header head ∧ collector.isIdle = true ∧
        (select head collector.rule).1 = true ∧ h = head.admitted ∧
        awaited = (head.expectation == .awaitContinue) ∧ content = {}) ∨
      (∃ gathered data, collector.phase = .collecting h gathered awaited ∧
        message = .payload (.chunk data) ∧ content = gathered.push data) ∨
      (∃ data, message = .raw data) ∧ collector.phase = .collecting h content awaited := by
  unfold take at hnext
  split at hnext
  · rename_i hclosed
    have hphase : collector.phase = .closed := by simpa [isClosed] using hclosed
    cases hphase.symm.trans hnext
  · rename_i hopen
    cases message with
    | header head => exact .inl ⟨head, rfl, collecting_of_takeHead hnext⟩
    | payload item =>
        obtain ⟨gathered, data, hphase, rfl, hcontent⟩ := collecting_of_takeItem hnext
        exact .inr (.inl ⟨gathered, data, hphase, rfl, hcontent⟩)
    | failure failure =>
        obtain ⟨out, htake, -⟩ := takeFailure_answer (Bool.eq_false_iff.mpr hopen) select failure
        dsimp only at hnext
        rw [htake] at hnext
        cases hfatal : failure.fatal <;> simp [hfatal] at hnext
    | raw data => exact .inr (.inr ⟨⟨data, rfl⟩, hnext⟩)

theorem began_of_collecting {start : Collector k ρ} (hidle : start.isIdle = true)
    {history : List (Message k)} {h : Head k} {content : Content} {awaited : Bool}
    (hphase : (start.takeAll select history).2.phase = .collecting h content awaited) :
    ∃ (before since : List (Message k)) (head : Head k),
      history = before ++ .header head :: since ∧
      (start.takeAll select before).2.isIdle = true ∧
      (select head (start.takeAll select before).2.rule).1 = true ∧
      h = head.admitted ∧ awaited = (head.expectation == .awaitContinue) ∧
      (∀ message ∈ since, message.head? = none ∧ message.isLast = false) ∧
      content.chunks.flatten = Message.data since := by
  induction history using List.reverseRecOn generalizing content with
  | nil =>
      have hstart : start.phase = .idle := by simpa [isIdle] using hidle
      cases hstart.symm.trans hphase
  | append_singleton history message ih =>
      rw [takeAll_append] at hphase
      have hstep : ((start.takeAll select history).2.take select message).2.phase =
        .collecting h content awaited := hphase
      rcases collecting_of_take hstep with
        ⟨head, rfl, hbetween, hselected, rfl, rfl, rfl⟩ | ⟨gathered, data, hbefore, rfl, rfl⟩ |
          ⟨⟨data, rfl⟩, hbefore⟩
      · exact ⟨history, [], head, rfl, hbetween, hselected, rfl, rfl, by simp, rfl⟩
      · obtain ⟨before, since, head, rfl, hbetween, hselected, hadmitted, hawaited, hdata,
          hchunks⟩ := ih hbefore
        refine ⟨before, since ++ [.payload (.chunk data)], head, by simp, hbetween, hselected,
          hadmitted, hawaited, ?_, ?_⟩
        · simpa [or_imp, forall_and, Message.head?, Message.isLast, Item.isLast] using hdata
        · rw [Content.push_chunks, hchunks]
          simp [Message.data, Item.data]
      · obtain ⟨before, since, head, rfl, hbetween, hselected, hadmitted, hawaited, hdata,
          hchunks⟩ := ih hbefore
        refine ⟨before, since ++ [.raw data], head, by simp, hbetween, hselected, hadmitted,
          hawaited, ?_, ?_⟩
        · simpa [or_imp, forall_and, Message.head?, Message.isLast] using hdata
        · simpa [Message.data] using hchunks

theorem gathers_of_collecting {start : Collector k ρ} (hidle : start.isIdle = true)
    {history : List (Message k)} {h : Head k} {content : Content} {awaited : Bool}
    (hphase : (start.takeAll select history).2.phase = .collecting h content awaited) :
    start.Gathers select history h content := by
  obtain ⟨before, since, head, hhistory, hbetween, hselected, hadmitted, -, hdata, hchunks⟩ :=
    began_of_collecting hidle hphase
  exact ⟨before, since, head, hhistory, hbetween, hselected, hadmitted, hdata, hchunks⟩

end Collector

/-! ## What is handed out came in -/

theorem Content.push_sublist (content : Content) (data : Bytes) :
    (content.push data).chunks.Sublist (content.chunks ++ [data]) := by
  unfold push
  split
  · exact List.sublist_append_left _ _
  · exact .refl _

namespace Collector

theorem takeHead_pieces (select : HeadRule k ρ) (collector : Collector k ρ) (h : Head k) :
    Collected.pieces (collector.takeHead select h).1 = [] ∧
      (collector.takeHead select h).2.phase.held = [] := by
  unfold takeHead
  split
  · dsimp only
    split
    · split
      · exact ⟨rfl, rfl⟩
      · exact ⟨rfl, rfl⟩
      · rename_i reply _ _
        exact ⟨rfl, by cases hclose : reply.close <;> simp [enter, CollectPhase.held]⟩
      · exact ⟨rfl, rfl⟩
    · exact ⟨rfl, rfl⟩
  · exact ⟨rfl, rfl⟩

theorem takeItem_pieces (collector : Collector k ρ) (item : Item) :
    (Collected.pieces (collector.takeItem item).1 ++ (collector.takeItem item).2.phase.held).Sublist
      (collector.phase.held ++ [item.data]) := by
  obtain ⟨settings, rule, phase⟩ := collector
  cases phase with
  | idle => exact .refl _
  | passing => cases item <;> exact .refl _
  | dropping => cases item <;> exact List.nil_sublist _
  | closed => exact List.nil_sublist _
  | collecting h content awaited =>
      dsimp only [takeItem]
      split
      · have hpieces : Collected.pieces ((⟨settings, rule, .collecting h content awaited⟩ :
            Collector k ρ).overflow h (content.push item.data).length awaited item.isLast).1 =
              [] := by
          unfold overflow
          split <;> rfl
        rw [hpieces]
        rcases overflow_phase ⟨settings, rule, .collecting h content awaited⟩ h
          (content.push item.data).length awaited item.isLast with hphase | hphase
        · rw [hphase]
          exact List.nil_sublist _
        · rw [hphase]
          cases item <;> exact List.nil_sublist _
      · cases item with
        | chunk data => exact content.push_sublist data
        | last data trailers =>
            show ((content.push data).chunks ++ []).Sublist (content.chunks ++ [data])
            rw [List.append_nil]
            exact content.push_sublist data

/-- A step neither hands out nor keeps anything but what was held and what came. Raw bytes pass
what was held. -/
theorem take_pieces (select : HeadRule k ρ) (collector : Collector k ρ) (message : Message k) :
    (Collected.pieces (collector.take select message).1 ++
        (collector.take select message).2.phase.held).Subperm
      (collector.phase.held ++ message.pieces) := by
  unfold take
  split
  · exact (List.sublist_append_left _ _).subperm
  · rename_i hopen
    cases message with
    | header h =>
        obtain ⟨hpieces, hheld⟩ := takeHead_pieces select collector h
        dsimp only
        rw [hpieces, hheld]
        exact List.nil_subperm
    | payload item => exact (collector.takeItem_pieces item).subperm
    | failure failure =>
        obtain ⟨out, htake, -, hpieces, -⟩ :=
          takeFailure_answer (Bool.eq_false_iff.mpr hopen) select failure
        dsimp only
        rw [htake, hpieces]
        cases failure.fatal <;> exact List.nil_subperm
    | raw data => exact List.perm_append_comm.subperm

/-- What is handed out is made of pieces that were held or came in, each used once. -/
theorem takeAll_pieces (select : HeadRule k ρ) (collector : Collector k ρ)
    (messages : List (Message k)) :
    ((collector.takeAll select messages).1.flatMap Collected.pieces ++
        (collector.takeAll select messages).2.phase.held).Subperm
      (collector.phase.held ++ messages.flatMap Message.pieces) := by
  induction messages generalizing collector with
  | nil =>
      simp only [takeAll, List.flatMap_nil, List.nil_append, List.append_nil]
      exact .refl _
  | cons message more ih =>
      have hmore := (List.subperm_append_left
        (Collected.pieces (collector.take select message).1)).mpr
          (ih (collector.take select message).2)
      have hstep := (List.subperm_append_right (more.flatMap Message.pieces)).mpr
        (take_pieces select collector message)
      simp only [takeAll, List.flatMap_cons]
      rw [List.append_assoc] at hstep ⊢
      rw [List.append_assoc] at hstep
      exact hmore.trans hstep

/-! ## The failure -/

/-- Behind any history, as long as the collector is open, a failure is answered once, with its
cause. It makes the message that was being collected a failed one; between messages the rule
decides whether it makes one of its own head; and else it passes as it came. The collector is
closed behind it just if it is fatal. If not, what comes later is answered as by a collector that
stands between messages, and in any case is made of pieces that came later. -/
theorem takeFailure_reported (settings : CollectSettings) (select : HeadRule k ρ) (rule : ρ)
    (history : List (Message k)) (failure : Failure k)
    (hopen : ((⟨settings, rule, .idle⟩ : Collector k ρ).takeAll select history).2.isClosed =
      false) :
    let start : Collector k ρ := ⟨settings, rule, .idle⟩
    let reached := (start.takeAll select history).2
    let asked? := if reached.isIdle then failure.head?.map (select · reached.rule) else none
    ∃ out after, reached.take select (.failure failure) = (.ok (some out), after) ∧
      out.cause? = some failure.cause ∧ Collected.pieces (.ok (some out)) = [] ∧
      (∀ h content awaited, reached.phase = .collecting h content awaited →
        start.Gathers select history h content ∧ out = .message (.failed h failure.cause)) ∧
      (∀ h, reached.isIdle = true → failure.head? = some h → (select h reached.rule).1 = true →
        out = .message (.failed h failure.cause)) ∧
      ((∀ h content awaited, reached.phase ≠ .collecting h content awaited) →
        (∀ h, reached.isIdle = true → failure.head? = some h →
          (select h reached.rule).1 = false) → out = .forward (.failure failure)) ∧
      after.settings = settings ∧ after.rule = (asked?.map Prod.snd).getD reached.rule ∧
      after.isClosed = failure.fatal ∧
      ∀ more, let later := (after.takeAll select more).1
        (failure.fatal = false →
          later = ((⟨settings, after.rule, .idle⟩ : Collector k ρ).takeAll select more).1) ∧
        (later.flatMap Collected.pieces).Subperm (more.flatMap Message.pieces) := by
  intro start reached asked?
  obtain ⟨out, htake, hcause, hpieces, hcollecting, hselected, hpassed⟩ :=
    takeFailure_answer hopen select failure
  rw [takeAll_settings] at htake
  refine ⟨out, _, (if_neg (Bool.eq_false_iff.mp hopen)).trans htake, hcause, hpieces, ?_, hselected,
    hpassed, rfl, rfl, by cases failure.fatal <;> rfl, fun more => ⟨fun hfatal => ?_, ?_⟩⟩
  · intro h content awaited hphase
    exact ⟨gathers_of_collecting rfl hphase, hcollecting h content awaited hphase⟩
  · simp only [hfatal, Bool.false_eq_true, if_false]
  · have hlater := takeAll_pieces select
      ⟨settings, (asked?.map Prod.snd).getD reached.rule,
        if failure.fatal then .closed else .idle⟩ more
    have hheld : (if failure.fatal then .closed else .idle : CollectPhase k).held = [] := by
      cases failure.fatal <;> rfl
    rw [hheld, List.nil_append] at hlater
    exact (List.sublist_append_left _ _).subperm.trans hlater

/-- A connection that breaks behind two pieces of a body, and then begins anew. -/
theorem takeFailure_reported_of_upload :
    let upload : Request := { line := ⟨⟨ascii "PUT", by decide⟩, .root⟩ }
    let history : List (Message .request) :=
      [.header upload, .payload (.chunk (ascii "he")), .payload (.chunk (ascii "llo"))]
    let more : List (Message .request) := [.header upload, .payload (.last (ascii "ab") ∅)]
    let reached := ((⟨{}, (), .idle⟩ : Collector .request Unit).takeAll (selectAll _) history).2
    let (answer, after) := reached.take (selectAll _) (.failure ⟨none, .prematureEnd, false⟩)
    reached.isClosed = false ∧ answer = .ok (some (.message (.failed upload .prematureEnd))) ∧
      after.isClosed = false ∧
      ((after.takeAll (selectAll _) more).1.flatMap Collected.pieces).Subperm [ascii "ab"] := by
  intro upload history more reached
  have hopen : reached.isClosed = false := by decide +kernel
  obtain ⟨out, after, htake, -, -, hcollecting, -, -, -, -, hclosed, hlater⟩ :=
    takeFailure_reported {} (selectAll .request) () history ⟨none, .prematureEnd, false⟩ hopen
  have hphase : reached.phase = .collecting upload ⟨[ascii "he", ascii "llo"], 5⟩ false := by
    decide +kernel
  obtain rfl := (hcollecting _ _ _ hphase).2
  rw [htake]
  exact ⟨hopen, rfl, hclosed, (hlater more).2⟩

end Collector

end HttpFraming
