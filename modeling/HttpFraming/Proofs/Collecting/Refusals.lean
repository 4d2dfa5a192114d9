import HttpFraming.Proofs.Collecting.Failures

/-!
# Bodies that are refused for their size

A body is refused when its head announces too much, or later, with the piece with which it grows
beyond the limit. On both ways the same three things decide whether the connection is kept: the
settings, the head, and whether the client was waiting to be asked for the body. So the connection
is kept if and only if it would have been kept anyway, but for clients that were waiting:
`Collector.close_of_tooLarge`.
-/

namespace HttpFraming

open Bytes

/-- A refusal says that the connection ends if and only if it does. -/
theorem Reply.values_connection_refusal (status : Status) (close : Bool) :
    (refusal status close).head.fields.values .connection = if close then [.close] else [] := by
  have hne : FieldName.connection ≠ .contentLength := by decide
  cases close with
  | true => simp [refusal, Fields.values]
  | false =>
      simp only [refusal, Bool.false_eq_true, if_false, Fields.values,
        Fields.find?_insert_of_ne _ _ hne]
      rfl

namespace CollectSettings

variable {settings : CollectSettings} {h h' : Request} {reply : Reply}

def tooLargeReply (settings : CollectSettings) (h : Request) : Reply :=
  .tooLarge (settings.closesOnTooLarge h.keepAlive (h.expectation == .awaitContinue))

/-- All that can be decided on the head of a request. -/
theorem admission_of_inspect {admission : Admission}
    (hinspect : settings.inspect h = .ok (admission, h')) :
    admission = .accept ∨ admission = .proceed .proceed ∨
      admission = .refuse (.expectationFailed settings.closeOnRefusal) ∨
      admission = .refuse (settings.tooLargeReply h) := by
  unfold inspect at hinspect
  dsimp only at hinspect
  split at hinspect
  · cases hinspect
    exact .inr (.inr (.inl rfl))
  · split at hinspect
    · rw [if_pos rfl] at hinspect
      cases hinspect
      exact .inr (.inr (.inr rfl))
    · split at hinspect
      · cases hinspect
        exact .inr (.inl rfl)
      · cases hinspect
        exact .inl rfl

/-- What the connection would do anyway decides, unless the client waits and nothing else asks for
the end of the connection. -/
theorem close_tooLargeReply_iff :
    ((settings.tooLargeReply h).close = true ↔
        settings.closeOnRefusal = true ∨ h.keepAlive = false) ↔
      ¬ (h.expectation = .awaitContinue ∧ h.keepAlive = false ∧
        settings.closeOnRefusal = false) := by
  have hclose : (settings.tooLargeReply h).close =
      (settings.closeOnRefusal || !(h.keepAlive || h.expectation == .awaitContinue)) := rfl
  rw [hclose]
  cases settings.closeOnRefusal with
  | true => simp
  | false =>
      cases h.keepAlive with
      | true => simp
      | false => simp

end CollectSettings

namespace Collector

variable {ρ : Type} {select : HeadRule .request ρ} {collector : Collector .request ρ}
  {h : Request} {reply : Reply}

/-! ## Where a request is refused -/

theorem tooLarge_of_takeHead
    (htake : (collector.takeHead select h).1 = .ok (some (.reply reply)))
    (hstatus : reply.head.status = .payloadTooLarge) :
    reply = collector.settings.tooLargeReply h ∧
      (collector.takeHead select h).2.isClosed = reply.close := by
  unfold takeHead at htake ⊢
  dsimp only at htake ⊢
  split at htake
  · split at htake
    · rename_i hidle hselected
      rw [if_pos hidle, if_pos hselected]
      split at htake
      · cases htake
      · rename_i hinspect
        cases htake
        have hproceed : reply = .proceed := by
          simpa using CollectSettings.admission_of_inspect hinspect
        rw [hproceed] at hstatus
        cases hstatus
      · rename_i hinspect
        cases htake
        have hrefusal : reply = .expectationFailed collector.settings.closeOnRefusal ∨
            reply = collector.settings.tooLargeReply h := by
          simpa using CollectSettings.admission_of_inspect hinspect
        rcases hrefusal with hreply | hreply
        · rw [hreply] at hstatus
          cases hstatus
        · refine ⟨hreply, ?_⟩
          cases reply.close <;> rfl
      · cases htake
    · cases htake
  · cases htake

theorem tooLarge_of_takeItem {item : Item}
    (htake : (collector.takeItem item).1 = .ok (some (.reply reply))) :
    ∃ h content awaited, collector.phase = .collecting h content awaited ∧
      reply = .tooLarge (collector.settings.closesOnTooLarge h.keepAlive awaited) ∧
      (collector.takeItem item).2.isClosed = reply.close := by
  obtain ⟨settings, rule, phase⟩ := collector
  cases phase with
  | idle => cases htake
  | passing => cases htake
  | dropping => cases htake
  | closed => cases htake
  | collecting h content awaited =>
      dsimp only [takeItem] at htake ⊢
      split at htake
      · rename_i hover
        rw [if_pos hover]
        unfold overflow at htake ⊢
        rw [if_pos rfl] at htake ⊢
        cases htake
        refine ⟨h, content, awaited, rfl, rfl, ?_⟩
        simp only [Reply.tooLarge, Reply.refusal]
        cases settings.closesOnTooLarge h.keepAlive awaited with
        | true => rfl
        | false => cases item <;> rfl
      · cases item <;> cases htake

/-- A request is refused for its size with its head, or with a piece of the body that is being
collected, and with nothing else. The collector is closed if the reply says so. -/
theorem tooLarge_of_take {message : Message .request}
    (htake : (collector.take select message).1 = .ok (some (.reply reply)))
    (hstatus : reply.head.status = .payloadTooLarge) :
    (collector.take select message).2.isClosed = reply.close ∧
      ((∃ h, message = .header h ∧ reply = collector.settings.tooLargeReply h) ∨
        ∃ item h content awaited, message = .payload item ∧
          collector.phase = .collecting h content awaited ∧
          reply = .tooLarge (collector.settings.closesOnTooLarge h.keepAlive awaited)) := by
  cases hopen : collector.isClosed with
  | true =>
      simp only [take, hopen, if_true] at htake
      cases htake
  | false =>
      simp only [take, hopen, Bool.false_eq_true, if_false] at htake ⊢
      cases message with
      | header h =>
          obtain ⟨hreply, hclosed⟩ := tooLarge_of_takeHead htake hstatus
          exact ⟨hclosed, .inl ⟨h, rfl, hreply⟩⟩
      | payload item =>
          obtain ⟨h, content, awaited, hphase, hreply, hclosed⟩ := tooLarge_of_takeItem htake
          exact ⟨hclosed, .inr ⟨item, h, content, awaited, rfl, hphase, hreply⟩⟩
      | failure failure =>
          obtain ⟨out, hanswer, hcause, -⟩ := takeFailure_answer hopen select failure
          simp only [hanswer] at htake
          cases htake
          cases hcause
      | raw data => cases htake

/-! ## Whether the connection is kept -/

/-- Behind any parts, a refusal for the size of a body is that of the request whose head came last,
be it for the announced length or for the pieces that have come. It closes the connection, and says
so, if the settings ask for that or if the request neither keeps the connection nor waits for its
body to be asked for. What the connection would have done anyway therefore decides, unless a
request that waits is refused that does not keep it, while the settings do not ask for the end. -/
theorem close_of_tooLarge (settings : CollectSettings) (rule : ρ)
    (messages : List (Message .request)) (message : Message .request)
    (htake : ((((⟨settings, rule, .idle⟩ : Collector .request ρ).takeAll select messages).2).take
      select message).1 = .ok (some (.reply reply)))
    (hstatus : reply.head.status = .payloadTooLarge) :
    let reached := ((⟨settings, rule, .idle⟩ : Collector .request ρ).takeAll select messages).2
    ∃ (before since : List (Message .request)) (h : Request),
      messages ++ [message] = before ++ .header h :: since ∧
      (∀ part ∈ since, part.head? = none) ∧
      reply = .tooLarge (settings.closeOnRefusal ||
        !(h.keepAlive || h.expectation == .awaitContinue)) ∧
      ((reply.close = true ↔ settings.closeOnRefusal = true ∨ h.keepAlive = false) ↔
        ¬ (h.expectation = .awaitContinue ∧ h.keepAlive = false ∧
          settings.closeOnRefusal = false)) ∧
      reply.head.fields.values .connection = (if reply.close then [.close] else []) ∧
      (reached.take select message).2.isClosed = reply.close := by
  intro reached
  have hsettings : reached.settings = settings := takeAll_settings select _ messages
  obtain ⟨hclosed, hcases⟩ := tooLarge_of_take htake hstatus
  -- Whichever part it came with, the refusal is decided by the head that came last.
  have hlast : ∃ (before since : List (Message .request)) (h : Request),
      messages ++ [message] = before ++ .header h :: since ∧
      (∀ part ∈ since, part.head? = none) ∧ reply = settings.tooLargeReply h := by
    rcases hcases with ⟨h, rfl, hreply⟩ | ⟨item, admitted, content, awaited, rfl, hphase, hreply⟩
    · rw [hsettings] at hreply
      exact ⟨messages, [], h, rfl, by simp, hreply⟩
    · obtain ⟨before, since, h, hmessages, -, -, hadmitted, hawaited, hsince, -⟩ :=
        began_of_collecting rfl hphase
      rw [hsettings, hadmitted, h.keepAlive_admitted, hawaited] at hreply
      refine ⟨before, since ++ [.payload item], h, by simp [hmessages], ?_, hreply⟩
      intro part hpart
      rcases List.mem_append.mp hpart with hpart | hpart
      · exact (hsince part hpart).1
      · rw [List.mem_singleton.mp hpart]
        rfl
  obtain ⟨before, since, h, hmessages, hsince, rfl⟩ := hlast
  exact ⟨before, since, h, hmessages, hsince, rfl, CollectSettings.close_tooLargeReply_iff,
    Reply.values_connection_refusal _ _, hclosed⟩

/-- An upload on a connection that is to be closed is refused with the piece with which it grows
beyond the limit, behind another upload that was refused for its length. -/
theorem close_of_tooLarge_of_growth :
    let settings : CollectSettings := { maxLength := 4 }
    let upload (fields : List (FieldName × FieldValue)) : Request :=
      { line := ⟨⟨ascii "PUT", by decide⟩, .root⟩, fields := .ofList fields }
    let messages : List (Message .request) := [.header (upload [(.contentLength, .ofNat 5)]),
      .payload .done, .header (upload [(.connection, .close)]), .payload (.chunk (ascii "abc"))]
    let reached := ((⟨settings, (), .idle⟩ : Collector .request Unit).takeAll (selectAll _)
      messages).2
    (reached.take (selectAll _) (.payload (.chunk (ascii "de")))).1 =
        .ok (some (.reply (.tooLarge true))) ∧
      (Reply.tooLarge true).head.fields.values .connection = [.close] ∧
      (reached.take (selectAll _) (.payload (.chunk (ascii "de")))).2.isClosed = true := by
  intro settings upload messages reached
  have htake : (reached.take (selectAll _) (.payload (.chunk (ascii "de")))).1 =
      .ok (some (.reply (.tooLarge true))) := by
    decide +kernel
  obtain ⟨-, -, -, -, -, -, -, hconnection, hclosed⟩ :=
    close_of_tooLarge settings () messages (.payload (.chunk (ascii "de"))) htake rfl
  exact ⟨htake, hconnection, hclosed⟩

/-- A client that asks for the end of the connection, and waits to be asked for its body, is
refused without that end, both for the length that it announces and for the body that it sends. -/
theorem kept_of_awaited_upload :
    let settings : CollectSettings := { maxLength := 4 }
    let upload (fields : List (FieldName × FieldValue)) : Request :=
      { line := ⟨⟨ascii "PUT", by decide⟩, .root⟩
        fields := .ofList ([(.expect, ⟨ascii "100-continue", by decide⟩),
          (.connection, .close)] ++ fields) }
    let announced := upload [(.contentLength, .ofNat 5)]
    let start : Collector .request Unit := ⟨settings, (), .idle⟩
    settings.closeOnRefusal = false ∧ announced.keepAlive = false ∧
      (upload []).keepAlive = false ∧
      (start.take (selectAll _) (.header announced)).1 =
        .ok (some (.reply (.tooLarge false))) ∧
      (((start.takeAll (selectAll _) [.header (upload [])]).2).take (selectAll _)
        (.payload (.chunk (ascii "hello")))).1 = .ok (some (.reply (.tooLarge false))) := by
  decide +kernel

end Collector

end HttpFraming
