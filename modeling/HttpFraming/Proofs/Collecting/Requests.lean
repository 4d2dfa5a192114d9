import HttpFraming.Collecting.Collector
import HttpFraming.Proofs.RoundTrip.Messages

/-!
# What a collector makes of one request

A request on a connection that is kept is collected or refused, and either way the collector
stands between messages behind it: `Collects.request`. In which pieces its body came shows in
the pieces of the collected body only.
-/

namespace HttpFraming

open Bytes

variable {k : Kind} {ρ : Type} {select : HeadRule k ρ}

/-- A collector takes the parts, without an error, and hands these things out for them. -/
inductive Collects (select : HeadRule k ρ) :
    Collector k ρ → List (Message k) → List (Collected k) → Collector k ρ → Prop
  | nil (collector : Collector k ρ) : Collects select collector [] [] collector
  | quiet {collector next last : Collector k ρ} {message : Message k} {more : List (Message k)}
      {out : List (Collected k)} (htake : collector.take select message = (.ok none, next))
      (hmore : Collects select next more out last) :
      Collects select collector (message :: more) out last
  | handsOut {collector next last : Collector k ρ} {message : Message k} {more : List (Message k)}
      {collected : Collected k} {out : List (Collected k)}
      (htake : collector.take select message = (.ok (some collected), next))
      (hmore : Collects select next more out last) :
      Collects select collector (message :: more) (collected :: out) last

namespace CollectSettings

/-- The reply by which a request is refused, whose body has so many bytes. -/
def refusal? (settings : CollectSettings) (request : Request) (length : Nat) : Option Reply :=
  if request.expectation = .unsupported then some (.expectationFailed false)
  else if settings.exceeds length then some (.tooLarge false)
  else none

/-- Whether the body of a request is asked for: it waits for that, and has not announced a
length beyond the limit. -/
def asksFor (settings : CollectSettings) (request : Request) : Bool :=
  request.expectation == .awaitContinue &&
    (request.contentLength?.filter settings.exceeds).isNone

def collectedHead (request : Request) (length : Nat) : Request :=
  (if request.expectation = .awaitContinue then
    { request with fields := request.fields.remove .expect }
  else request).announce (.length length)

def outcome (settings : CollectSettings) (request : Request) (chunks : List Bytes) (length : Nat)
    (trailers : Fields) : List (Collected .request) :=
  (if settings.asksFor request then [.reply .proceed] else []) ++
    [(settings.refusal? request length).elim
      (.message ⟨collectedHead request length, chunks, length, trailers, none⟩) .reply]

end CollectSettings

/-! ## Connections that are kept -/

theorem Head.keepAlive_congr {h h' : Head k} (hversion : h'.version = h.version)
    (hconnection : h'.fields.find? .connection = h.fields.find? .connection) :
    h'.keepAlive = h.keepAlive := by
  simp only [keepAlive, hasConnectionOption, connectionOptions, Fields.values, hconnection,
    hversion]

theorem Head.keepAlive_remove_expect (h : Head k) :
    ({ h with fields := h.fields.remove .expect } : Head k).keepAlive = h.keepAlive :=
  keepAlive_congr rfl (Fields.find?_remove_of_ne h.fields (by decide))

theorem Head.keepAlive_announce (h : Head k) (framing : Framing) :
    (h.announce framing).keepAlive = h.keepAlive :=
  keepAlive_congr rfl (framing.announce_find?_of_ne _ (by decide) (by decide))

theorem CollectSettings.keepAlive_collectedHead (request : Request) (length : Nat) :
    (collectedHead request length).keepAlive = request.keepAlive := by
  rw [collectedHead, Head.keepAlive_announce]
  split
  · exact request.keepAlive_remove_expect
  · rfl

theorem CollectSettings.collectedHead_line (request : Request) (length : Nat) :
    (collectedHead request length).line = request.line ∧
      (collectedHead request length).version = request.version := by
  unfold collectedHead
  split <;> exact ⟨rfl, rfl⟩

theorem CollectSettings.closesOnTooLarge_eq {settings : CollectSettings}
    (hclose : settings.closeOnRefusal = false) (awaited : Bool) :
    settings.closesOnTooLarge true awaited = false := by
  simp [closesOnTooLarge, hclose]

/-! ## The decision about a head -/

namespace CollectSettings

variable {settings : CollectSettings} {h : Request}

theorem inspect_unsupported (hclose : settings.closeOnRefusal = false)
    (hunsupported : h.expectation = .unsupported) :
    settings.inspect h = .ok (.refuse (.expectationFailed false), h) := by
  simp [inspect, hunsupported, hclose]

theorem inspect_tooLarge (hclose : settings.closeOnRefusal = false) (hkeep : h.keepAlive = true)
    (hsupported : h.expectation ≠ .unsupported) {n : Nat}
    (hlarge : h.contentLength?.filter settings.exceeds = some n) :
    settings.inspect h = .ok (.refuse (.tooLarge false), h) := by
  simp [inspect, hsupported, hlarge, hkeep, closesOnTooLarge_eq hclose]

theorem inspect_proceed (hawaited : h.expectation = .awaitContinue)
    (hfits : h.contentLength?.filter settings.exceeds = none) :
    settings.inspect h = .ok (.proceed .proceed, { h with fields := h.fields.remove .expect }) := by
  simp [inspect, hawaited, hfits]

theorem inspect_accept (hsupported : h.expectation ≠ .unsupported)
    (hawaited : h.expectation ≠ .awaitContinue)
    (hfits : h.contentLength?.filter settings.exceeds = none) :
    settings.inspect h = .ok (.accept, h) := by
  simp [inspect, hsupported, hawaited, hfits]

variable {chunks : List Bytes} {length : Nat} {trailers : Fields}

theorem outcome_of_unsupported (hunsupported : h.expectation = .unsupported) :
    settings.outcome h chunks length trailers = [.reply (.expectationFailed false)] := by
  simp [outcome, asksFor, refusal?, hunsupported]

theorem outcome_of_announced (hsupported : h.expectation ≠ .unsupported) {n : Nat}
    (hlarge : h.contentLength?.filter settings.exceeds = some n)
    (hexceeds : settings.exceeds length = true) :
    settings.outcome h chunks length trailers = [.reply (.tooLarge false)] := by
  simp [outcome, asksFor, refusal?, hsupported, hlarge, hexceeds]

/-- A body that is let in is asked for, if the request waits for that, and may still be too
large. -/
theorem outcome_of_admitted (hsupported : h.expectation ≠ .unsupported)
    (hfits : h.contentLength?.filter settings.exceeds = none) :
    settings.outcome h chunks length trailers =
      (if h.expectation = .awaitContinue then [.reply .proceed] else []) ++
        [if settings.exceeds length then .reply (.tooLarge false)
        else .message ⟨collectedHead h length, chunks, length, trailers, none⟩] := by
  rw [outcome, refusal?, if_neg hsupported]
  by_cases hexceeds : settings.exceeds length = true
  · simp [asksFor, hfits, hexceeds]
  · simp [asksFor, hfits, hexceeds]

end CollectSettings

/-! ## The body of a request -/

namespace Content

theorem push_chunks (content : Content) (data : Bytes) :
    (content.push data).chunks.flatten = content.chunks.flatten ++ data := by
  by_cases hdata : data = [] <;> simp [push, hdata]

theorem push_length (content : Content) (data : Bytes) :
    (content.push data).length = content.length + data.length := by
  by_cases hdata : data = [] <;> simp [push, hdata]

end Content

namespace Collects

variable {settings : CollectSettings} {rule : ρ}

theorem dropping (chunks : List Bytes) (tail : Bytes) (trailers : Fields) :
    Collects select ⟨settings, rule, .dropping⟩ (Message.payloads chunks tail trailers) []
      ⟨settings, rule, .idle⟩ := by
  induction chunks with
  | nil => exact .quiet rfl (.nil _)
  | cons data chunks ih => exact .quiet rfl ih

theorem take_chunk {h : Head k} {content : Content} {awaited : Bool} {data : Bytes}
    (hfits : settings.exceeds (content.push data).length = false) :
    (⟨settings, rule, .collecting h content awaited⟩ : Collector k ρ).take select
        (.payload (.chunk data)) =
      (.ok none, ⟨settings, rule, .collecting h (content.push data) awaited⟩) := by
  simp [Collector.take, Collector.isClosed, Collector.takeItem, Item.data, hfits, Collector.enter]

theorem take_last {h : Head k} {content : Content} {awaited : Bool} {trailers : Fields}
    (hfits : settings.exceeds content.length = false) :
    (⟨settings, rule, .collecting h content awaited⟩ : Collector k ρ).take select
        (.payload (.last [] trailers)) =
      (.ok (some (.message (content.finish h trailers))), ⟨settings, rule, .idle⟩) := by
  simp [Collector.take, Collector.isClosed, Collector.takeItem, Item.data, hfits, Collector.enter,
    Content.push]

theorem take_overflow {select : HeadRule .request ρ} {h : Request} {content : Content}
    {awaited : Bool} {data : Bytes} (hclose : settings.closeOnRefusal = false)
    (hkeep : h.keepAlive = true) (hlarge : settings.exceeds (content.push data).length = true) :
    (⟨settings, rule, .collecting h content awaited⟩ : Collector .request ρ).take select
        (.payload (.chunk data)) =
      (.ok (some (.reply (.tooLarge false))), ⟨settings, rule, .dropping⟩) := by
  simp [Collector.take, Collector.isClosed, Collector.takeItem, Item.data, hlarge, Item.isLast,
    Collector.overflow, hkeep, CollectSettings.closesOnTooLarge_eq hclose, Collector.enter]

/-- A body is collected as a whole if it fits, and refused once if it does not. -/
theorem body {select : HeadRule .request ρ} {h : Request} {content : Content} {awaited : Bool}
    (hclose : settings.closeOnRefusal = false) (hkeep : h.keepAlive = true)
    (hfits : settings.exceeds content.length = false) (pieces : List Bytes) (trailers : Fields) :
    ∃ chunks : List Bytes, chunks.flatten = content.chunks.flatten ++ pieces.flatten ∧
      Collects select ⟨settings, rule, .collecting h content awaited⟩
        (Message.payloads pieces [] trailers)
        [if settings.exceeds (content.length + pieces.flatten.length) then
          .reply (.tooLarge false)
        else .message ⟨h.announce (.length (content.length + pieces.flatten.length)), chunks,
          content.length + pieces.flatten.length, trailers, none⟩]
        ⟨settings, rule, .idle⟩ := by
  induction pieces generalizing content with
  | nil =>
      refine ⟨content.chunks, by simp, ?_⟩
      simp only [List.flatten_nil, List.length_nil, Nat.add_zero, hfits]
      exact .handsOut (take_last hfits) (.nil _)
  | cons data pieces ih =>
      have htotal : content.length + (data :: pieces).flatten.length =
          (content.push data).length + pieces.flatten.length := by
        rw [Content.push_length, List.flatten_cons, List.length_append]
        omega
      rw [htotal]
      by_cases hlarge : settings.exceeds (content.push data).length = true
      · have hexceeds : settings.exceeds ((content.push data).length + pieces.flatten.length) =
            true := by
          simp only [CollectSettings.exceeds, decide_eq_true_eq] at hlarge ⊢
          omega
        refine ⟨(content.push data).chunks ++ pieces, by simp [Content.push_chunks], ?_⟩
        rw [hexceeds]
        exact .handsOut (take_overflow hclose hkeep hlarge) (dropping pieces [] trailers)
      · have hsmall : settings.exceeds (content.push data).length = false := by
          simpa using hlarge
        obtain ⟨chunks, hchunks, hcollects⟩ := ih hsmall
        refine ⟨chunks, ?_, .quiet (take_chunk hsmall) hcollects⟩
        rw [hchunks, Content.push_chunks, List.flatten_cons, List.append_assoc]

/-! ## Whole requests -/

theorem take_head (h : Head k) :
    (⟨settings, (), .idle⟩ : Collector k Unit).take (selectAll k) (.header h) =
      match settings.inspect h with
      | .ok (.accept, h') =>
          (.ok none, ⟨settings, (), .collecting h' {} (h.expectation == .awaitContinue)⟩)
      | .ok (.proceed reply, h') =>
          (.ok (some (.reply reply)),
            ⟨settings, (), .collecting h' {} (h.expectation == .awaitContinue)⟩)
      | .ok (.refuse reply, _) =>
          (.ok (some (.reply reply)), ⟨settings, (), if reply.close then .closed else .dropping⟩)
      | .error error => (.error error, ⟨settings, (), .closed⟩) := by
  rcases hinspect : settings.inspect h with error | ⟨_ | _ | _, h'⟩ <;>
    simp [Collector.take, Collector.isClosed, Collector.takeHead, Collector.isIdle, selectAll,
      hinspect, Collector.enter, Collector.close]

theorem refused {h : Request} {reply : Reply} (hclose : reply.close = false)
    (hinspect : settings.inspect h = .ok (.refuse reply, h)) (pieces : List Bytes)
    (trailers : Fields) :
    Collects (selectAll .request) ⟨settings, (), .idle⟩
      (.header h :: Message.payloads pieces [] trailers) [.reply reply] ⟨settings, (), .idle⟩ := by
  have hhead := @take_head _ settings h
  rw [hinspect] at hhead
  simp only [hclose, Bool.false_eq_true, if_false] at hhead
  exact .handsOut hhead (dropping pieces [] trailers)

/-- A request that is let in has its body asked for, if it waits for that, and is collected. -/
theorem admitted (hclose : settings.closeOnRefusal = false) {h : Request}
    (hkeep : h.keepAlive = true) (hsupported : h.expectation ≠ .unsupported)
    (hfits : h.contentLength?.filter settings.exceeds = none) (pieces : List Bytes)
    (trailers : Fields) :
    ∃ chunks : List Bytes, chunks.flatten = pieces.flatten ∧
      Collects (selectAll .request) ⟨settings, (), .idle⟩
        (.header h :: Message.payloads pieces [] trailers)
        (settings.outcome h chunks pieces.flatten.length trailers) ⟨settings, (), .idle⟩ := by
  have hempty : settings.exceeds ({} : Content).length = false := by simp [CollectSettings.exceeds]
  have hhead := @take_head _ settings h
  by_cases hawaited : h.expectation = .awaitContinue
  · rw [CollectSettings.inspect_proceed hawaited hfits] at hhead
    obtain ⟨chunks, hchunks, hcollects⟩ := @body Unit settings () (selectAll .request) _ {}
      (h.expectation == .awaitContinue) hclose (h.keepAlive_remove_expect.trans hkeep) hempty pieces
      trailers
    refine ⟨chunks, by simpa using hchunks, ?_⟩
    rw [CollectSettings.outcome_of_admitted hsupported hfits, if_pos hawaited]
    simpa [CollectSettings.collectedHead, hawaited] using Collects.handsOut hhead hcollects
  · rw [CollectSettings.inspect_accept hsupported hawaited hfits] at hhead
    obtain ⟨chunks, hchunks, hcollects⟩ := @body Unit settings () (selectAll .request) h {}
      (h.expectation == .awaitContinue) hclose hkeep hempty pieces trailers
    refine ⟨chunks, by simpa using hchunks, ?_⟩
    rw [CollectSettings.outcome_of_admitted hsupported hfits, if_neg hawaited]
    simpa [CollectSettings.collectedHead, hawaited] using Collects.quiet hhead hcollects

/-- A request on a connection that is kept, with a consistent length if it announces one. -/
theorem request (hclose : settings.closeOnRefusal = false) {h : Request}
    (hkeep : h.keepAlive = true) {pieces : List Bytes}
    (hannounced : ∀ n, h.contentLength? = some n → n = pieces.flatten.length)
    (trailers : Fields) :
    ∃ chunks : List Bytes, chunks.flatten = pieces.flatten ∧
      Collects (selectAll .request) ⟨settings, (), .idle⟩
        (.header h :: Message.payloads pieces [] trailers)
        (settings.outcome h chunks pieces.flatten.length trailers) ⟨settings, (), .idle⟩ := by
  by_cases hunsupported : h.expectation = .unsupported
  · refine ⟨pieces, rfl, ?_⟩
    rw [CollectSettings.outcome_of_unsupported hunsupported]
    exact refused rfl (CollectSettings.inspect_unsupported hclose hunsupported) pieces trailers
  · cases hfilter : h.contentLength?.filter settings.exceeds with
    | some n =>
        obtain ⟨hlength, hlarge⟩ := Option.filter_eq_some_iff.mp hfilter
        rw [hannounced n hlength] at hlarge
        refine ⟨pieces, rfl, ?_⟩
        rw [CollectSettings.outcome_of_announced hunsupported hfilter hlarge]
        exact refused rfl (CollectSettings.inspect_tooLarge hclose hkeep hunsupported hfilter)
          pieces trailers
    | none => exact admitted hclose hkeep hunsupported hfilter pieces trailers

end Collects

end HttpFraming
