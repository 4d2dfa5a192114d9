import HttpFraming.Endpoint.Client
import HttpFraming.Proofs.Serving.Answers

/-!
# A client reads the turns of a server

A client that has written some requests reads in each turn the response as it was written, and
pairs it with the request that the turn is about: `Turn.takes`. Reading all turns leaves it with
no request unanswered: `takes_turns`.
-/

namespace HttpFraming

open Bytes

/-- The pairing of a client that has written requests of these methods to their ends, none of
which is answered. -/
def ClientPairing.awaiting (settings : ClientSettings) (methods : List Method) : ClientPairing where
  settings
  pending := ⟨methods⟩
  outstanding := if settings.reportMissing then methods.length else 0

namespace ClientPairing

variable {settings : ClientSettings}

/-- A response is paired with the oldest request, and a final one takes it. -/
theorem responseHead_awaiting {status : Status} {method : Method} (methods : List Method)
    (htunnel : status.opensTunnel (some method) = false) :
    (awaiting settings (method :: methods)).responseHead status =
      (status.isBodilessFor (some method),
        awaiting settings (if status.isInterim then method :: methods else methods)) := by
  by_cases hinterim : status.isInterim = true
  · simp [responseHead, awaiting, Pending.answer, hinterim, htunnel]
  · by_cases hreports : settings.reportMissing = true
    · simp [responseHead, awaiting, Pending.answer, hinterim, htunnel, hreports]
    · simp [responseHead, awaiting, Pending.answer, hinterim, htunnel, hreports]

end ClientPairing

namespace Turn

variable {limits : Limits} {turn : Turn}

/-- What is written in a turn is what a client reads of it. -/
theorem takes (settings : ClientSettings) (methods : List Method) (h : turn.IsSound limits) :
    Decoder.Takes Client.bodilessRule (⟨limits, .head⟩, .awaiting settings (turn.method :: methods))
      turn.encoded.output turn.received
      (⟨limits, .head⟩, .awaiting settings
        (if turn.status.isInterim then turn.method :: methods else methods)) := by
  obtain ⟨written, hreadable⟩ := h.head
  have hask : Client.bodilessRule turn.parts.head (.awaiting settings (turn.method :: methods)) =
      (turn.isBodiless, .awaiting settings
        (if turn.status.isInterim then turn.method :: methods else methods)) :=
    ClientPairing.responseHead_awaiting methods h.tunnel
  cases hbodiless : turn.isBodiless with
  | true =>
      rw [hbodiless] at hask
      have hframe : turn.parts.head.frame limits true = (turn.parts.head, .ok .empty) := rfl
      have htaken := (Decoder.Takes.ofHead hreadable hask hframe).trans .ofNothing
      rw [List.append_nil] at htaken
      rw [encoded, received, hbodiless, Parts.encodeFor_bodiless hreadable.write_eq]
      exact htaken
  | false =>
      rw [hbodiless] at hask
      have hsame : turn.encoded = ({} : Encoder).encodeAll turn.parts.messages := by
        rw [encoded, hbodiless, Parts.encodeFor_eq hreadable.write_eq,
          Parts.encodeAll_messages hreadable.write_eq]
        rfl
      have herror : turn.encoded.error? = none := by rw [h.encoded]
      rw [hsame] at herror ⊢
      rw [received, hbodiless]
      exact (Parts.takes (h.readable hbodiless) herror hask).1

theorem join_received_append (turn : Turn) (more : List (Message .response)) :
    Message.join (turn.received ++ more) = turn.received ++ Message.join more := by
  unfold received
  split
  · simp [Message.join_cons, Message.joinOne, Item.done]
  · exact turn.parts.join_received_append more

theorem join_received (all : List Turn) :
    Message.join (all.flatMap received) = all.flatMap received := by
  induction all with
  | nil => exact Message.join_nil
  | cons turn all ih => rw [List.flatMap_cons, join_received_append, ih]

end Turn

variable {η : Type} {settings : CollectSettings} {handle : Handler η} {limits : Limits}

theorem takes_interim (csettings : ClientSettings) {method : Method} (methods : List Method)
    {all : List Turn} (hall : ∀ turn ∈ all,
      turn.IsSound limits ∧ turn.method = method ∧ turn.status.isInterim = true) :
    Decoder.Takes Client.bodilessRule (⟨limits, .head⟩, .awaiting csettings (method :: methods))
      (all.flatMap (·.encoded.output)) (all.flatMap Turn.received)
      (⟨limits, .head⟩, .awaiting csettings (method :: methods)) := by
  induction all with
  | nil => exact .refl _
  | cons turn all ih =>
      rw [List.forall_mem_cons] at hall
      obtain ⟨⟨hsound, rfl, hinterim⟩, hmore⟩ := hall
      have htaken := Turn.takes csettings methods hsound
      rw [if_pos hinterim] at htaken
      exact htaken.trans (ih hmore)

theorem takes_turnsFor (csettings : ClientSettings) (methods : List Method)
    {parts : Parts .request} {handler : η}
    (hproper : ∀ turn ∈ (turnsFor settings handle parts handler).1, turn.IsProper limits) :
    Decoder.Takes Client.bodilessRule
      (⟨limits, .head⟩, .awaiting csettings (parts.head.method :: methods))
      ((turnsFor settings handle parts handler).1.flatMap (·.encoded.output))
      ((turnsFor settings handle parts handler).1.flatMap Turn.received)
      (⟨limits, .head⟩, .awaiting csettings methods) := by
  obtain ⟨final, hturns, hsound, hmethod, hfinal⟩ := turnsFor_isSound hproper
  rw [hturns, List.forall_mem_append] at hproper
  have hasked := takes_interim csettings methods (asking_isSound hproper.1)
  have hlast := Turn.takes csettings methods hsound
  rw [hmethod, if_neg (by simp [hfinal])] at hlast
  rw [hturns]
  simpa using hasked.trans hlast

theorem takes_turns (csettings : ClientSettings) {all : List (Parts .request)} {handler : η}
    (hproper : ∀ turn ∈ turns settings handle all handler, turn.IsProper limits) :
    Decoder.Takes Client.bodilessRule
      (⟨limits, .head⟩, .awaiting csettings (all.map (·.head.method)))
      ((turns settings handle all handler).flatMap (·.encoded.output))
      ((turns settings handle all handler).flatMap Turn.received)
      (⟨limits, .head⟩, .awaiting csettings []) := by
  induction all generalizing handler with
  | nil => exact .refl _
  | cons parts all ih =>
      rw [turns_cons, List.forall_mem_append] at hproper
      rw [turns_cons, List.flatMap_append, List.flatMap_append]
      exact (takes_turnsFor csettings _ hproper.1).trans (ih hproper.2)

end HttpFraming
