import HttpFraming.Proofs.Serving.Stops
import HttpFraming.Proofs.Serving.Writing

/-!
# The responses in the bytes

What a session writes are the heads of the responses that it has recorded, in order, each with
its body behind it, and nothing else: `Event.Speaks`. This is so for every run, on any outlet,
up to bytes that are not written out any more: `Session.Serves.speaks`.
-/

namespace HttpFraming

open Bytes

/-- The bytes are the heads of these responses in order. Each body is written as its head
announces it, unless there is none, and has ended where the next head begins. The writer is that
of a body under way. -/
inductive Event.Speaks : List Event → Bytes → Option BodyWriter → Prop
  | nil : Speaks [] [] none
  | head {events : List Event} {bytes written : Bytes} {response : Response} {framing : Framing}
      (h : Speaks events bytes none) (hwrite : response.write = .ok written)
      (hframing : framing = response.announcedFraming ∨ framing = .empty) :
      Speaks (events ++ [.answered response]) (bytes ++ written) (some (.ofFraming framing))
  | item {events : List Event} {bytes : Bytes} {writer : BodyWriter} {item : Item}
      (h : Speaks events bytes (some writer)) (hwrite : (writer.write item).error? = none) :
      Speaks events (bytes ++ (writer.write item).output) (writer.write item).state
  | wrote {events : List Event} {bytes : Bytes} {body? : Option BodyWriter}
      (h : Speaks events bytes body?) (data : Bytes) : Speaks (events ++ [.wrote data]) bytes body?
  | handled {events : List Event} {bytes : Bytes} {body? : Option BodyWriter}
      (h : Speaks events bytes body?) (request : Request) (body : Bytes) :
      Speaks (events ++ [.handled request body]) bytes body?

namespace Session

variable {η : Type}

/-- What has been written and what is about to be are the recorded responses. -/
def Spoken (session : Session η) : Prop :=
  Event.Speaks session.events session.written session.server.encoder.body?

/-- What has been written is the front of the recorded responses. -/
def BrokenOff (session : Session η) : Prop :=
  ∃ bytes body?, Event.Speaks session.events bytes body? ∧ Event.output session.events <+: bytes

theorem Spoken.brokenOff {session : Session η} (h : session.Spoken) : session.BrokenOff :=
  ⟨_, _, h, List.prefix_append _ _⟩

end Session

namespace Server

variable {server : Server} {events : List Event} {bytes : Bytes}

theorem noteMessage_encoder (server : Server) (message? : Option (Message .request)) :
    (server.noteMessage message?).encoder = server.encoder := by
  unfold noteMessage
  split <;> rfl

theorem speaks_item {item : Item} (h : Event.Speaks events bytes server.encoder.body?)
    (hencode : (server.encode (.payload item)).error? = none) :
    Event.Speaks events (bytes ++ (server.encode (.payload item)).output)
      (server.encode (.payload item)).state.encoder.body? := by
  rw [encode_payload, Encoder.encode] at hencode ⊢
  cases hbody : server.encoder.body? with
  | none => simp [hbody, Encoder.refuse, Written.map] at hencode
  | some writer =>
      rw [hbody] at h
      simp only [hbody] at hencode ⊢
      exact h.item hencode

/-- What `encode` writes without an error begins with the head that the server makes of the
response. -/
def WritesHead (encode : Server → Written Server) (response : Response) : Prop :=
  ∀ {server : Server} {events bytes}, Event.Speaks events bytes server.encoder.body? →
    (encode server).error? = none →
      Event.Speaks (events ++ [.answered (server.pairing.responseHead response).1.head])
        (bytes ++ (encode server).output) (encode server).state.encoder.body?

theorem writesHead_encode (response : Response) :
    WritesHead (·.encode (.header response)) response := by
  intro server events bytes h hencode
  dsimp only [encode] at hencode ⊢
  by_cases hupgraded : server.upgraded = true
  · simp [hupgraded] at hencode
  cases hbody : server.encoder.body? with
  | some writer =>
      simp [hupgraded, Encoder.encodeHead, Encoder.isIdle, hbody, Encoder.refuse, Written.map]
        at hencode
  | none =>
      rw [hbody] at h
      simp only [hupgraded, Bool.false_eq_true, if_false, Encoder.encodeHead, Encoder.isIdle,
        hbody, Option.isNone_none, if_true, Written.map] at hencode ⊢
      split at hencode
      · rename_i written hwrite
        dsimp only
        refine h.head hwrite ?_
        by_cases hbodiless :
            response.status.isBodilessFor (server.pairing.pending.answer response.status).1 = true
        · exact .inr (by simp [ServerPairing.responseHead, hbodiless])
        · exact .inl (by simp [ServerPairing.responseHead, hbodiless])
      · cases hencode

theorem writesHead_encodeWhole (response : Response) :
    WritesHead (·.encodeWhole response) response := by
  intro server events bytes h hencode
  dsimp only [encodeWhole] at hencode ⊢
  cases hhead : (server.encode (.header response)).error? with
  | some error => simp [hhead] at hencode
  | none =>
      simp only [hhead, Option.isSome_none, Bool.false_eq_true, if_false] at hencode ⊢
      rw [← List.append_assoc]
      exact speaks_item (writesHead_encode response h hhead) hencode

end Server

namespace Act

variable {η α β : Type}

/-- The act writes heads that it records and parts of bodies. What it had not written out when
it failed is lost. -/
structure Speaks (act : Act η α) : Prop where
  spoken : ∀ {session after value}, session.Spoken → act session = .ok value after → after.Spoken
  broken : ∀ {session after error}, session.Spoken → act session = .error error after →
    after.BrokenOff

namespace Speaks

theorem after {act : Act η α} (h : act.Speaks) {session : Session η} (hspoken : session.Spoken) :
    (act.after session).BrokenOff := by
  cases hact : act session with
  | ok value after =>
      rw [after_of_ok hact]
      exact (h.spoken hspoken hact).brokenOff
  | error error after =>
      rw [after_of_error hact]
      exact h.broken hspoken hact

theorem pure (value : α) : Speaks (Pure.pure value : Act η α) where
  spoken hspoken hok := by
    cases hok
    exact hspoken
  broken _ herror := nomatch herror

theorem throw (error : HttpError) : Speaks (MonadExcept.throw error : Act η α) where
  spoken _ hok := nomatch hok
  broken hspoken herror := by
    cases herror
    exact hspoken.brokenOff

theorem bind {act : Act η α} {next : α → Act η β} (h : act.Speaks)
    (hnext : ∀ value, (next value).Speaks) : Speaks (act >>= next) where
  spoken hspoken hok := by
    obtain ⟨value, middle, hact, hthen⟩ := bind_ok.mp hok
    exact (hnext value).spoken (h.spoken hspoken hact) hthen
  broken hspoken herror := by
    obtain hact | ⟨value, middle, hact, hthen⟩ := bind_error.mp herror
    · exact h.broken hspoken hact
    · exact (hnext value).broken (h.spoken hspoken hact) hthen

theorem flush : Speaks (Session.flush : Act η Unit) := by
  have hflushed : ∀ session : Session η, session.Spoken →
      let accepted := session.outlet.accept session.outbox
      Session.Spoken { session with
        outbox := accepted.2.1
        outlet := accepted.2.2
        events := if accepted.1.isEmpty then session.events
          else session.events ++ [.wrote accepted.1] } := by
    intro session hspoken accepted
    have hsplit : accepted.1 ++ accepted.2.1 = session.outbox :=
      session.outlet.accept_append session.outbox
    rw [Session.Spoken, Session.written, ← hsplit] at hspoken
    by_cases htaken : accepted.1 = []
    · simpa [Session.Spoken, Session.written, htaken] using hspoken
    · simpa [Session.Spoken, Session.written, htaken, Event.output] using
        hspoken.wrote accepted.1
  refine ⟨fun {session after value} hspoken hok => ?_,
    fun {session after error} hspoken herror => ?_⟩
  · unfold Session.flush at hok
    dsimp only at hok
    split at hok
    · cases hok
      exact hspoken
    · split at hok
      · cases hok
        exact hflushed session hspoken
      · cases hok
  · unfold Session.flush at herror
    dsimp only at herror
    split at herror
    · cases herror
    · split at herror
      · cases herror
      · cases herror
        exact (hflushed session hspoken).brokenOff

/-- What is encoded before an error does not get out any more. -/
theorem broken_of_write {encode : Server → Written Server} {session after : Session η}
    {error : HttpError} (hspoken : session.Spoken)
    (h : Session.write encode session = .error error after) : after.BrokenOff := by
  unfold Session.write at h
  dsimp only at h
  split at h
  · cases h
  · cases h
    exact hspoken.brokenOff

theorem written_of_write {encode : Server → Written Server} {session after : Session η}
    {value : Unit} (h : Session.write encode session = .ok value after) :
    (encode session.server).error? = none ∧ after.events = session.events ∧
      after.server = (encode session.server).state ∧
      after.written = session.written ++ (encode session.server).output := by
  unfold Session.write at h
  dsimp only at h
  split at h
  · rename_i hnone
    cases h
    exact ⟨hnone, rfl, rfl, (List.append_assoc ..).symm⟩
  · cases h

theorem writeItem (item : Item) :
    Speaks (Session.write (·.encode (.payload item)) : Act η Unit) where
  spoken {session after _} hspoken hok := by
    obtain ⟨hnone, hevents, hserver, hwritten⟩ := written_of_write hok
    rw [Session.Spoken, hevents, hserver, hwritten]
    exact Server.speaks_item hspoken hnone
  broken hspoken herror := broken_of_write hspoken herror

theorem coversBodies : CoversBodies (η := η) Speaks where
  pure := pure
  bind := bind
  backlog := ⟨fun hspoken hok => by cases hok; exact hspoken, fun _ herror => nomatch herror⟩
  flush := flush
  item := writeItem
  refuse _ := throw _

theorem feedHead {encode : Server → Written Server} {response : Response}
    (hencode : Server.WritesHead encode response) :
    Speaks (Session.feedHead encode response : Act η Unit) := by
  -- Between writing a head and recording it the events lag behind, so that the parts of the act
  -- do not have the property one by one.
  refine coversBodies.relieve.bind fun _ => ⟨fun {session after _} hspoken hok => ?_,
    fun {session after _} hspoken herror => ?_⟩
  · obtain ⟨planned, same, hplan, hok⟩ := bind_ok.mp hok
    obtain ⟨_, fed, hwrite, hrecord⟩ := bind_ok.mp hok
    cases hplan
    cases hrecord
    obtain ⟨hnone, hevents, hserver, hwritten⟩ := written_of_write hwrite
    have hspeaks := hencode hspoken hnone
    rw [← hwritten, ← hevents, ← hserver] at hspeaks
    simpa [Session.Spoken, Session.written, Event.output] using hspeaks
  · obtain hplan | ⟨planned, same, hplan, herror⟩ := bind_error.mp herror
    · cases hplan
    cases hplan
    obtain hwrite | ⟨_, fed, _, hrecord⟩ := bind_error.mp herror
    · exact broken_of_write hspoken hwrite
    · cases hrecord

theorem ask (handle : Handler η) (request : Request) (body : Bytes) :
    Speaks (Session.ask handle request body) where
  spoken {session after value} hspoken hok := by
    cases hok
    simpa [Session.Spoken, Session.written, Event.output] using hspoken.handled request body
  broken _ herror := nomatch herror

theorem coversResponses : CoversResponses (η := η) Speaks :=
  { coversBodies with
    header := fun response => feedHead (Server.writesHead_encode response)
    whole := fun response => feedHead (Server.writesHead_encodeWhole response)
    ask := ask }

theorem respond (handle : Handler η) (collected : Collected .request) :
    Speaks (Session.respond handle collected) :=
  coversResponses.respond handle fun _ _ _ => throw _

end Speaks

end Act

namespace Session

variable {η : Type}

theorem settle_speaks (handle : Handler η)
    (result : Except CollectError (Option (Collected .request))) :
    (settle handle result).Speaks := by
  rcases result with error | _ | collected
  · exact .throw _
  · exact .pure true
  · exact .respond handle collected

namespace Spoken

variable {handle : Handler η} {session after : Session η}

theorem noted (h : session.Spoken) (message : Message .request)
    (collector : Collector .request Unit) : Spoken { session with
      server := session.server.noteMessage (some message)
      collector } := by
  rw [Spoken, Server.noteMessage_encoder]
  exact h

theorem deal {message : Message .request} (h : session.Spoken)
    (hdeal : Session.deal handle message session = .ok true after) : after.Spoken := by
  rcases htake : session.collector.take (selectAll .request) message with ⟨result, collector⟩
  rw [deal_eq htake] at hdeal
  exact (settle_speaks handle result).spoken (h.noted message collector) hdeal

theorem deals {messages : List (Message .request)} (h : session.Spoken)
    (hdeals : Deals handle session messages after) : after.Spoken :=
  hdeals.preserves deal h

theorem stopAt (h : session.Spoken) (handle : Handler η) (message : Message .request) :
    (stopAt handle message session).BrokenOff := by
  rcases htake : session.collector.take (selectAll .request) message with ⟨result, collector⟩
  have hnoted := h.noted message collector
  unfold Session.stopAt
  rcases result with error | collected?
  · simp only [htake]
    exact (Act.Speaks.coversResponses.sendHead _).after hnoted
  · simp only [htake]
    rw [Act.after, deal_eq htake]
    exact (settle_speaks handle _).after hnoted

end Spoken

/-- Whatever a session deals with, what it has written by then is the front of the responses that
it has recorded. -/
theorem DealsUpTo.speaks {handle : Handler η} {session : Session η} (h : session.Spoken)
    {messages dealt : List (Message .request)} {events : List Event}
    (hdeals : DealsUpTo handle session messages dealt events) :
    ∃ bytes body?, Event.Speaks events bytes body? ∧ Event.output events <+: bytes := by
  cases hdeals with
  | all hall hevents =>
      subst hevents
      exact (h.deals hall).brokenOff
  | halts hhalts =>
      cases hhalts with
      | @here before _ last middle hbefore hstop decoder inbox block =>
          have hbehind : middle.Spoken := h.deals hbefore
          have hmiddle : (middle.withStream decoder inbox block).Spoken := hbehind
          exact hmiddle.stopAt handle last

/-- The same where a read fails, and with the answer to that. -/
theorem Serves.speaks {handle : Handler η} {session : Session η} (h : session.Spoken)
    {messages dealt : List (Message .request)} {events : List Event}
    (hserves : Serves handle session messages dealt events) :
    ∃ bytes body?, Event.Speaks events bytes body? ∧ Event.output events <+: bytes := by
  cases hserves with
  | upTo hdeals => exact hdeals.speaks h
  | @broken after hdeals decoder inbox block =>
      have hbehind : after.Spoken := h.deals hdeals
      have hafter : (after.withStream decoder inbox block).Spoken := hbehind
      exact (Act.Speaks.coversResponses.sendHead _).after hafter

end Session

end HttpFraming
