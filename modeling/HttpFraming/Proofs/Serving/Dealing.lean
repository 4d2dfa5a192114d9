import HttpFraming.Proofs.Arrival.Cuts
import HttpFraming.Serving.Run

/-!
# A session deals with decoded parts one by one

Serving interleaves decoding, collecting and writing, and the block of a session cuts the
bytes it receives anew. What is done with the decoded parts does not depend on any of that:
`Session.Deals` follows the parts alone, and `Session.run_deals` says that a session that is
run does what it says for the parts of some way of cutting the bytes.
-/

namespace HttpFraming

open Bytes

/-! ## Dealing with parts -/

namespace Session

variable {η : Type} {handle : Handler η}

def settle (handle : Handler η) :
    Except CollectError (Option (Collected .request)) → Act η Bool
  | .error error => throw (.collect error)
  | .ok none => pure true
  | .ok (some collected) => respond handle collected

/-- Deals with one decoded part: the server notes it and the collector takes it. -/
def deal (handle : Handler η) (message : Message .request) : Act η Bool := fun session =>
  let server := session.server.noteMessage (some message)
  let (result, collector) := session.collector.take (selectAll .request) message
  settle handle result { session with server, collector }

theorem ignoresInput_settle (handle : Handler η)
    (result : Except CollectError (Option (Collected .request))) :
    (settle handle result).IgnoresInput := by
  rcases result with error | _ | collected
  · exact .throw _
  · exact .pure _
  · exact .respond handle collected

/-- All of the parts are dealt with, and the session goes on behind each of them. -/
inductive Deals (handle : Handler η) : Session η → List (Message .request) → Session η → Prop
  | nil (session : Session η) : Deals handle session [] session
  | cons {message : Message .request} {more : List (Message .request)}
      {session middle after : Session η} (hdeal : deal handle message session = .ok true middle)
      (hmore : Deals handle middle more after) : Deals handle session (message :: more) after

def withStream (session : Session η) (decoder : Decoder .request) (inbox : Bytes)
    (block : Block) : Session η :=
  session.withInput ⟨decoder, session.collector, inbox, block⟩

theorem noteMessage_withDecoder (server : Server) (decoder : Decoder .request)
    (message? : Option (Message .request)) :
    ({ server with decoder } : Server).noteMessage message? =
      { server.noteMessage message? with decoder } := by
  unfold Server.noteMessage
  split <;> rfl

theorem deal_eq {session : Session η} {message : Message .request}
    {result : Except CollectError (Option (Collected .request))}
    {collector : Collector .request Unit}
    (h : session.collector.take (selectAll .request) message = (result, collector)) :
    deal handle message session = settle handle result { session with
      server := session.server.noteMessage (some message)
      collector } := by
  simp only [deal, h]

theorem deal_collector {message : Message .request} {session after : Session η} {goes : Bool}
    (h : deal handle message session = .ok goes after) :
    after.collector = (session.collector.take (selectAll .request) message).2 :=
  congrArg Input.collector ((ignoresInput_settle handle _).input_eq h)

/-- What is done about a part depends neither on the decoder nor on the bytes behind it. -/
theorem deal_withStream {message : Message .request} {session after : Session η} {goes : Bool}
    (h : deal handle message session = .ok goes after) :
    after.server.upgraded = session.server.upgraded ∧
      ∀ decoder inbox block, deal handle message (session.withStream decoder inbox block) =
        .ok goes (after.withStream decoder inbox block) := by
  rcases htake : session.collector.take (selectAll .request) message with ⟨result, collector⟩
  have hcollector : after.collector = collector := by rw [deal_collector h, htake]
  rw [deal_eq htake] at h
  obtain ⟨hupgraded, hinput⟩ := ignoresInput_settle handle result _ goes after h
  refine ⟨hupgraded.trans (Server.noteMessage_upgraded _ _), fun decoder inbox block => ?_⟩
  have hstream : (session.withStream decoder inbox block).collector.take (selectAll .request)
      message = (result, collector) := htake
  have hafter : after.withStream decoder inbox block =
      after.withInput ⟨decoder, collector, inbox, block⟩ := by
    rw [withStream, hcollector]
  rw [deal_eq hstream, hafter, ← hinput]
  simp only [withStream, withInput, noteMessage_withDecoder]

namespace Deals

variable {session after : Session η} {messages : List (Message .request)}

theorem upgraded (h : Deals handle session messages after) :
    after.server.upgraded = session.server.upgraded := by
  induction h with
  | nil session => rfl
  | cons hdeal _ ih => exact ih.trans (deal_withStream hdeal).1

theorem preserves {P : Session η → Prop} (h : Deals handle session messages after)
    (hstep : ∀ {message session middle}, P session → deal handle message session = .ok true middle →
      P middle) (hfirst : P session) : P after := by
  induction h with
  | nil session => exact hfirst
  | cons hdeal _ ih => exact ih (hstep hfirst hdeal)

theorem withStream (h : Deals handle session messages after) (decoder : Decoder .request)
    (inbox : Bytes) (block : Block) :
    Deals handle (session.withStream decoder inbox block) messages
      (after.withStream decoder inbox block) := by
  induction h with
  | nil session => exact .nil _
  | cons hdeal _ ih => exact .cons ((deal_withStream hdeal).2 decoder inbox block) ih

theorem append {middle : Session η} {more : List (Message .request)}
    (h : Deals handle session messages middle) (hmore : Deals handle middle more after) :
    Deals handle session (messages ++ more) after := by
  induction h with
  | nil session => exact hmore
  | cons hdeal _ ih => exact .cons hdeal (ih hmore)

theorem of_append {first second : List (Message .request)}
    (h : Deals handle session (first ++ second) after) :
    ∃ middle, Deals handle session first middle ∧ Deals handle middle second after := by
  induction first generalizing session with
  | nil => exact ⟨session, .nil _, h⟩
  | cons message first ih =>
      cases h with
      | cons hdeal hmore =>
          obtain ⟨middle, hfirst, hsecond⟩ := ih hmore
          exact ⟨middle, .cons hdeal hfirst, hsecond⟩

theorem unique {other : Session η} (h : Deals handle session messages after)
    (hother : Deals handle session messages other) : after = other := by
  induction h with
  | nil session =>
      cases hother
      rfl
  | cons hdeal _ ih =>
      cases hother with
      | cons hdeal' hmore' =>
          rw [hdeal] at hdeal'
          cases hdeal'
          exact ih hmore'

end Deals

/-! ## Serving what was received -/

theorem serveInbox_eq (handle : Handler η) (ended : Bool) (session : Session η) :
    serveInbox handle ended session =
      match session.pull ended with
      | (.error error, session) => (.failed error, Act.after sendBadRequest session)
      | (.ok none, session) => (.waiting, session)
      | (.ok (some collected), pulled) =>
          match respond handle collected pulled with
          | .error error session => (.failed error, session)
          | .ok false session => (.finished, session)
          | .ok true session => serveInbox handle ended session := by
  rw [serveInbox]
  split
  · rename_i error next h
    rw [h]
  · rename_i next h
    rw [h]
  · rename_i collected pulled h
    rw [h]
    dsimp only
    split <;> rename_i hrespond <;> rw [hrespond]

theorem serveInbox_congr {ended : Bool} {session other : Session η}
    (h : session.pull ended = other.pull ended) :
    serveInbox handle ended session = serveInbox handle ended other := by
  rw [serveInbox_eq, serveInbox_eq, h]

def blockAfter (session : Session η) (ended : Bool) : Block :=
  Block.note session.server session.inbox (Server.pull ended session.server session.inbox)
    session.block

section Step

variable {ended : Bool} {session : Session η} (hupgraded : session.server.upgraded = false)

include hupgraded

theorem observed_pull {message? : Option (Message .request)} {decoder : Decoder .request}
    {rest : Bytes} (hdecode : session.server.decoder.decode (statusRule .request) ended ()
      session.inbox = ⟨message?, decoder, (), rest⟩) :
    (Server.source.observed Block.note).pull ended (session.server, session.block) session.inbox =
      ⟨.ok message?, ({ session.server with decoder }.noteMessage message?,
        session.blockAfter ended), rest⟩ := by
  simp [Source.observed, blockAfter, Server.source, Server.pull, hupgraded, hdecode]

theorem serveInbox_of_deal {message : Message .request} {decoder : Decoder .request} {rest : Bytes}
    (hdecode : session.server.decoder.decode (statusRule .request) ended () session.inbox =
      ⟨some message, decoder, (), rest⟩)
    {middle : Session η} (hdeal : deal handle message session = .ok true middle) :
    serveInbox handle ended session =
      serveInbox handle ended (middle.withStream decoder rest (session.blockAfter ended)) := by
  have hpull := observed_pull hupgraded hdecode
  have hstream := (deal_withStream hdeal).2 decoder rest (session.blockAfter ended)
  rcases htake : session.collector.take (selectAll .request) message with ⟨result, collector⟩
  rw [deal_eq (show (session.withStream decoder rest (session.blockAfter ended)).collector.take
    (selectAll .request) message = (result, collector) from htake)] at hstream
  simp only [withStream, withInput, noteMessage_withDecoder] at hpull hstream ⊢
  rcases result with error | _ | collected
  · cases hstream
  · rw [← (EStateM.Result.ok.inj hstream).2]
    apply serveInbox_congr
    simp only [pull, source, Source.collected, Source.collect_of_value hpull, htake]
  · rw [serveInbox_eq]
    simp only [pull, source, Source.collected, Source.collect_of_value hpull, htake]
    rw [show respond handle collected _ = _ from hstream]

/-- Where the decoder has nothing to hand out, serving waits. -/
theorem serveInbox_of_wait {decoder : Decoder .request} {rest : Bytes}
    (hdecode : session.server.decoder.decode (statusRule .request) ended () session.inbox =
      ⟨none, decoder, (), rest⟩) :
    serveInbox handle ended session =
      (.waiting, session.withInput ⟨decoder,
        if ended then session.collector.close else session.collector, rest,
        session.blockAfter ended⟩) := by
  have hpull := observed_pull hupgraded hdecode
  rw [serveInbox_eq]
  simp only [pull, source, Source.collected, Source.collect_of_none hpull]
  rfl

end Step

/-- Serving the inbox deals with the parts that the decoder makes of it. -/
theorem serveInbox_deals {session after : Session η} (hupgraded : session.server.upgraded = false)
    (hdeals : Deals handle session ((Decoder.source (statusRule .request)).drain false
      (session.server.decoder, ()) session.inbox).values after) :
    ∃ block, serveInbox handle false session =
      (.waiting, after.withStream
        ((Decoder.source (statusRule .request)).drain false (session.server.decoder, ())
          session.inbox).state.1
        ((Decoder.source (statusRule .request)).drain false (session.server.decoder, ())
          session.inbox).rest block) := by
  have hall := Decoder.drain_induction (statusRule .request) false
    (motive := fun state bytes drained => ∀ session after : Session η,
      session.server.decoder = state.1 → session.inbox = bytes →
        session.server.upgraded = false → Deals handle session drained.values after →
          ∃ block, serveInbox handle false session =
            (.waiting, after.withStream drained.state.1 drained.rest block))
    ?_ ?_ (session.server.decoder, ()) session.inbox
  · exact hall session after rfl rfl hupgraded hdeals
  · intro state bytes next rule rest hdecode session after hdecoder hinbox hupgraded hdeals
    cases hdeals
    rw [← hdecoder, ← hinbox] at hdecode
    exact ⟨_, serveInbox_of_wait hupgraded hdecode⟩
  · intro state bytes message next rule rest hdecode ih session after hdecoder hinbox hupgraded
      hdeals
    rw [← hdecoder, ← hinbox] at hdecode
    cases hdeals with
    | @cons _ _ _ middle _ hdeal hmore =>
        have hkeeps := (deal_withStream hdeal).1.trans hupgraded
        have hthere := hmore.withStream next rest (session.blockAfter false)
        obtain ⟨block, hserved⟩ := ih (middle.withStream next rest (session.blockAfter false)) _ rfl
          rfl hkeeps hthere
        exact ⟨block, (serveInbox_of_deal hupgraded hdecode hdeal).trans hserved⟩

/-! ## Serving whatever is received -/

/-- What the decoder hands out for bytes that arrive in these pieces behind the waiting ones. -/
def delivered (session : Session η) (pieces : List Bytes) :
    Drained (Decoder .request × Unit) (Message .request) :=
  (Decoder.source (statusRule .request)).deliver (session.server.decoder, ()) session.inbox pieces

/-- However these bytes are cut, the session deals with what the decoder hands out for them. -/
def DealsWith (handle : Handler η) (session : Session η) (data : Bytes) : Prop :=
  ∀ cuts : List Bytes, cuts.flatten = data →
    ∃ after, Deals handle session (session.delivered cuts).values after

/-- For some way of cutting these bytes, the session has dealt with what the decoder hands
out for them. -/
def Dealt (handle : Handler η) (session : Session η) (data : Bytes) (stop : Session η) : Prop :=
  ∃ (cuts : List Bytes) (after : Session η) (block : Block), cuts.flatten = data ∧
    Deals handle session (session.delivered cuts).values after ∧
      stop = after.withStream (session.delivered cuts).state.1 (session.delivered cuts).rest block

theorem delivered_one (session : Session η) (piece : Bytes) :
    session.delivered [piece] = (Decoder.source (statusRule .request)).drain false
      (session.server.decoder, ()) (session.inbox ++ piece) := by
  have herror := Decoder.drain_error? (statusRule .request) false (session.server.decoder, ())
    (session.inbox ++ piece)
  rw [delivered, Decoder.deliver_cons, Source.deliver, Drained.after, List.append_nil, ← herror]

theorem delivered_append (session : Session η) (first second : List Bytes) (after : Session η)
    (block : Block) :
    session.delivered (first ++ second) =
      ((after.withStream (session.delivered first).state.1 (session.delivered first).rest
        block).delivered second).after (session.delivered first).values :=
  Decoder.deliver_append _ _ _ first second

namespace Dealt

variable {session middle stop : Session η} {first second : Bytes}

theorem refl (session : Session η) : Dealt handle session [] session :=
  ⟨[], session, session.block, rfl, .nil session, rfl⟩

theorem trans (h : Dealt handle session first middle) (h' : Dealt handle middle second stop) :
    Dealt handle session (first ++ second) stop := by
  obtain ⟨cuts, after, block, hcuts, hdeals, rfl⟩ := h
  obtain ⟨cuts', after', block', hcuts', hdeals', rfl⟩ := h'
  have hback := hdeals'.withStream after.server.decoder after.inbox after.block
  refine ⟨cuts ++ cuts', after'.withStream after.server.decoder after.inbox after.block, block',
    by rw [List.flatten_append, hcuts, hcuts'], ?_, ?_⟩
  · rw [delivered_append session cuts cuts' after block]
    exact hdeals.append hback
  · rw [delivered_append session cuts cuts' after block]
    rfl

theorem upgraded (h : Dealt handle session first stop) :
    stop.server.upgraded = session.server.upgraded := by
  obtain ⟨cuts, after, block, _, hdeals, rfl⟩ := h
  exact hdeals.upgraded

theorem dealsWith (h : Dealt handle session first middle)
    (hwith : DealsWith handle session (first ++ second)) : DealsWith handle middle second := by
  obtain ⟨cuts, after, block, hcuts, hdeals, rfl⟩ := h
  intro cuts' hcuts'
  obtain ⟨last, hall⟩ := hwith (cuts ++ cuts') (by rw [List.flatten_append, hcuts, hcuts'])
  rw [delivered_append session cuts cuts' after block] at hall
  obtain ⟨other, hfirst, hsecond⟩ := hall.of_append
  rw [hdeals.unique hfirst]
  exact ⟨_, hsecond.withStream _ _ _⟩

end Dealt

theorem DealsWith.front {session : Session η} {first second : Bytes}
    (hwith : DealsWith handle session (first ++ second)) : DealsWith handle session first := by
  intro cuts hcuts
  obtain ⟨last, hall⟩ := hwith (cuts ++ [second]) (by simp [hcuts])
  rw [delivered_append session cuts [second] session session.block] at hall
  obtain ⟨middle, hfirst, _⟩ := hall.of_append
  exact ⟨middle, hfirst⟩

/-- A piece that is received is dealt with. -/
theorem serveInbox_dealt {session : Session η} (hupgraded : session.server.upgraded = false)
    {piece : Bytes} (hwith : DealsWith handle session piece) (block : Block) :
    ∃ stop, Dealt handle session piece stop ∧
      serveInbox handle false { session with inbox := session.inbox ++ piece, block } =
        (.waiting, stop) := by
  obtain ⟨after, hdeals⟩ := hwith [piece] (by simp)
  have hone := session.delivered_one piece
  rw [hone] at hdeals
  obtain ⟨block', hserved⟩ := @serveInbox_deals η handle (session.withStream
    session.server.decoder (session.inbox ++ piece) block) _ hupgraded (hdeals.withStream _ _ _)
  refine ⟨_, ⟨[piece], after, block', by simp, hone ▸ hdeals, rfl⟩, ?_⟩
  rw [hone]
  exact hserved

theorem receive_of_waiting {data : Bytes} (hne : data ≠ []) {session stop : Session η}
    (h : serveInbox handle false { session with
      inbox := session.inbox ++ data.take session.makeRoom.free
      block := session.makeRoom.fill (data.take session.makeRoom.free).length } =
        (.waiting, stop)) :
    receive handle data session = receive handle (data.drop session.makeRoom.free) stop := by
  have hempty : data.isEmpty = false := by simpa using hne
  rw [receive]
  simp only [hempty, h]
  rfl

theorem drop_makeRoom_lt (session : Session η) {data : Bytes} (hne : data ≠ []) :
    (data.drop session.makeRoom.free).length < data.length := by
  have hroom : 0 < session.makeRoom.free := Block.makeRoom_free_pos ..
  have hdata : 0 < data.length := List.length_pos_iff.mpr hne
  rw [List.length_drop]
  omega

/-- One read is dealt with, in as many pieces as the block makes of it. -/
theorem receive_dealt {session : Session η} (hupgraded : session.server.upgraded = false)
    {data : Bytes} (hwith : DealsWith handle session data) :
    ∃ stop, Dealt handle session data stop ∧ receive handle data session = (.waiting, stop) := by
  induction hlength : data.length using Nat.strongRecOn generalizing data session with
  | ind n ih =>
      by_cases hne : data = []
      · subst hne
        refine ⟨session, .refl session, ?_⟩
        rw [receive]
        rfl
      · have hsplit : data = data.take session.makeRoom.free ++ data.drop session.makeRoom.free :=
          (List.take_append_drop ..).symm
        have hshorter : (data.drop session.makeRoom.free).length < n :=
          hlength ▸ session.drop_makeRoom_lt hne
        rw [hsplit] at hwith
        obtain ⟨middle, hfirst, hserved⟩ := serveInbox_dealt hupgraded hwith.front
          (session.makeRoom.fill (data.take session.makeRoom.free).length)
        obtain ⟨stop, hsecond, hreceived⟩ := ih _ hshorter (hfirst.upgraded.trans hupgraded)
          (hfirst.dealsWith hwith) rfl
        refine ⟨stop, ?_, (receive_of_waiting hne hserved).trans hreceived⟩
        rw [hsplit]
        exact hfirst.trans hsecond

/-- Reads are dealt with one after the other, up to the end of the input. -/
theorem run_deals {reads : List Bytes} {session : Session η}
    (hupgraded : session.server.upgraded = false)
    (hwith : DealsWith handle session reads.flatten) :
    ∃ stop, Dealt handle session reads.flatten stop ∧
      run handle (reads.map .bytes) session = run handle [] stop := by
  induction reads generalizing session with
  | nil => exact ⟨session, .refl session, rfl⟩
  | cons data reads ih =>
      rw [List.flatten_cons] at hwith
      obtain ⟨middle, hfirst, hreceived⟩ := receive_dealt hupgraded hwith.front
      obtain ⟨stop, hmore, hrun⟩ := ih (hfirst.upgraded.trans hupgraded) (hfirst.dealsWith hwith)
      have hread : run handle (.bytes data :: reads.map .bytes) session =
          run handle (reads.map .bytes) middle := by
        rw [run, hreceived]
      exact ⟨stop, hfirst.trans hmore, hread.trans hrun⟩

theorem run_nil {session : Session η} (hupgraded : session.server.upgraded = false)
    (hidle : session.server.decoder.phase = .head) (hinbox : session.inbox = []) :
    ∃ stop, run handle [] session = (.ok (), stop) ∧ stop.events = session.events ∧
      stop.outbox = session.outbox := by
  have hdecode : session.server.decoder.decode (statusRule .request) true () session.inbox =
      ⟨none, session.server.decoder, (), session.inbox⟩ := by
    simp [Decoder.decode, hidle, hinbox]
  rw [run, serveInbox_of_wait hupgraded hdecode]
  exact ⟨_, rfl, rfl, rfl⟩

end Session

end HttpFraming
