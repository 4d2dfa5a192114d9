import HttpFraming.Proofs.Serving.Dealing

/-!
# However a session ends

A session deals with decoded parts one by one, until there are no more or it does not go on
behind one of them: the connection is not kept, or something failed. `Session.DealsUpTo` says
with which parts it has dealt and what has happened by then, and `Session.run_dealsUpTo` that
this is so for every run, for the parts of some way of cutting the bytes.
-/

namespace HttpFraming

open Bytes

namespace Session

variable {η : Type} {handle : Handler η}

def StopsAt (handle : Handler η) (session : Session η) (message : Message .request) : Prop :=
  ∀ after, deal handle message session ≠ .ok true after

/-- The session behind a part with which it stops. An error of the collector is answered as one
of the input. -/
def stopAt (handle : Handler η) (message : Message .request) (session : Session η) : Session η :=
  match session.collector.take (selectAll .request) message with
  | (.error _, collector) => Act.after sendBadRequest { session with
      server := session.server.noteMessage (some message)
      collector }
  | _ => Act.after (deal handle message) session

/-- The session deals with parts up to one with which it stops. Later parts are not looked at. -/
inductive Halts (handle : Handler η) (session : Session η) :
    List (Message .request) → List (Message .request) → List Event → Prop
  | here {before later : List (Message .request)} {last : Message .request} {middle : Session η}
      (hbefore : Deals handle session before middle) (hstop : middle.StopsAt handle last)
      (decoder : Decoder .request) (inbox : Bytes) (block : Block) :
      Halts handle session (before ++ last :: later) (before ++ [last])
        (stopAt handle last (middle.withStream decoder inbox block)).events

/-- Of all these parts the session deals with those, all of them or up to one with which it
stops, and then these events have happened. -/
inductive DealsUpTo (handle : Handler η) (session : Session η) :
    List (Message .request) → List (Message .request) → List Event → Prop
  | all {messages : List (Message .request)} {after : Session η} {events : List Event}
      (h : Deals handle session messages after) (hevents : events = after.events) :
      DealsUpTo handle session messages messages events
  | halts {messages dealt : List (Message .request)} {events : List Event}
      (h : Halts handle session messages dealt events) :
      DealsUpTo handle session messages dealt events

theorem StopsAt.withStream {session : Session η} {message : Message .request}
    (h : session.StopsAt handle message) (decoder : Decoder .request) (inbox : Bytes)
    (block : Block) : (session.withStream decoder inbox block).StopsAt handle message :=
  fun _ hdeal => h _ ((deal_withStream hdeal).2 session.server.decoder session.inbox session.block)

namespace Halts

variable {session middle : Session η} {messages dealt more : List (Message .request)}
  {events : List Event}

theorem behind (hdeals : Deals handle session messages middle)
    (h : Halts handle middle more dealt events) :
    Halts handle session (messages ++ more) (messages ++ dealt) events := by
  cases h with
  | here hbefore hstop decoder inbox block =>
      rw [← List.append_assoc, ← List.append_assoc]
      exact .here (hdeals.append hbefore) hstop decoder inbox block

theorem append (h : Halts handle session messages dealt events)
    (more : List (Message .request)) : Halts handle session (messages ++ more) dealt events := by
  cases h with
  | here hbefore hstop decoder inbox block =>
      rw [List.append_assoc, List.cons_append]
      exact .here hbefore hstop decoder inbox block

theorem of_withStream {decoder : Decoder .request} {inbox : Bytes} {block : Block}
    (h : Halts handle (session.withStream decoder inbox block) messages dealt events) :
    Halts handle session messages dealt events := by
  cases h with
  | here hbefore hstop decoder' inbox' block' =>
      have hback := hbefore.withStream session.server.decoder session.inbox session.block
      exact .here hback (hstop.withStream _ _ _) decoder' inbox' block'

end Halts

/-- The session has halted within these bytes, in whatever pieces they came. -/
def HaltsWithin (handle : Handler η) (session : Session η) (data : Bytes) (events : List Event) :
    Prop :=
  ∃ cuts dealt, cuts.flatten = data ∧
    Halts handle session (session.delivered cuts).values dealt events

namespace HaltsWithin

variable {session middle : Session η} {first second data : Bytes} {events : List Event}

theorem append (h : HaltsWithin handle session data events) (rest : Bytes) :
    HaltsWithin handle session (data ++ rest) events := by
  obtain ⟨cuts, dealt, rfl, hhalts⟩ := h
  refine ⟨cuts ++ [rest], dealt, by simp, ?_⟩
  rw [delivered_append session cuts [rest] session session.block]
  exact hhalts.append _

theorem behind (h : HaltsWithin handle middle second events)
    (hfirst : Dealt handle session first middle) :
    HaltsWithin handle session (first ++ second) events := by
  obtain ⟨cuts, after, block, rfl, hdeals, rfl⟩ := hfirst
  obtain ⟨more, dealt, rfl, hhalts⟩ := h
  refine ⟨cuts ++ more, (session.delivered cuts).values ++ dealt, by simp, ?_⟩
  rw [delivered_append session cuts more after block]
  exact hhalts.of_withStream.behind hdeals

end HaltsWithin

/-! ## Serving what was received -/

section Step

variable {ended : Bool} {session : Session η} {message : Message .request}
  {decoder : Decoder .request} {rest : Bytes}

/-- Where the session stops with a part, serving ends with it. -/
theorem serveInbox_of_stop (hupgraded : session.server.upgraded = false)
    (hdecode : session.server.decoder.decode (statusRule .request) ended () session.inbox =
      ⟨some message, decoder, (), rest⟩)
    (hstop : session.StopsAt handle message) :
    (serveInbox handle ended session).1 ≠ .waiting ∧
      (serveInbox handle ended session).2 = stopAt handle message
        (session.withStream decoder rest (session.blockAfter ended)) := by
  have hpull := observed_pull hupgraded hdecode
  have hstays := hstop.withStream decoder rest (session.blockAfter ended)
  rcases htake : session.collector.take (selectAll .request) message with ⟨result, collector⟩
  have hthere : (session.withStream decoder rest (session.blockAfter ended)).collector.take
    (selectAll .request) message = (result, collector) := htake
  simp only [StopsAt, deal_eq hthere] at hstays
  simp only [stopAt, hthere, Act.after, deal_eq hthere]
  simp only [withStream, withInput, noteMessage_withDecoder] at hpull hstays ⊢
  rw [serveInbox_eq]
  rcases result with error | _ | collected
  · simp only [pull, source, Source.collected, Source.collect_of_value hpull, htake]
    exact ⟨by simp, rfl⟩
  · exact absurd rfl (hstays _)
  · simp only [pull, source, Source.collected, Source.collect_of_value hpull, htake, settle]
      at hstays ⊢
    split <;> rename_i hrespond
    · rw [hrespond]
      exact ⟨by simp, rfl⟩
    · rw [hrespond]
      exact ⟨by simp, rfl⟩
    · exact absurd hrespond (hstays _)

end Step

/-- Serving the inbox deals with all parts that the decoder makes of it and then waits, or halts
at one of them. -/
theorem serveInbox_cases (handle : Handler η) (ended : Bool) (session : Session η)
    (hupgraded : session.server.upgraded = false) :
    let drained := (Decoder.source (statusRule .request)).drain ended (session.server.decoder, ())
      session.inbox
    (∃ after block, Deals handle session drained.values after ∧
      serveInbox handle ended session = (.waiting, after.withInput ⟨drained.state.1,
        if ended then after.collector.close else after.collector, drained.rest, block⟩)) ∨
    ∃ dealt, (serveInbox handle ended session).1 ≠ .waiting ∧
      Halts handle session drained.values dealt (serveInbox handle ended session).2.events := by
  have hall := Decoder.drain_induction (statusRule .request) ended
    (motive := fun state bytes drained => ∀ session : Session η,
      session.server.decoder = state.1 → session.inbox = bytes →
        session.server.upgraded = false →
          (∃ after block, Deals handle session drained.values after ∧
            serveInbox handle ended session = (.waiting, after.withInput ⟨drained.state.1,
              if ended then after.collector.close else after.collector, drained.rest, block⟩)) ∨
          ∃ dealt, (serveInbox handle ended session).1 ≠ .waiting ∧ Halts handle session
            drained.values dealt (serveInbox handle ended session).2.events)
    ?_ ?_ (session.server.decoder, ()) session.inbox
  · exact hall session rfl rfl hupgraded
  · intro state bytes next rule rest hdecode session hdecoder hinbox hupgraded
    rw [← hdecoder, ← hinbox] at hdecode
    exact .inl ⟨session, _, .nil session, serveInbox_of_wait hupgraded hdecode⟩
  · intro state bytes message next rule rest hdecode ih session hdecoder hinbox hupgraded
    rw [← hdecoder, ← hinbox] at hdecode
    by_cases hgoes : ∃ middle, deal handle message session = .ok true middle
    · obtain ⟨middle, hdeal⟩ := hgoes
      have hkeeps := (deal_withStream hdeal).1.trans hupgraded
      have hback : ∀ {messages : List (Message .request)} {after : Session η},
          Deals handle (middle.withStream next rest (session.blockAfter ended)) messages after →
            Deals handle middle messages
              (after.withStream middle.server.decoder middle.inbox middle.block) :=
        fun hdeals => hdeals.withStream middle.server.decoder middle.inbox middle.block
      rw [serveInbox_of_deal hupgraded hdecode hdeal]
      rcases ih (middle.withStream next rest (session.blockAfter ended)) rfl rfl hkeeps with
        ⟨after, block, hdeals, hserved⟩ | ⟨dealt, hpause, hhalts⟩
      · exact .inl ⟨_, block, .cons hdeal (hback hdeals), hserved⟩
      · have hone := Deals.cons hdeal (.nil middle)
        exact .inr ⟨message :: dealt, hpause, hhalts.of_withStream.behind hone⟩
    · have hstop : session.StopsAt handle message := fun after hdeal => hgoes ⟨after, hdeal⟩
      obtain ⟨hpause, hserved⟩ := serveInbox_of_stop hupgraded hdecode hstop
      refine .inr ⟨[message], hpause, ?_⟩
      rw [hserved]
      exact .here (.nil session) hstop next rest (session.blockAfter ended)

theorem receive_of_stopped {data : Bytes} (hne : data ≠ []) {session stop : Session η}
    {pause : Pause} (hpause : pause ≠ .waiting)
    (h : serveInbox handle false { session with
      inbox := session.inbox ++ data.take session.makeRoom.free
      block := session.makeRoom.fill (data.take session.makeRoom.free).length } = (pause, stop)) :
    receive handle data session = (pause, stop) := by
  have hempty : data.isEmpty = false := by simpa using hne
  rw [receive]
  simp only [hempty, h]
  cases pause with
  | waiting => exact absurd rfl hpause
  | finished => rfl
  | failed error => rfl

theorem receive_piece_cases (handle : Handler η) {session : Session η}
    (hupgraded : session.server.upgraded = false) {data : Bytes} (hne : data ≠ []) :
    (∃ middle, Dealt handle session (data.take session.makeRoom.free) middle ∧
      receive handle data session = receive handle (data.drop session.makeRoom.free) middle) ∨
    (receive handle data session).1 ≠ .waiting ∧ HaltsWithin handle session
      (data.take session.makeRoom.free) (receive handle data session).2.events := by
  have hwaits := @receive_of_waiting _ handle data hne session
  have hstops := @receive_of_stopped _ handle data hne session
  generalize data.take session.makeRoom.free = piece at hwaits hstops ⊢
  let filled : Session η := { session with
    inbox := session.inbox ++ piece
    block := session.makeRoom.fill piece.length }
  have hfilled : filled = session.withStream session.server.decoder (session.inbox ++ piece)
    (session.makeRoom.fill piece.length) := rfl
  have hone : session.delivered [piece] = (Decoder.source (statusRule .request)).drain false
      (filled.server.decoder, ()) filled.inbox := session.delivered_one piece
  rcases serveInbox_cases handle false filled hupgraded with
    ⟨after, block, hdeals, hserved⟩ | ⟨dealt, hpause, hhalts⟩
  · rw [← hone] at hdeals hserved
    have hthere := hdeals.withStream session.server.decoder session.inbox session.block
    exact .inl ⟨_, ⟨[piece], _, block, by simp, hthere, rfl⟩, hwaits hserved⟩
  · rw [← hone, hfilled] at hhalts
    rw [hstops hpause rfl]
    exact .inr ⟨hpause, [piece], dealt, by simp, hhalts.of_withStream⟩

/-- In whatever pieces the block takes one read, the session deals with all that comes of it, or
halts. -/
theorem receive_cases (handle : Handler η) (session : Session η)
    (hupgraded : session.server.upgraded = false) (data : Bytes) :
    (∃ stop, Dealt handle session data stop ∧ receive handle data session = (.waiting, stop)) ∨
    (receive handle data session).1 ≠ .waiting ∧
      HaltsWithin handle session data (receive handle data session).2.events := by
  induction hlength : data.length using Nat.strongRecOn generalizing data session with
  | ind n ih =>
      by_cases hne : data = []
      · subst hne
        refine .inl ⟨session, .refl session, ?_⟩
        rw [receive]
        rfl
      have hsplit : data.take session.makeRoom.free ++ data.drop session.makeRoom.free = data :=
        List.take_append_drop ..
      have hshorter : (data.drop session.makeRoom.free).length < n :=
        hlength ▸ session.drop_makeRoom_lt hne
      rcases receive_piece_cases handle hupgraded hne with
        ⟨middle, hfirst, hreceive⟩ | ⟨hpause, hhalts⟩
      · rw [hreceive]
        rcases ih _ hshorter middle (hfirst.upgraded.trans hupgraded) _ rfl with
          ⟨stop, hmore, hreceived⟩ | ⟨hpause, hhalts⟩
        · exact .inl ⟨stop, hsplit ▸ hfirst.trans hmore, hreceived⟩
        · have hbehind := hhalts.behind hfirst
          rw [hsplit] at hbehind
          exact .inr ⟨hpause, hbehind⟩
      · have hall := hhalts.append (data.drop session.makeRoom.free)
        rw [hsplit] at hall
        exact .inr ⟨hpause, hall⟩

def arrived (session : Session η) (pieces : List Bytes) :
    Drained (Decoder .request × Unit) (Message .request) :=
  ((Decoder.source (statusRule .request)).drain true (session.delivered pieces).state
    (session.delivered pieces).rest).after (session.delivered pieces).values

theorem arrived_append (session : Session η) (first second : List Bytes) (after : Session η)
    (block : Block) :
    session.arrived (first ++ second) =
      ((after.withStream (session.delivered first).state.1 (session.delivered first).rest
        block).arrived second).after (session.delivered first).values := by
  rw [arrived, delivered_append session first second after block, arrived, Drained.after_after]
  rfl

theorem DealsUpTo.behind {session middle : Session η}
    {messages more dealt : List (Message .request)} {events : List Event}
    {decoder : Decoder .request} {inbox : Bytes} {block : Block}
    (h : DealsUpTo handle (middle.withStream decoder inbox block) more dealt events)
    (hdeals : Deals handle session messages middle) :
    DealsUpTo handle session (messages ++ more) (messages ++ dealt) events := by
  cases h with
  | all hmore hevents =>
      have hback := hmore.withStream middle.server.decoder middle.inbox middle.block
      exact .all (hdeals.append hback) hevents
  | halts hhalts => exact .halts (hhalts.of_withStream.behind hdeals)

theorem run_of_stopped {session : Session η} {data : Bytes}
    (hpause : (receive handle data session).1 ≠ .waiting) (more : List Read) :
    (run handle (.bytes data :: more) session).2 = (receive handle data session).2 := by
  rw [run]
  rcases hreceive : receive handle data session with ⟨pause, stop⟩
  rw [hreceive] at hpause
  cases pause with
  | waiting => exact absurd rfl hpause
  | finished => rfl
  | failed error => rfl

theorem run_nil_dealsUpTo (handle : Handler η) (session : Session η)
    (hupgraded : session.server.upgraded = false) :
    ∃ dealt, DealsUpTo handle session (session.arrived []).values dealt
      (run handle [] session).2.events := by
  have hnil : (session.arrived []).values = ((Decoder.source (statusRule .request)).drain true
      (session.server.decoder, ()) session.inbox).values := rfl
  rcases serveInbox_cases handle true session hupgraded with
    ⟨after, block, hdeals, hserved⟩ | ⟨dealt, hpause, hhalts⟩
  · have hstop : (run handle [] session).2.events = after.events := by
      rw [run, hserved]
      rfl
    exact ⟨(session.arrived []).values, .all hdeals hstop⟩
  · have hstop : (run handle [] session).2 = (serveInbox handle true session).2 := by
      rw [run]
      rcases serveInbox handle true session with ⟨pause, stop⟩
      cases pause <;> rfl
    refine ⟨dealt, ?_⟩
    rw [hstop, hnil]
    exact .halts hhalts

/-- One read is dealt with before the others, or the session halts with it. -/
theorem run_bytes_cases (handle : Handler η) (session : Session η)
    (hupgraded : session.server.upgraded = false) (data : Bytes) (more : List Read) :
    (∃ middle, Dealt handle session data middle ∧
      run handle (.bytes data :: more) session = run handle more middle) ∨
    HaltsWithin handle session data (run handle (.bytes data :: more) session).2.events := by
  rcases receive_cases handle session hupgraded data with
    ⟨middle, hfirst, hreceived⟩ | ⟨hpause, hhalts⟩
  · refine .inl ⟨middle, hfirst, ?_⟩
    rw [run, hreceived]
  · rw [run_of_stopped hpause]
    exact .inr hhalts

/-- Any reads are dealt with one after the other, up to the end of the input or to a part with
which the session stops. -/
theorem run_dealsUpTo (handle : Handler η) (session : Session η)
    (hupgraded : session.server.upgraded = false) (reads : List Bytes) :
    ∃ cuts dealt, cuts.flatten = reads.flatten ∧
      DealsUpTo handle session (session.arrived cuts).values dealt
        (run handle (reads.map .bytes) session).2.events := by
  induction reads generalizing session with
  | nil =>
      obtain ⟨dealt, hdeals⟩ := run_nil_dealsUpTo handle session hupgraded
      exact ⟨[], dealt, rfl, hdeals⟩
  | cons data reads ih =>
      rw [List.map_cons]
      rcases run_bytes_cases handle session hupgraded data (reads.map .bytes) with
        ⟨middle, hfirst, hrun⟩ | ⟨cuts, dealt, hcuts, hhalts⟩
      · obtain ⟨first, after, block, hcuts, hdeals, rfl⟩ := hfirst
        have hkeeps := hdeals.upgraded.trans hupgraded
        obtain ⟨second, dealt, hmore, hrest⟩ := ih (after.withStream
          (session.delivered first).state.1 (session.delivered first).rest block) hkeeps
        refine ⟨first ++ second, (session.delivered first).values ++ dealt, ?_, ?_⟩
        · rw [List.flatten_append, hcuts, hmore, List.flatten_cons]
        · rw [hrun, arrived_append session first second after block]
          exact hrest.behind hdeals
      · refine ⟨cuts ++ [reads.flatten], dealt, by simp [hcuts], ?_⟩
        rw [arrived_append session cuts _ session session.block]
        exact .halts (hhalts.append _)

end Session

/-! ## Reads that fail -/

namespace Read

/-- What is read before the first error, and all of it without one. -/
def arriving : List Read → List Bytes
  | .bytes data :: more => data :: arriving more
  | _ => []

def comeToEnd : List Read → Bool
  | [] => true
  | .bytes _ :: more => comeToEnd more
  | .error _ :: _ => false

end Read

namespace Session

variable {η : Type} {handle : Handler η}

/-- The parts that come of so many reads: those of the end of the input too, if it is reached. -/
def decoded (session : Session η) (cuts : List Bytes) (ended : Bool) : List (Message .request) :=
  if ended then (session.arrived cuts).values else (session.delivered cuts).values

/-- Of all these parts the session deals with those, and then these events have happened. A read
that fails is answered, if the session goes on up to it. -/
inductive Serves (handle : Handler η) (session : Session η) :
    List (Message .request) → List (Message .request) → List Event → Prop
  | upTo {messages dealt : List (Message .request)} {events : List Event}
      (h : DealsUpTo handle session messages dealt events) :
      Serves handle session messages dealt events
  | broken {messages : List (Message .request)} {after : Session η}
      (h : Deals handle session messages after) (decoder : Decoder .request) (inbox : Bytes)
      (block : Block) :
      Serves handle session messages messages
        (Act.after sendBadRequest (after.withStream decoder inbox block)).events

theorem Serves.behind {session middle : Session η} {messages more dealt : List (Message .request)}
    {events : List Event} {decoder : Decoder .request} {inbox : Bytes} {block : Block}
    (h : Serves handle (middle.withStream decoder inbox block) more dealt events)
    (hdeals : Deals handle session messages middle) :
    Serves handle session (messages ++ more) (messages ++ dealt) events := by
  cases h with
  | upTo hmore => exact .upTo (hmore.behind hdeals)
  | broken hmore decoder' inbox' block' =>
      have hback := hmore.withStream middle.server.decoder middle.inbox middle.block
      exact .broken (hdeals.append hback) decoder' inbox' block'

theorem decoded_append (session : Session η) (first second : List Bytes) (ended : Bool)
    (after : Session η) (block : Block) :
    session.decoded (first ++ second) ended = (session.delivered first).values ++
      (after.withStream (session.delivered first).state.1 (session.delivered first).rest
        block).decoded second ended := by
  unfold decoded
  rw [arrived_append session first second after block,
    delivered_append session first second after block]
  split <;> rfl

/-- Any reads are dealt with one after the other, up to the end of the input, to a read that
fails, or to a part with which the session stops. -/
theorem run_serves (handle : Handler η) (session : Session η)
    (hupgraded : session.server.upgraded = false) (reads : List Read) :
    ∃ cuts dealt, cuts.flatten = (Read.arriving reads).flatten ∧
      Serves handle session (session.decoded cuts (Read.comeToEnd reads)) dealt
        (run handle reads session).2.events := by
  induction reads generalizing session with
  | nil =>
      obtain ⟨dealt, hdeals⟩ := run_nil_dealsUpTo handle session hupgraded
      exact ⟨[], dealt, rfl, .upTo hdeals⟩
  | cons read reads ih =>
      cases read with
      | error text =>
          exact ⟨[], [], rfl, .broken (.nil session) session.server.decoder session.inbox
            session.block⟩
      | bytes data =>
          rcases run_bytes_cases handle session hupgraded data reads with
            ⟨middle, hfirst, hrun⟩ | ⟨cuts, dealt, hcuts, hhalts⟩
          · obtain ⟨first, after, block, hcuts, hdeals, rfl⟩ := hfirst
            have hkeeps := hdeals.upgraded.trans hupgraded
            obtain ⟨second, dealt, hmore, hrest⟩ := ih (after.withStream
              (session.delivered first).state.1 (session.delivered first).rest block) hkeeps
            refine ⟨first ++ second, (session.delivered first).values ++ dealt, ?_, ?_⟩
            · rw [List.flatten_append, hcuts, hmore, Read.arriving, List.flatten_cons]
            · rw [hrun, decoded_append session first second _ after block]
              exact hrest.behind hdeals
          · refine ⟨cuts ++ [(Read.arriving reads).flatten], dealt, by simp [Read.arriving, hcuts],
              ?_⟩
            rw [decoded_append session cuts _ _ session session.block]
            exact .upTo (.halts (hhalts.append _))

end Session

end HttpFraming
