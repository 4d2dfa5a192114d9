import HttpFraming.Proofs.RoundTrip.Messages
import HttpFraming.Serving.Run

/-!
# What a session writes

On an outlet that takes everything, what an act writes is what the server encodes, whatever
is still in the outbox and whenever it is written out: `Session.written` adds up both.
`Act.Writes` says what an act adds to it and `Act.Sends` that nothing stays behind.
-/

namespace HttpFraming

open Bytes

def Event.calls (events : List Event) : List (Request × Bytes) :=
  events.filterMap fun
    | .handled request body => some (request, body)
    | _ => none

theorem Event.output_append (first second : List Event) :
    output (first ++ second) = output first ++ output second :=
  List.flatMap_append

theorem Event.calls_append (first second : List Event) :
    calls (first ++ second) = calls first ++ calls second :=
  List.filterMap_append

namespace Session

variable {η : Type}

/-- What has been written and what is about to be. -/
def written (session : Session η) : Bytes :=
  Event.output session.events ++ session.outbox

/-- The session has come to stand there by writing these bytes. -/
structure Wrote (before : Session η) (server : Server) (bytes : Bytes) (after : Session η) :
    Prop where
  server : after.server = server
  handler : after.handler = before.handler
  outlet : after.outlet = before.outlet
  calls : Event.calls after.events = Event.calls before.events
  written : after.written = before.written ++ bytes

theorem Wrote.refl (session : Session η) : session.Wrote session.server [] session :=
  ⟨rfl, rfl, rfl, rfl, by simp⟩

theorem Wrote.trans {first second third : Session η} {server server' : Server}
    {bytes bytes' : Bytes} (h : first.Wrote server bytes second)
    (h' : second.Wrote server' bytes' third) : first.Wrote server' (bytes ++ bytes') third where
  server := h'.server
  handler := h'.handler.trans h.handler
  outlet := h'.outlet.trans h.outlet
  calls := h'.calls.trans h.calls
  written := by rw [h'.written, h.written, List.append_assoc]

end Session

namespace Act

variable {η : Type}

/-- An act succeeds, leaves the server like this and writes these bytes. -/
def Writes (act : Act η Unit) (session : Session η) (server : Server) (bytes : Bytes) : Prop :=
  ∃ after, act session = .ok () after ∧ session.Wrote server bytes after

def Sends (act : Act η Unit) (session : Session η) (server : Server) (bytes : Bytes) : Prop :=
  ∃ after, act session = .ok () after ∧ session.Wrote server bytes after ∧ after.outbox = []

variable {act next : Act η Unit} {session : Session η} {server server' : Server}
  {bytes bytes' : Bytes}

theorem Sends.writes (h : act.Sends session server bytes) : act.Writes session server bytes := by
  obtain ⟨after, hact, hwrote, _⟩ := h
  exact ⟨after, hact, hwrote⟩

theorem Writes.bind (h : act.Writes session server bytes)
    (hnext : ∀ middle, session.Wrote server bytes middle → next.Writes middle server' bytes') :
    (act >>= fun _ => next).Writes session server' (bytes ++ bytes') := by
  obtain ⟨middle, hact, hwrote⟩ := h
  obtain ⟨after, hthen, hmore⟩ := hnext middle hwrote
  exact ⟨after, bind_ok.mpr ⟨(), middle, hact, hthen⟩, hwrote.trans hmore⟩

theorem Writes.bind_sends (h : act.Writes session server bytes)
    (hnext : ∀ middle, session.Wrote server bytes middle → next.Sends middle server' bytes') :
    (act >>= fun _ => next).Sends session server' (bytes ++ bytes') := by
  obtain ⟨middle, hact, hwrote⟩ := h
  obtain ⟨after, hthen, hmore, hempty⟩ := hnext middle hwrote
  exact ⟨after, bind_ok.mpr ⟨(), middle, hact, hthen⟩, hwrote.trans hmore, hempty⟩

end Act

namespace Session

variable {η : Type} {session : Session η}

/-! ## Acts -/

theorem flush_sends (hroom : session.outlet.room? = none) :
    (flush : Act η Unit).Sends session session.server [] := by
  by_cases hempty : session.outbox = []
  · exact ⟨session, by simp [flush, hempty], .refl session, hempty⟩
  · have hflush : flush session = .ok () { session with
        outbox := []
        events := session.events ++ [.wrote session.outbox] } := by
      simp [flush, hempty, Outlet.accept, hroom]
    refine ⟨_, hflush, ⟨rfl, rfl, rfl, ?_, ?_⟩, rfl⟩
    · simp [Event.calls]
    · simp [written, Event.output]

theorem relieve_writes (hroom : session.outlet.room? = none) :
    (relieve : Act η Unit).Writes session session.server [] := by
  by_cases hlarge : outboxMark ≤ session.outbox.length
  · obtain ⟨after, hflush, hwrote, _⟩ := flush_sends hroom
    exact ⟨after, Act.bind_ok.mpr ⟨_, session, rfl, by rwa [if_pos hlarge]⟩, hwrote⟩
  · exact ⟨session, Act.bind_ok.mpr ⟨_, session, rfl, by rw [if_neg hlarge]; rfl⟩, .refl session⟩

theorem write_writes {encode : Server → Written Server} {server : Server} {bytes : Bytes}
    (hencode : encode session.server = ⟨bytes, server, none⟩) :
    (write encode : Act η Unit).Writes session server bytes := by
  have hwrite : write encode session = .ok () { session with
      server
      outbox := session.outbox ++ bytes } := by
    simp only [write, hencode]
  refine ⟨_, hwrite, rfl, rfl, rfl, rfl, ?_⟩
  simp [written]

theorem record_answered_writes (session : Session η) (response : Response) :
    (record (.answered response) : Act η Unit).Writes session session.server [] := by
  refine ⟨_, rfl, rfl, rfl, rfl, ?_, ?_⟩
  · simp [Event.calls]
  · simp [written, Event.output]

end Session

theorem Act.Writes.flushed {act : Act η Unit} {session : Session η} {server : Server}
    {bytes : Bytes} (h : act.Writes session server bytes) (hroom : session.outlet.room? = none) :
    Act.Sends (act >>= fun _ => Session.flush) session server bytes := by
  have hsends : Act.Sends (act >>= fun _ => Session.flush) session server (bytes ++ []) := by
    refine h.bind_sends fun middle hmiddle => ?_
    have hflush := Session.flush_sends (hmiddle.outlet ▸ hroom)
    rwa [hmiddle.server] at hflush
  rwa [List.append_nil] at hsends

namespace Session

theorem feedHead_writes (hroom : session.outlet.room? = none) {encode : Server → Written Server}
    {server : Server} {bytes : Bytes} (hencode : encode session.server = ⟨bytes, server, none⟩)
    (response : Response) : (feedHead encode response : Act η Unit).Writes session server bytes := by
  refine (relieve_writes hroom).bind fun middle hmiddle => ?_
  have hwritten : (write encode : Act η Unit).Writes middle server bytes :=
    write_writes (hmiddle.server ▸ hencode)
  have hrecorded : Act.Writes (write encode >>= fun _ =>
      record (.answered (middle.server.pairing.responseHead response).1.head)) middle server
        (bytes ++ []) := by
    refine hwritten.bind fun last hlast => ?_
    rw [← hlast.server]
    exact record_answered_writes last _
  obtain ⟨after, hact, hwrote⟩ := hrecorded
  rw [List.append_nil] at hwrote
  exact ⟨after, Act.bind_ok.mpr ⟨_, middle, rfl, hact⟩, hwrote⟩

theorem sendHead_sends (hroom : session.outlet.room? = none) {response : Response}
    {server : Server} {bytes : Bytes}
    (hencode : session.server.encodeWhole response = ⟨bytes, server, none⟩) :
    (sendHead response : Act η Unit).Sends session server bytes :=
  (feedHead_writes hroom hencode response).flushed hroom

theorem sendItem_sends (hroom : session.outlet.room? = none) {item : Item} {server : Server}
    {bytes : Bytes} (hencode : session.server.encode (.payload item) = ⟨bytes, server, none⟩) :
    (sendItem item : Act η Unit).Sends session server bytes := by
  refine (relieve_writes hroom).bind_sends fun middle hmiddle => ?_
  have hwritten : (write (·.encode (.payload item)) : Act η Unit).Writes middle server bytes :=
    write_writes (hmiddle.server ▸ hencode)
  exact hwritten.flushed (hmiddle.outlet ▸ hroom)

end Session

/-! ## Bodies of responses -/

def Frame.isError : Frame → Bool
  | error _ => true
  | _ => false

namespace ResponseBody

def pieces (frames : List Frame) : List Bytes :=
  frames.filterMap fun
    | .data data => some data
    | _ => none

def trailersOver (frames : List Frame) (trailers : Fields) : Fields :=
  frames.foldl (fun trailers frame =>
    match frame with
    | .trailers fields => trailers.extend fields
    | _ => trailers) trailers

def IsErrorless (frames : List Frame) : Prop :=
  ∀ frame ∈ frames, frame.isError = false

instance (frames : List Frame) : Decidable (IsErrorless frames) :=
  inferInstanceAs (Decidable (∀ frame ∈ frames, frame.isError = false))

end ResponseBody

namespace Server

theorem encode_payload (server : Server) (item : Item) :
    server.encode (.payload item) = (server.encoder.encode (.payload item : Message .response)).map
      fun encoder => { server with encoder } :=
  rfl

end Server

namespace Session

/-- The frames of a body are written as its parts are encoded. -/
theorem sendFrames_sends {frames : List Frame} {trailers : Fields}
    (herrorless : ResponseBody.IsErrorless frames) {session : Session η}
    (hroom : session.outlet.room? = none) {bytes : Bytes} {encoder : Encoder}
    (hencode : session.server.encoder.encodeAll (Message.payloads (ResponseBody.pieces frames) []
      (ResponseBody.trailersOver frames trailers) : List (Message .response)) =
        ⟨bytes, encoder, none⟩) :
    (sendFrames frames trailers : Act η Unit).Sends session { session.server with encoder }
      bytes := by
  induction frames generalizing trailers session bytes with
  | nil =>
      obtain ⟨first, next, second, hfirst, hsecond, rfl⟩ := Encoder.encodeAll_cons_ok hencode
      cases hsecond
      rw [List.append_nil]
      have hlast : session.server.encoder.encode
          (.payload (.last [] trailers) : Message .response) = ⟨first, encoder, none⟩ := hfirst
      refine sendItem_sends hroom ?_
      rw [Server.encode_payload, hlast]
      rfl
  | cons frame more ih =>
      obtain ⟨hframe, hmore⟩ := List.forall_mem_cons.mp herrorless
      cases frame with
      | data data =>
          obtain ⟨first, next, second, hfirst, hsecond, rfl⟩ := Encoder.encodeAll_cons_ok hencode
          have hitem : (sendItem (.chunk data) : Act η Unit).Sends session
              { session.server with encoder := next } first := by
            refine sendItem_sends hroom ?_
            rw [Server.encode_payload, hfirst]
            rfl
          refine hitem.writes.bind_sends fun middle hmiddle => ?_
          have hrest := @ih trailers hmore middle (hmiddle.outlet ▸ hroom) second
          rw [hmiddle.server] at hrest
          exact hrest hsecond
      | trailers fields => exact ih hmore hroom hencode
      | error text => cases hframe

end Session

end HttpFraming
