import HttpFraming.Proofs.Collecting.Advances
import HttpFraming.Proofs.Pairing.Agreement
import HttpFraming.Proofs.Serving.Speech
import HttpFraming.Proofs.Serving.Turns

/-!
# What is left to see of a turn

Of all that happens while a session deals with a part, two things are marks of what it has
decided: that the handler is given a request, and that a response is begun. `Session.ledger` keeps
them with the methods that wait for a response. Most acts leave it alone, and `Act.Begins` says
what the others enter. `Session.deal_advances` is what becomes of a part behind which the session
goes on, and `Session.stopAt_enters` what is left to see of the last one.
-/

namespace HttpFraming

theorem append_singleton_eq_append_cons {l before after : List α} {last one : α}
    (h : l ++ [last] = before ++ one :: after) :
    (after = [] ∧ before = l ∧ one = last) ∨
      ∃ others, after = others ++ [last] ∧ l = before ++ one :: others := by
  rcases List.eq_nil_or_concat after with rfl | ⟨others, final, rfl⟩
  · obtain ⟨hbefore, hlast⟩ := List.append_inj' h rfl
    exact .inl ⟨rfl, hbefore.symm, (List.singleton_inj.mp hlast).symm⟩
  · have hsplit : l ++ [last] = (before ++ one :: others) ++ [final] := by simpa using h
    obtain ⟨hbefore, hlast⟩ := List.append_inj' hsplit rfl
    exact .inr ⟨others, by rw [hlast, List.concat_eq_append], hbefore⟩

namespace Event

/-- The events but for the bytes that were written out. -/
def marks (events : List Event) : List Event :=
  events.filter fun
    | .wrote _ => false
    | _ => true

theorem marks_append (first second : List Event) :
    marks (first ++ second) = marks first ++ marks second :=
  List.filter_append ..

theorem marks_split {events before after : List Event} {response : Response}
    (hsplit : events = before ++ .answered response :: after) :
    marks events = marks before ++ .answered response :: marks after := by
  rw [hsplit, marks_append]
  rfl

theorem calls_marks (events : List Event) : calls (marks events) = calls events := by
  induction events with
  | nil => rfl
  | cons event more ih =>
      cases event with
      | wrote data => exact ih
      | answered response => exact ih
      | handled request body => exact congrArg ((request, body) :: ·) ih

section Each

variable {P : List Event → Response → Prop} {events : List Event}
  (h : ∀ before response after, events = before ++ .answered response :: after → P before response)

include h

theorem each_handled (request : Request) (body : Bytes) :
    ∀ before response after,
      events ++ [.handled request body] = before ++ .answered response :: after →
        P before response := by
  intro before response after hsplit
  rcases append_singleton_eq_append_cons hsplit with ⟨-, -, hsame⟩ | ⟨others, -, hfront⟩
  · cases hsame
  · exact h before response others hfront

theorem each_answered {response : Response} (hresponse : P events response) :
    ∀ before other after, events ++ [.answered response] = before ++ .answered other :: after →
      P before other := by
  intro before other after hsplit
  rcases append_singleton_eq_append_cons hsplit with ⟨-, rfl, hsame⟩ | ⟨others, -, hfront⟩
  · cases hsame
    exact hresponse
  · exact h before other others hfront

end Each

/-- What has happened stays. Then the handler was given these requests, and behind that one more
response at most was begun. -/
def Enters (earlier later : List Event) (given : List (Request × Bytes)) : Prop :=
  ∃ begun : List Response, begun.length ≤ 1 ∧ marks later =
    marks earlier ++ given.map (fun call => .handled call.1 call.2) ++ begun.map .answered

namespace Enters

variable {earlier later : List Event} {given : List (Request × Bytes)}

theorem of_eq (h : marks later = marks earlier) : Enters earlier later [] :=
  ⟨[], Nat.zero_le 1, by simp [h]⟩

theorem calls_eq (h : Enters earlier later given) : calls later = calls earlier ++ given := by
  obtain ⟨begun, -, hmarks⟩ := h
  rw [← calls_marks later, hmarks, calls_append, calls_append, calls_marks]
  simp [calls]

theorem behind_handled {request : Request} {body : Bytes}
    (h : Enters (earlier ++ [.handled request body]) later []) :
    Enters earlier later [(request, body)] := by
  obtain ⟨begun, hlength, hmarks⟩ := h
  rw [marks_append] at hmarks
  exact ⟨begun, hlength, by rw [hmarks, List.map_nil, List.append_nil]; rfl⟩

/-- A response with anything left to see behind it is not the one that was begun last. -/
theorem front (h : Enters earlier later given) {before after : List Event} {response : Response}
    (hsplit : marks later = before ++ .answered response :: after) (hafter : after ≠ []) :
    ∃ others, marks earlier = before ++ .answered response :: others := by
  obtain ⟨begun, hlength, hmarks⟩ := h
  have hgiven : ∀ front others : List Event,
      given.map (fun call => handled call.1 call.2) ≠ front ++ .answered response :: others := by
    intro front others hsame
    have hmem : answered response ∈ given.map (fun call => handled call.1 call.2) := by
      rw [hsame]
      simp
    simp at hmem
  have hfront : ∃ others, marks earlier ++ given.map (fun call => handled call.1 call.2) =
      before ++ .answered response :: others := by
    rw [hmarks] at hsplit
    cases begun with
    | nil => exact ⟨after, by simpa using hsplit⟩
    | cons last more =>
        obtain rfl : more = [] := by simpa using hlength
        rcases append_singleton_eq_append_cons hsplit with ⟨hnil, -, -⟩ | ⟨others, -, hfront⟩
        · exact absurd hnil hafter
        · exact ⟨others, hfront⟩
  obtain ⟨others, hfront⟩ := hfront
  -- What is left are the calls, and the response is none of them.
  rcases List.append_eq_append_iff.mp hfront with ⟨front, -, hsame⟩ | ⟨behind, hearlier, hsame⟩
  · exact absurd hsame (hgiven front others)
  · cases behind with
    | nil => exact absurd hsame.symm (hgiven [] others)
    | cons first behind =>
        obtain ⟨rfl, -⟩ := List.cons.inj hsame
        exact ⟨behind, hearlier⟩

end Enters

end Event

/-- What a session has decided so far, and the methods that wait for a response. -/
structure Ledger where
  marks : List Event
  pairing : ServerPairing

namespace Ledger

/-- The response as it is written to the request whose turn it is. -/
def planned (ledger : Ledger) (response : Response) : Response :=
  (ledger.pairing.responseHead response).1.head

theorem planned_status (ledger : Ledger) (response : Response) :
    (ledger.planned response).status = response.status :=
  ledger.pairing.underway_status response

def answer (ledger : Ledger) (response : Response) : Ledger :=
  ⟨ledger.marks ++ [.answered (ledger.planned response)],
    (ledger.pairing.responseHead response).2⟩

def handle (ledger : Ledger) (request : Request) (body : Bytes) : Ledger :=
  ⟨ledger.marks ++ [.handled request body], ledger.pairing⟩

end Ledger

def Session.ledger (session : Session η) : Ledger :=
  ⟨Event.marks session.events, session.server.pairing⟩

namespace Server

variable {server : Server} {response : Response}

theorem pairing_of_encode (h : (server.encode (.header response)).error? = none) :
    (server.encode (.header response)).state.pairing =
      (server.pairing.responseHead response).2 := by
  unfold encode at h ⊢
  by_cases hupgraded : server.upgraded = true
  · simp [hupgraded] at h
  · simp [hupgraded, Written.map]

theorem pairing_of_encodeWhole (h : (server.encodeWhole response).error? = none) :
    (server.encodeWhole response).state.pairing = (server.pairing.responseHead response).2 := by
  unfold encodeWhole at h ⊢
  cases hhead : (server.encode (.header response)).error? with
  | some error => simp [hhead] at h
  | none => simp [hhead, encode_payload, Written.map, pairing_of_encode hhead]

end Server

namespace Act

variable {η α β : Type}

/-! ## Acts that decide nothing -/

def IsSilent (act : Act η α) : Prop :=
  ∀ session, (act.after session).ledger = session.ledger

namespace IsSilent

theorem pure (value : α) : IsSilent (Pure.pure value : Act η α) :=
  fun _ => rfl

theorem throw (error : HttpError) : IsSilent (MonadExcept.throw error : Act η α) :=
  fun _ => rfl

theorem bind {act : Act η α} {next : α → Act η β} (h : act.IsSilent)
    (hnext : ∀ value, (next value).IsSilent) : IsSilent (act >>= next) := by
  intro session
  have hfirst := h session
  cases hact : act session with
  | error error middle => rw [after_bind_of_error hact, hfirst]
  | ok value middle =>
      rw [after_of_ok hact] at hfirst
      rw [after_bind_of_ok hact, hnext value middle, hfirst]

theorem flush : IsSilent (Session.flush : Act η Unit) := by
  intro session
  obtain ⟨hserver, hevents⟩ := after_flush session
  rw [Session.ledger, hserver]
  rcases hevents with hsame | ⟨data, hwrote⟩
  · rw [hsame, Session.ledger]
  · have hmark : Event.marks [.wrote data] = [] := rfl
    rw [hwrote, Event.marks_append, hmark, List.append_nil, Session.ledger]

theorem writeItem (item : Item) :
    IsSilent (Session.write (·.encode (.payload item)) : Act η Unit) := by
  intro session
  obtain ⟨hevents, hserver⟩ := after_write (·.encode (.payload item)) session
  rw [Session.ledger, hevents, hserver]
  rfl

theorem coversBodies : CoversBodies (η := η) IsSilent where
  pure := pure
  bind := bind
  backlog _ := rfl
  flush := flush
  item := writeItem
  refuse _ := throw _

end IsSilent

/-! ## Responses -/

/-- The act begins this response, and enters nothing else. If it fails it may have begun it. -/
structure Begins (act : Act η α) (response : Response) : Prop where
  ok : ∀ {session after value}, act session = .ok value after →
    after.ledger = session.ledger.answer response
  marks : ∀ session, (act.after session).ledger.marks = session.ledger.marks ∨
    (act.after session).ledger.marks = (session.ledger.answer response).marks

namespace Begins

variable {response : Response}

theorem bind {act : Act η α} {next : α → Act η β} (h : act.Begins response)
    (hnext : ∀ value, (next value).IsSilent) : Begins (act >>= next) response where
  ok {session after value} hok := by
    obtain ⟨first, middle, hact, hthen⟩ := bind_ok.mp hok
    have hsilent := hnext first middle
    rw [after_of_ok hthen] at hsilent
    rw [hsilent, h.ok hact]
  marks session := by
    have hfirst := h.marks session
    cases hact : act session with
    | error error middle =>
        rw [after_bind_of_error hact]
        exact hfirst
    | ok value middle =>
        rw [after_of_ok hact] at hfirst
        rw [after_bind_of_ok hact, hnext value middle]
        exact hfirst

theorem silent_bind {act : Act η α} {next : α → Act η β} (h : act.IsSilent)
    (hnext : ∀ value, (next value).Begins response) : Begins (act >>= next) response where
  ok {session after value} hok := by
    obtain ⟨first, middle, hact, hthen⟩ := bind_ok.mp hok
    have hsilent := h session
    rw [after_of_ok hact] at hsilent
    rw [(hnext first).ok hthen, hsilent]
  marks session := by
    have hsilent := h session
    cases hact : act session with
    | error error middle =>
        rw [after_bind_of_error hact, hsilent]
        exact .inl rfl
    | ok value middle =>
        rw [after_of_ok hact] at hsilent
        have hthen := (hnext value).marks middle
        rw [hsilent] at hthen
        rw [after_bind_of_ok hact]
        exact hthen

theorem feedHead {encode : Server → Written Server} (hpairing : ∀ server,
    (encode server).error? = none →
      (encode server).state.pairing = (server.pairing.responseHead response).2) :
    Begins (Session.feedHead encode response : Act η Unit) response := by
  refine silent_bind IsSilent.coversBodies.relieve fun _ =>
    ⟨fun {session after value} hok => ?_, fun session => ?_⟩
  · obtain ⟨planned, same, hplan, hok⟩ := bind_ok.mp hok
    obtain ⟨_, fed, hwrite, hrecord⟩ := bind_ok.mp hok
    cases hplan
    cases hrecord
    obtain ⟨hnone, hevents, hserver, -⟩ := Speaks.written_of_write hwrite
    simp [Session.ledger, Ledger.answer, Ledger.planned, hevents, hserver, hpairing _ hnone,
      Event.marks]
  · have hplan : Session.plan response session =
      .ok (session.server.pairing.responseHead response).1.head session := rfl
    rw [after_bind_of_ok hplan]
    have hevents := (after_write encode session).1
    cases hwrite : Session.write encode session with
    | error error fed =>
        rw [after_bind_of_error hwrite, Session.ledger, hevents]
        exact .inl rfl
    | ok value fed =>
        rw [after_of_ok hwrite] at hevents
        rw [after_bind_of_ok hwrite]
        refine .inr ?_
        simp [Act.after, Session.record, Session.ledger, Ledger.answer, Ledger.planned, hevents,
          Event.marks]

theorem sendHead (response : Response) :
    Begins (Session.sendHead response : Act η Unit) response :=
  (feedHead fun _ => Server.pairing_of_encodeWhole).bind fun _ => .flush

theorem sendResponse (answer : Answer) (keepAlive : Bool) (version : Version) :
    Begins (Session.sendResponse answer keepAlive version : Act η Unit)
      (.prepare answer.status answer.fields answer.body.hint keepAlive version) := by
  cases answer <;>
    exact (feedHead fun _ => Server.pairing_of_encode).bind fun _ =>
      IsSilent.coversBodies.sendFrames _ _

end Begins

/-! ## Any act of a session -/

/-- The act hands these requests to the handler and then begins one response at most, whether it
fails or not. -/
def Enters (act : Act η α) (given : List (Request × Bytes)) : Prop :=
  ∀ session, Event.Enters session.events (act.after session).events given

theorem IsSilent.enters {act : Act η α} (h : act.IsSilent) : act.Enters [] :=
  fun session => .of_eq (congrArg Ledger.marks (h session))

theorem Begins.enters {act : Act η α} {response : Response} (h : act.Begins response) :
    act.Enters [] := by
  intro session
  rcases h.marks session with hsame | hbegun
  · exact .of_eq hsame
  · exact ⟨[session.ledger.planned response], Nat.le_refl 1, by
      simpa [Session.ledger, Ledger.answer] using hbegun⟩

namespace Enters

theorem sendBadRequest : Enters (Session.sendBadRequest : Act η Unit) [] :=
  (Begins.sendHead _).enters

theorem ask {handle : Handler η} {request : Request} {body : Bytes} {next : Answer → Act η β}
    (hnext : ∀ answer, (next answer).Enters []) :
    Enters (Session.ask handle request body >>= next) [(request, body)] := by
  intro session
  have hask : Session.ask handle request body session =
    .ok (handle request body session.handler).1 { session with
      handler := (handle request body session.handler).2
      events := session.events ++ [.handled request body] } := rfl
  rw [after_bind_of_ok hask]
  exact (hnext _ _).behind_handled

theorem respond (handle : Handler η) (collected : Collected .request) :
    Enters (Session.respond handle collected) (Collected.calls (.ok (some collected))) := by
  have hbad : Enters (Session.sendBadRequest >>= fun _ => Pure.pure false : Act η Bool) [] :=
    ((Begins.sendHead _).bind fun _ => .pure false).enters
  cases collected with
  | reply reply => exact ((Begins.sendHead _).bind fun _ => .pure _).enters
  | message whole =>
      cases hfailure : whole.failure? with
      | some cause =>
          simp only [Session.respond, Collected.calls, hfailure, Option.isSome_some,
            Option.isNone_some, if_true, Bool.false_eq_true, if_false]
          exact hbad
      | none =>
          simp only [Session.respond, Collected.calls, hfailure, Option.isSome_none,
            Option.isNone_none, if_true, Bool.false_eq_true, if_false]
          exact ask fun answer => ((Begins.sendResponse answer _ _).bind fun _ => .pure _).enters
  | forward message =>
      cases message with
      | failure failure => exact hbad
      | header h => exact (IsSilent.throw _).enters
      | payload item => exact (IsSilent.throw _).enters
      | raw data => exact (IsSilent.throw _).enters

end Enters

end Act

/-- The response to a request that an answer of the handler makes. -/
def Answer.responseTo (answer : Answer) (request : Request) : Response :=
  .prepare answer.status answer.fields answer.body.hint request.keepAlive request.version

namespace Ledger

/-- A part has been read. If it is a head, its method waits. -/
def note (ledger : Ledger) : Message .request → Ledger
  | .header h => ⟨ledger.marks, ledger.pairing.requestHead h.method⟩
  | _ => ledger

def settle (ledger : Ledger) (handle : Handler η) (handler : η) :
    Option (Collected .request) → Ledger
  | some (.reply reply) => ledger.answer reply.head
  | some (.message whole) => (ledger.handle whole.head whole.body).answer
      ((handle whole.head whole.body handler).1.responseTo whole.head)
  | _ => ledger

end Ledger

namespace Session

variable {η : Type} {handle : Handler η} {session after : Session η}
  {message : Message .request}

theorem settle_enters (handle : Handler η)
    (result : Except CollectError (Option (Collected .request))) :
    (settle handle result).Enters (Collected.calls result) := by
  rcases result with error | _ | collected
  · exact (Act.IsSilent.throw _).enters
  · exact (Act.IsSilent.pure true).enters
  · exact .respond handle collected

theorem settle_goes {result : Except CollectError (Option (Collected .request))}
    {session after : Session η} (h : settle handle result session = .ok true after) :
    goesOn result = true := by
  have hbad : (sendBadRequest >>= fun _ => pure false : Act η Bool) session ≠ .ok true after := by
    intro hok
    obtain ⟨-, middle, -, hreturn⟩ := Act.bind_ok.mp hok
    cases hreturn
  rcases result with error | _ | message | message | reply
  · cases h
  · rfl
  · cases hfailure : message.failure? with
    | none => simp [goesOn, hfailure]
    | some cause =>
        unfold settle respond at h
        simp only [hfailure, Option.isSome_some, if_true] at h
        exact absurd h hbad
  · cases message with
    | failure failure => exact absurd h hbad
    | header h' => cases h
    | payload item => cases h
    | raw data => cases h
  · obtain ⟨-, middle, -, hreturn⟩ := Act.bind_ok.mp h
    cases hclose : reply.close with
    | false => simp [goesOn, hclose]
    | true =>
        rw [hclose] at hreturn
        cases hreturn

/-- What is left to see of a part behind which the session goes on. -/
theorem settle_ledger {out? : Option (Collected .request)}
    (h : settle handle (.ok out?) session = .ok true after) :
    after.ledger = session.ledger.settle handle session.handler out? ∧
      ∀ whole, out? = some (.message whole) → whole.head.keepAlive = true := by
  have hgoes := settle_goes h
  rcases out? with _ | whole | message | reply
  · cases h
    exact ⟨rfl, by simp⟩
  · have hfailure : whole.failure? = none := by simpa [goesOn] using hgoes
    simp only [settle, respond, hfailure, Option.isSome_none, Bool.false_eq_true, if_false] at h
    obtain ⟨answer, asked, hask, hrest⟩ := Act.bind_ok.mp h
    obtain ⟨_, sent, hsend, hreturn⟩ := Act.bind_ok.mp hrest
    obtain ⟨hkeep, rfl⟩ := EStateM.Result.ok.inj hreturn
    have hanswered := (Act.Begins.sendResponse answer _ _).ok hsend
    cases hask
    refine ⟨?_, ?_⟩
    · rw [hanswered]
      simp [Ledger.settle, Ledger.handle, ledger, Event.marks, Answer.responseTo]
    · intro other hother
      cases hother
      exact hkeep
  · cases hgoes
  · obtain ⟨_, sent, hsend, hreturn⟩ := Act.bind_ok.mp h
    obtain ⟨-, rfl⟩ := EStateM.Result.ok.inj hreturn
    exact ⟨(Act.Begins.sendHead reply.head).ok hsend, by simp⟩

theorem noted_ledger (session : Session η) (message : Message .request)
    (collector : Collector .request Unit) :
    ledger { session with server := session.server.noteMessage (some message), collector } =
      session.ledger.note message := by
  cases message <;> rfl

theorem deal_enters (handle : Handler η) (session : Session η) (message : Message .request) :
    Event.Enters session.events ((deal handle message).after session).events
      (Collected.calls (session.collector.take (selectAll .request) message).1) := by
  rcases htake : session.collector.take (selectAll .request) message with ⟨result, collector⟩
  rw [Act.after, deal_eq htake]
  exact settle_enters handle result _

theorem stopAt_enters (handle : Handler η) (session : Session η) (message : Message .request) :
    Event.Enters session.events (stopAt handle message session).events
      (Collected.calls (session.collector.take (selectAll .request) message).1) := by
  have hdeal := deal_enters handle session message
  unfold stopAt
  split
  · rename_i htake
    rw [htake]
    exact Act.Enters.sendBadRequest _
  · exact hdeal

/-- Whichever way serving ends: behind the parts with which the session has dealt and gone on, at
most one more response is begun. -/
theorem Serves.enters {messages dealt : List (Message .request)} {events : List Event}
    (h : Serves handle session messages dealt events) :
    ∃ before last given, before <+: dealt ∧ Deals handle session before last ∧
      Event.Enters last.events events given := by
  cases h with
  | @broken last hdeals decoder inbox block =>
      exact ⟨_, last, [], List.prefix_rfl, hdeals,
        Act.Enters.sendBadRequest (last.withStream decoder inbox block)⟩
  | upTo hupTo =>
      cases hupTo with
      | @all last _ hdeals hevents =>
          exact ⟨_, last, [], List.prefix_rfl, hdeals, .of_eq (congrArg Event.marks hevents)⟩
      | halts hhalts =>
          cases hhalts with
          | @here before _ message last hbefore hstop decoder inbox block =>
              exact ⟨before, last, _, List.prefix_append before _, hbefore,
                stopAt_enters handle (last.withStream decoder inbox block) message⟩

/-- A part behind which the session goes on: the collector has advanced, and what it has handed
out is in the ledger. -/
theorem deal_advances (hopen : session.collector.isClosed = false)
    (hdeal : deal handle message session = .ok true after) :
    ∃ out?, session.collector.settings.Advances session.collector.phase message out?
        after.collector.phase ∧
      (session.collector.take (selectAll .request) message).1 = .ok out? ∧
      after.collector.settings = session.collector.settings ∧
      after.ledger = (session.ledger.note message).settle handle session.handler out? ∧
      ∀ whole, out? = some (.message whole) → whole.head.keepAlive = true := by
  have hsettings := Collector.take_settings (selectAll .request) session.collector message
  have hcollector := deal_collector hdeal
  rcases htake : session.collector.take (selectAll .request) message with ⟨result, collector⟩
  rw [htake] at hsettings hcollector
  rw [deal_eq htake] at hdeal
  obtain ⟨out?, rfl, hadvances⟩ := Collector.advances hopen htake (settle_goes hdeal)
  obtain ⟨hledger, hkeep⟩ := settle_ledger hdeal
  rw [noted_ledger] at hledger
  exact ⟨out?, hcollector ▸ hadvances, rfl, hcollector ▸ hsettings, hledger, hkeep⟩

end Session

end HttpFraming
