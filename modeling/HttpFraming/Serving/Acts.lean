import HttpFraming.Serving.Session

/-!
# Properties of acts

All that a session does about what was collected is put together from a few acts: the outbox
is written out, the server writes to it, an event is recorded, the handler is asked. A property
that is kept by putting acts together holds of the whole if it holds of these:
`Act.CoversResponses.respond`. The first such property is `Act.IgnoresInput`, that an act that
succeeds does so whatever there is to read.
-/

namespace HttpFraming

namespace Act

variable {η α β : Type} {act : Act η α} {next : α → Act η β} {session middle after : Session η}

/-! ## One act behind another -/

theorem bind_ok {value : β} : (act >>= next) session = .ok value after ↔
    ∃ first middle, act session = .ok first middle ∧ next first middle = .ok value after := by
  show EStateM.bind act next session = .ok value after ↔ _
  unfold EStateM.bind
  cases hact : act session with
  | ok first middle =>
      constructor
      · intro h
        exact ⟨first, middle, rfl, h⟩
      · intro ⟨value', after', hfirst, hnext⟩
        cases hfirst
        exact hnext
  | error error middle => simp

theorem bind_error {error : HttpError} : (act >>= next) session = .error error after ↔
    act session = .error error after ∨ ∃ first middle,
      act session = .ok first middle ∧ next first middle = .error error after := by
  show EStateM.bind act next session = .error error after ↔ _
  unfold EStateM.bind
  cases hact : act session with
  | ok first middle =>
      constructor
      · intro h
        exact .inr ⟨first, middle, rfl, h⟩
      · intro h
        cases h with
        | inl hfirst => cases hfirst
        | inr hthen =>
            obtain ⟨value, middle', hfirst, hnext⟩ := hthen
            cases hfirst
            exact hnext
  | error error' middle => simp

theorem after_of_ok {value : α} (h : act session = .ok value after) :
    act.after session = after := by
  rw [Act.after, h]

theorem after_of_error {error : HttpError} (h : act session = .error error after) :
    act.after session = after := by
  rw [Act.after, h]

theorem after_bind_of_ok {value : α} (h : act session = .ok value middle) :
    Act.after (act >>= next) session = (next value).after middle := by
  cases hnext : next value middle with
  | ok value' last => rw [after_of_ok hnext, after_of_ok (bind_ok.mpr ⟨value, middle, h, hnext⟩)]
  | error error last =>
      rw [after_of_error hnext, after_of_error (bind_error.mpr (.inr ⟨value, middle, h, hnext⟩))]

theorem after_bind_of_error {error : HttpError} (h : act session = .error error after) :
    Act.after (act >>= next) session = act.after session := by
  rw [after_of_error h, after_of_error (bind_error.mpr (.inl h))]

/-! ## Properties of all acts -/

/-- Putting acts together keeps the property. -/
structure Composes (P : {α : Type} → Act η α → Prop) : Prop where
  pure {α : Type} (value : α) : P (Pure.pure value : Act η α)
  bind {α β : Type} {act : Act η α} {next : α → Act η β} :
    P act → (∀ value, P (next value)) → P (act >>= next)

/-- And the acts by which a body is written have it. -/
structure CoversBodies (P : {α : Type} → Act η α → Prop) : Prop extends Composes P where
  backlog : P Session.backlog
  flush : P Session.flush
  item (item : Item) : P (Session.write (·.encode (.payload item)))
  refuse (error : WriteError) : P (throw (.write error) : Act η Unit)

/-- And so have those by which a response is made and begun. -/
structure CoversResponses (P : {α : Type} → Act η α → Prop) : Prop extends CoversBodies P where
  header (response : Response) : P (Session.feedHead (·.encode (.header response)) response)
  whole (response : Response) : P (Session.feedHead (·.encodeWhole response) response)
  ask (handle : Handler η) (request : Request) (body : Bytes) :
    P (Session.ask handle request body)

variable {P : {α : Type} → Act η α → Prop}

namespace CoversBodies

variable (h : CoversBodies P)

include h

theorem relieve : P (Session.relieve : Act η Unit) := by
  apply h.bind h.backlog
  intro length
  split
  · exact h.flush
  · exact h.pure ()

theorem sendItem (item : Item) : P (Session.sendItem item) :=
  h.bind h.relieve fun _ => h.bind (h.item item) fun _ => h.flush

theorem sendFrames (frames : List Frame) (trailers : Fields) :
    P (Session.sendFrames frames trailers) := by
  induction frames generalizing trailers with
  | nil => exact h.sendItem _
  | cons frame more ih =>
      cases frame with
      | data data => exact h.bind (h.sendItem _) fun _ => ih trailers
      | trailers fields => exact ih _
      | error text => exact h.refuse _

theorem feedHead {encode : Server → Written Server} (hwrite : P (Session.write encode))
    {response : Response} (hplan : P (Session.plan response))
    (hrecord : ∀ planned, P (Session.record (.answered planned))) :
    P (Session.feedHead encode response) :=
  h.bind h.relieve fun _ => h.bind hplan fun _ => h.bind hwrite fun _ => hrecord _

end CoversBodies

namespace CoversResponses

variable (h : CoversResponses P)

include h

theorem sendHead (response : Response) : P (Session.sendHead response) :=
  h.bind (h.whole response) fun _ => h.flush

theorem sendResponse (answer : Answer) (keepAlive : Bool) (version : Version) :
    P (Session.sendResponse answer keepAlive version) := by
  cases answer with
  | respond status fields body => exact h.bind (h.header _) fun _ => h.sendFrames _ _
  | failed => exact h.bind (h.header _) fun _ => h.sendFrames _ _

/-- A part that is forwarded and is no failure is a mistake of the session itself. -/
theorem respond (handle : Handler η) {collected : Collected .request}
    (hforward : ∀ message, collected = .forward message → message.isFailure = false →
      P (throw (.read (.invalidBody .outsideRequest)) : Act η Bool)) :
    P (Session.respond handle collected) := by
  have hbad : P (Session.sendBadRequest >>= fun _ => Pure.pure false : Act η Bool) :=
    h.bind (h.sendHead _) fun _ => h.pure false
  cases collected with
  | reply reply => exact h.bind (h.sendHead _) fun _ => h.pure _
  | message whole =>
      unfold Session.respond
      dsimp only
      split
      · exact hbad
      · apply h.bind (h.ask handle _ _)
        intro answer
        exact h.bind (h.sendResponse answer _ _) fun _ => h.pure _
  | forward message =>
      cases message with
      | failure failure => exact hbad
      | header head => exact hforward _ rfl rfl
      | payload item => exact hforward _ rfl rfl
      | raw data => exact hforward _ rfl rfl

end CoversResponses

/-! ## What writing leaves -/

/-- Whether it fails or not, writing out changes the outbox, and no more than the bytes that were
taken has happened. -/
theorem after_flush (session : Session η) :
    (Act.after Session.flush session).server = session.server ∧
      ((Act.after Session.flush session).events = session.events ∨
        ∃ data, (Act.after Session.flush session).events = session.events ++ [.wrote data]) := by
  unfold Act.after Session.flush
  by_cases hempty : session.outbox.isEmpty = true
  · simp [hempty]
  · by_cases hleft : (session.outlet.accept session.outbox).2.1.isEmpty = true
    · by_cases htaken : (session.outlet.accept session.outbox).1.isEmpty = true
      · simp [hempty, hleft, htaken]
      · simp [hempty, hleft, htaken]
    · by_cases htaken : (session.outlet.accept session.outbox).1.isEmpty = true
      · simp [hempty, hleft, htaken]
      · simp [hempty, hleft, htaken]

theorem after_write (encode : Server → Written Server) (session : Session η) :
    (Act.after (Session.write encode) session).events = session.events ∧
      (Act.after (Session.write encode) session).server = (encode session.server).state := by
  unfold Act.after Session.write
  cases herror : (encode session.server).error? <;> simp [herror]

end Act

/-! ## Acts and the input -/

structure Input where
  decoder : Decoder .request
  collector : Collector .request Unit
  inbox : Bytes
  block : Block

namespace Session

def withInput (session : Session η) (input : Input) : Session η :=
  { session with
    server := { session.server with decoder := input.decoder }
    collector := input.collector
    inbox := input.inbox
    block := input.block }

def input (session : Session η) : Input :=
  ⟨session.server.decoder, session.collector, session.inbox, session.block⟩

@[simp] theorem withInput_input (session : Session η) : session.withInput session.input = session :=
  rfl

@[simp] theorem input_withInput (session : Session η) (input : Input) :
    (session.withInput input).input = input :=
  rfl

end Session

/-- An act that succeeds does so whatever there is to read, and leaves that as it is. -/
def Act.IgnoresInput (act : Act η α) : Prop :=
  ∀ session value after, act session = .ok value after →
    after.server.upgraded = session.server.upgraded ∧
      ∀ input, act (session.withInput input) = .ok value (after.withInput input)

namespace Act.IgnoresInput

variable {η α β : Type}

theorem input_eq {act : Act η α} (h : act.IgnoresInput) {session after : Session η} {value : α}
    (hok : act session = .ok value after) : after.input = session.input := by
  have hsame := (h session value after hok).2 session.input
  rw [Session.withInput_input, hok] at hsame
  have hafter : after = after.withInput session.input := by injection hsame
  rw [hafter, Session.input_withInput]

theorem pure (value : α) : IgnoresInput (Pure.pure value : Act η α) := by
  intro session result after h
  cases h
  exact ⟨rfl, fun _ => rfl⟩

theorem throw (error : HttpError) : IgnoresInput (MonadExcept.throw error : Act η α) := by
  intro session result after h
  cases h

theorem bind {act : Act η α} {next : α → Act η β} (h : act.IgnoresInput)
    (hnext : ∀ value, (next value).IgnoresInput) : IgnoresInput (act >>= next) := by
  intro session result after hok
  obtain ⟨value, middle, hfirst, hsecond⟩ := bind_ok.mp hok
  have hact := h session value middle hfirst
  have hthen := hnext value middle result after hsecond
  refine ⟨hthen.1.trans hact.1, fun input => ?_⟩
  exact bind_ok.mpr ⟨value, middle.withInput input, hact.2 input, hthen.2 input⟩

theorem flush : IgnoresInput (Session.flush : Act η Unit) := by
  intro session result after h
  unfold Session.flush at h
  by_cases hempty : session.outbox.isEmpty = true
  · simp only [hempty, if_true, EStateM.Result.ok.injEq, true_and] at h
    subst h
    exact ⟨rfl, fun input => by simp [Session.flush, Session.withInput, hempty]⟩
  · by_cases hleft : (session.outlet.accept session.outbox).2.1.isEmpty = true
    · simp only [hempty, hleft, if_true, Bool.false_eq_true, if_false, EStateM.Result.ok.injEq,
        true_and] at h
      subst h
      exact ⟨rfl, fun input => by simp [Session.flush, Session.withInput, hempty, hleft]⟩
    · simp [hempty, hleft] at h

theorem write {encode : Server → Written Server} (hencode : Server.IgnoresInput encode) :
    IgnoresInput (Session.write encode : Act η Unit) := by
  intro session result after h
  unfold Session.write at h
  cases herror : (encode session.server).error? with
  | some error => simp [herror] at h
  | none =>
      simp only [herror, EStateM.Result.ok.injEq, true_and] at h
      subst h
      refine ⟨hencode.upgraded session.server, fun input => ?_⟩
      have hstep := hencode.decoder session.server input.decoder
      simp only [Session.write, Session.withInput, hstep, Written.map, herror]

theorem of_total {act : Act η α} {value : Session η → α} {change : Session η → Session η}
    (hact : ∀ session, act session = .ok (value session) (change session))
    (hupgraded : ∀ session, (change session).server.upgraded = session.server.upgraded)
    (hinput : ∀ session input, act (session.withInput input) =
      .ok (value session) ((change session).withInput input)) : act.IgnoresInput := by
  intro session result after h
  rw [hact session] at h
  cases h
  exact ⟨hupgraded session, hinput session⟩

theorem coversBodies : CoversBodies (η := η) IgnoresInput where
  pure := pure
  bind := bind
  backlog := of_total (fun _ => rfl) (fun _ => rfl) fun _ _ => rfl
  flush := flush
  item _ := write (Server.ignoresInput_encode _)
  refuse _ := throw _

theorem coversResponses : CoversResponses (η := η) IgnoresInput :=
  have hplan (response : Response) : IgnoresInput (Session.plan response : Act η Response) :=
    of_total (fun _ => rfl) (fun _ => rfl) fun _ _ => rfl
  have hrecord (event : Event) : IgnoresInput (Session.record event : Act η Unit) :=
    of_total (fun _ => rfl) (fun _ => rfl) fun _ _ => rfl
  { coversBodies with
    header := fun response =>
      coversBodies.feedHead (write (Server.ignoresInput_encode _)) (hplan response)
        fun _ => hrecord _
    whole := fun response =>
      coversBodies.feedHead (write (Server.ignoresInput_encodeWhole _)) (hplan response)
        fun _ => hrecord _
    ask := fun _ _ _ => of_total (fun _ => rfl) (fun _ => rfl) fun _ _ => rfl }

theorem respond (handle : Handler η) (collected : Collected .request) :
    IgnoresInput (Session.respond handle collected) :=
  coversResponses.respond handle fun _ _ _ => throw _

end Act.IgnoresInput

end HttpFraming
