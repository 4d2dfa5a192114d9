import HttpFraming.Proofs.Serving.Closing
import HttpFraming.Proofs.Serving.Delimiting
import HttpFraming.Proofs.Serving.Handing
import Mathlib.Data.List.Induction

/-!
# Whose response it is

A server takes a final response for the answer to the request that has waited longest. A session
sees to it that this is the request that it means: it reads a head only where no request is
unanswered, and so there is never more than one whose response is awaited. `Session.journal` lists
what a session does about the parts that it deals with, `Journal.InTurn` says that it comes in
turn, and `Journal.Paired` what follows for the responses. `Session.run_paired` is what this comes
to for a run.
-/

namespace HttpFraming

open Bytes

/-! ## Journals -/

/-- What a session enters in its ledger: a head that was read, a request that the handler is
given, a response that is begun. -/
inductive Entry
  | read (request : Request)
  | handed (request : Request) (body : Bytes)
  | begun (response : Response)

namespace Entry

def rejected : Entry :=
  .begun (Reply.refusal .badRequest true).head

def unanswered (request? : Option Request) : Entry → Option Request
  | read request => some request
  | handed .. => request?
  | begun response => if response.status.isInterim then request? else none

/-- A head is read where no request is unanswered, and the handler is given the one that is. -/
def IsDue (request? : Option Request) : Entry → Prop
  | read _ => request? = none
  | handed request _ => request?.map Head.method = some request.method
  | begun _ => True

end Entry

namespace Ledger

def enter (ledger : Ledger) : Entry → Ledger
  | .read request => ledger.note (.header request)
  | .handed request body => ledger.handle request body
  | .begun response => ledger.answer response

def enterAll (ledger : Ledger) (entries : List Entry) : Ledger :=
  entries.foldl enter ledger

theorem enterAll_append (ledger : Ledger) (entries more : List Entry) :
    ledger.enterAll (entries ++ more) = (ledger.enterAll entries).enterAll more :=
  List.foldl_append ..

def blank : Ledger :=
  ⟨[], {}⟩

def of (journal : List Entry) : Ledger :=
  blank.enterAll journal

theorem of_append (journal more : List Entry) : of (journal ++ more) = (of journal).enterAll more :=
  blank.enterAll_append journal more

theorem of_concat (journal : List Entry) (entry : Entry) :
    of (journal ++ [entry]) = (of journal).enter entry :=
  of_append journal [entry]

/-- These are the marks that are left of the entries, or of the first of them. -/
def Shows (ledger : Ledger) (entries : List Entry) (marks : List Event) : Prop :=
  ∃ made, made <+: entries ∧ marks = (ledger.enterAll made).marks

namespace Shows

theorem none (ledger : Ledger) (entries : List Entry) : ledger.Shows entries ledger.marks :=
  ⟨[], List.nil_prefix, rfl⟩

theorem all (ledger : Ledger) (entries : List Entry) :
    ledger.Shows entries (ledger.enterAll entries).marks :=
  ⟨entries, List.prefix_rfl, rfl⟩

theorem behind {ledger : Ledger} {earlier entries : List Entry} {marks : List Event}
    (h : (ledger.enterAll earlier).Shows entries marks) :
    ledger.Shows (earlier ++ entries) marks := by
  obtain ⟨made, hmade, rfl⟩ := h
  exact ⟨earlier ++ made, (List.prefix_append_right_inj earlier).mpr hmade,
    by rw [enterAll_append]⟩

end Shows

/-- With an entry that is due, the method of the request that is unanswered waits. -/
theorem methods_enter {ledger : Ledger} {request? : Option Request} {entry : Entry}
    (h : ledger.pairing.pending.methods = request?.toList.map Head.method)
    (hdue : entry.IsDue request?) :
    (ledger.enter entry).pairing.pending.methods =
      (entry.unanswered request?).toList.map Head.method := by
  cases entry with
  | read request =>
      cases hdue
      simp [enter, note, ServerPairing.requestHead, Pending.push, h, Entry.unanswered]
  | handed request body => exact h
  | begun response =>
      cases hinterim : response.status.isInterim with
      | true =>
          simp [enter, answer, ServerPairing.responseHead, Pending.answer, hinterim, h,
            Entry.unanswered]
      | false =>
          have htail : (request?.toList.map Head.method).tail = [] := by cases request? <;> rfl
          simp [enter, answer, ServerPairing.responseHead, Pending.answer, hinterim, h, htail,
            Entry.unanswered]

/-- Whether a response is written without a body, whatever its head announces. -/
def ForcesEmpty (ledger : Ledger) (response : Response) : Prop :=
  (ledger.pairing.responseHead response).1.forced? = some .empty

theorem forcesEmpty_iff {ledger : Ledger} {method : Method} {response : Response}
    (hmethods : ledger.pairing.pending.methods = [method])
    (hfinal : response.status.isInformational = false) :
    ledger.ForcesEmpty response ↔ method = .head ∨
      method = .connect ∧ response.status.isSuccess = true ∨
      response.status = .noContent ∨ response.status = .notModified := by
  have hanswer : (ledger.pairing.pending.answer response.status).1 = some method := by
    rw [Pending.answer, hmethods]
    split <;> rfl
  have hforced : ledger.ForcesEmpty response ↔
      response.status.isBodilessFor (some method) = true := by
    simp [ForcesEmpty, ServerPairing.responseHead, hanswer]
  rw [hforced]
  simp only [Status.isBodilessFor, Status.isBodiless, Status.opensTunnel, hfinal, Bool.false_or,
    Bool.or_eq_true, Bool.and_eq_true, beq_iff_eq, Option.some.injEq]
  tauto

end Ledger

namespace Journal

variable {journal front : List Entry} {entry : Entry}

/-- The last request that was read, unless a response has been begun since that is not interim. -/
def unanswered (journal : List Entry) : Option Request :=
  journal.foldl Entry.unanswered none

theorem unanswered_concat (journal : List Entry) (entry : Entry) :
    unanswered (journal ++ [entry]) = entry.unanswered (unanswered journal) :=
  List.foldl_append ..

def InTurn (journal : List Entry) : Prop :=
  ∀ front entry, front ++ [entry] <+: journal → entry.IsDue (unanswered front)

namespace InTurn

theorem nil : InTurn [] := by
  intro front entry hfront
  simp at hfront

theorem of_prefix (h : InTurn journal) (hfront : front <+: journal) : InTurn front :=
  fun earlier entry hearlier => h earlier entry (hearlier.trans hfront)

theorem concat (h : InTurn journal) (hdue : entry.IsDue (unanswered journal)) :
    InTurn (journal ++ [entry]) := by
  intro front last hfront
  rcases List.prefix_concat_iff.mp hfront with hsame | hearlier
  · obtain ⟨rfl, hlast⟩ := List.append_inj' hsame rfl
    rwa [List.singleton_inj.mp hlast]
  · exact h front last hearlier

theorem begun (h : InTurn journal) (response : Response) : InTurn (journal ++ [.begun response]) :=
  h.concat trivial

/-- The method of the request that is unanswered waits, and no other. -/
theorem methods (h : InTurn journal) :
    (Ledger.of journal).pairing.pending.methods = (unanswered journal).toList.map Head.method := by
  induction journal using List.reverseRecOn with
  | nil => rfl
  | append_singleton journal entry ih =>
      rw [Ledger.of_concat, unanswered_concat]
      exact Ledger.methods_enter (ih (h.of_prefix (List.prefix_append ..)))
        (h journal entry List.prefix_rfl)

end InTurn

/-- The responses of a journal go with its requests. -/
structure Paired (journal : List Entry) : Prop where
  inTurn : InTurn journal
  /-- At every moment one method waits at most. -/
  bounded : ∀ front, front <+: journal → (Ledger.of front).pairing.pending.size ≤ 1
  /-- It is that of the request that is unanswered. -/
  waiting : ∀ front, front <+: journal →
    (Ledger.of front).pairing.pending.methods = (unanswered front).toList.map Head.method
  /-- An interim response does not take it. -/
  interim : ∀ front response, front ++ [.begun response] <+: journal →
    response.status.isInterim = true →
      (Ledger.of (front ++ [.begun response])).pairing = (Ledger.of front).pairing
  /-- A final response does, and its body goes by it. -/
  final : ∀ front response request, front ++ [.begun response] <+: journal →
    response.status.isInformational = false → unanswered front = some request →
      (Ledger.of front).pairing.pending.methods = [request.method] ∧
      (Ledger.of (front ++ [.begun response])).pairing.pending.methods = [] ∧
      ((Ledger.of front).ForcesEmpty response ↔ request.method = .head ∨
        request.method = .connect ∧ response.status.isSuccess = true ∨
        response.status = .noContent ∨ response.status = .notModified)

theorem InTurn.paired (h : InTurn journal) : Paired journal where
  inTurn := h
  bounded front hfront := by
    rw [Pending.size, (h.of_prefix hfront).methods]
    cases unanswered front <;> simp
  waiting front hfront := (h.of_prefix hfront).methods
  interim front response _ hinterim := by
    simp [Ledger.of_concat, Ledger.enter, Ledger.answer, ServerPairing.responseHead,
      Pending.answer, hinterim]
  final front response request hfront hfinal hrequest := by
    have hmethods := (h.of_prefix ((List.prefix_append ..).trans hfront)).methods
    rw [hrequest] at hmethods
    have hbehind := (h.of_prefix hfront).methods
    have hinterim : response.status.isInterim = false := by simp [Status.isInterim, hfinal]
    rw [unanswered_concat, Entry.unanswered, hinterim] at hbehind
    exact ⟨hmethods, hbehind, Ledger.forcesEmpty_iff hmethods hfinal⟩

end Journal

/-! ## The journal of a session -/

def Message.entries : Message .request → List Entry
  | .header h => [.read h]
  | _ => []

theorem Ledger.note_eq (ledger : Ledger) (message : Message .request) :
    ledger.note message = ledger.enterAll message.entries := by
  cases message <;> rfl

/-- What is entered about what a collector makes of a part. An error is answered too. -/
def Collected.entries (handle : Handler η) (handler : η) :
    Except CollectError (Option (Collected .request)) → List Entry
  | .error _ => [.rejected]
  | .ok none => []
  | .ok (some (.reply given)) => [.begun given.head]
  | .ok (some (.message whole)) =>
      if whole.failure?.isSome then [.rejected]
      else [.handed whole.head whole.body,
        .begun ((handle whole.head whole.body handler).1.responseTo whole.head)]
  | .ok (some (.forward (.failure _))) => [.rejected]
  | .ok (some (.forward _)) => []

namespace Session

def entries (handle : Handler η) (session : Session η) (message : Message .request) : List Entry :=
  message.entries ++ Collected.entries handle session.handler
    (session.collector.take (selectAll .request) message).1

def journal (handle : Handler η) (session : Session η) : List (Message .request) → List Entry
  | [] => []
  | message :: more => session.entries handle message ++
      journal handle ((deal handle message).after session) more

end Session

namespace Act

variable {η α β : Type}

/-- From here the act makes these entries. If it fails, it makes the first of them. -/
structure Makes (act : Act η α) (session : Session η) (entries : List Entry) : Prop where
  ok : ∀ {value after}, act session = .ok value after →
    after.ledger = session.ledger.enterAll entries
  marks : session.ledger.Shows entries (act.after session).ledger.marks

namespace Makes

variable {session : Session η}

theorem of_silent {act : Act η α} (h : act.IsSilent) (session : Session η) :
    act.Makes session [] where
  ok {value after} hok := by
    have hsilent := h session
    rwa [after_of_ok hok] at hsilent
  marks := by
    rw [h session]
    exact .none session.ledger []

theorem of_begins {act : Act η α} {response : Response} (h : act.Begins response)
    (session : Session η) : act.Makes session [.begun response] where
  ok hok := h.ok hok
  marks := by
    rcases h.marks session with hsame | hbegun
    · rw [hsame]
      exact .none session.ledger _
    · rw [hbegun]
      exact .all session.ledger _

theorem sendBadRequest (session : Session η) :
    (Session.sendBadRequest : Act η Unit).Makes session [.rejected] :=
  of_begins (.sendHead _) session

theorem throw (error : HttpError) (entries : List Entry) :
    Makes (MonadExcept.throw error : Act η α) session entries where
  ok hok := nomatch hok
  marks := .none session.ledger entries

/-- What the handler is given is entered before the answer. -/
theorem ask {handle : Handler η} {request : Request} {body : Bytes} {next : Answer → Act η β}
    {response : Response} (hnext : (next (handle request body session.handler).1).Begins response) :
    Makes (Session.ask handle request body >>= next) session
      [.handed request body, .begun response] := by
  have hask : Session.ask handle request body session =
    .ok (handle request body session.handler).1 { session with
      handler := (handle request body session.handler).2
      events := session.events ++ [.handled request body] } := rfl
  have hasked : Session.ledger { session with
      handler := (handle request body session.handler).2
      events := session.events ++ [.handled request body] } =
        session.ledger.handle request body := by
    simp [Session.ledger, Ledger.handle, Event.marks]
  refine ⟨fun {value after} hok => ?_, ?_⟩
  · obtain ⟨answer, asked, hsame, hthen⟩ := bind_ok.mp hok
    cases hask.symm.trans hsame
    rw [hnext.ok hthen, hasked]
    rfl
  · rw [after_bind_of_ok hask]
    have hbehind := (of_begins hnext { session with
      handler := (handle request body session.handler).2
      events := session.events ++ [.handled request body] }).marks
    rw [hasked] at hbehind
    exact @Ledger.Shows.behind session.ledger [.handed request body] _ _ hbehind

theorem respond (handle : Handler η) (collected : Collected .request) (session : Session η) :
    (Session.respond handle collected).Makes session
      (Collected.entries handle session.handler (.ok (some collected))) := by
  have hbad : (Session.sendBadRequest >>= fun _ => Pure.pure false : Act η Bool).Makes session
      [.rejected] := of_begins ((Begins.sendHead _).bind fun _ => .pure false) session
  cases collected with
  | reply reply => exact of_begins ((Begins.sendHead _).bind fun _ => .pure _) session
  | message whole =>
      cases hfailure : whole.failure? with
      | some cause =>
          simp only [Session.respond, Collected.entries, hfailure, Option.isSome_some, if_true]
          exact hbad
      | none =>
          simp only [Session.respond, Collected.entries, hfailure, Option.isSome_none,
            Bool.false_eq_true, if_false]
          exact ask ((Begins.sendResponse _ _ _).bind fun _ => .pure _)
  | forward message =>
      cases message with
      | failure failure => exact hbad
      | header h => exact throw _ _
      | payload item => exact throw _ _
      | raw data => exact throw _ _

end Makes

end Act

namespace Session

variable {η : Type} {handle : Handler η} {session middle after : Session η}
  {journal : List Entry} {message : Message .request}

theorem settle_makes (handle : Handler η)
    (result : Except CollectError (Option (Collected .request))) (session : Session η) :
    (settle handle result).Makes session (Collected.entries handle session.handler result) := by
  rcases result with error | _ | collected
  · exact .throw _ _
  · exact .of_silent (.pure true) session
  · exact .respond handle collected session

theorem deal_makes (handle : Handler η) (session : Session η) (message : Message .request) :
    (deal handle message).Makes session (session.entries handle message) := by
  rcases htake : session.collector.take (selectAll .request) message with ⟨result, collector⟩
  obtain ⟨hok, hmarks⟩ := settle_makes handle result { session with
    server := session.server.noteMessage (some message)
    collector }
  rw [noted_ledger, Ledger.note_eq] at hmarks
  rw [entries, htake]
  refine ⟨fun {value after} hdeal => ?_, ?_⟩
  · rw [deal_eq htake] at hdeal
    rw [hok hdeal, noted_ledger, Ledger.note_eq, Ledger.enterAll_append]
  · rw [Act.after, deal_eq htake]
    exact hmarks.behind

/-- With the part at which a session stops it makes no other entries. -/
theorem stopAt_shows (handle : Handler η) (session : Session η) (message : Message .request) :
    session.ledger.Shows (session.entries handle message)
      (stopAt handle message session).ledger.marks := by
  rcases htake : session.collector.take (selectAll .request) message with ⟨result, collector⟩
  cases result with
  | ok out? =>
      have hmarks := (deal_makes handle session message).marks
      simpa only [stopAt, htake] using hmarks
  | error error =>
      have hmarks := (Act.Makes.sendBadRequest { session with
        server := session.server.noteMessage (some message)
        collector }).marks
      rw [noted_ledger, Ledger.note_eq] at hmarks
      rw [entries, htake]
      simp only [stopAt, htake]
      exact hmarks.behind

theorem journal_append {before : List (Message .request)} (h : Deals handle session before middle)
    (more : List (Message .request)) :
    session.journal handle (before ++ more) =
      session.journal handle before ++ middle.journal handle more := by
  induction h with
  | nil session => rfl
  | cons hdeal _ ih =>
      simp only [List.cons_append, Session.journal, Act.after_of_ok hdeal, ih, List.append_assoc]

end Session

/-! ## Sessions that keep to their turn -/

namespace CollectSettings.Advances

variable {settings : CollectSettings} {phase next : CollectPhase .request}
  {message : Message .request} {out? : Option (Collected .request)}

theorem idle_of_header (h : settings.Advances phase message out? next)
    (hheader : message.isHeader = true) : phase = .idle := by
  cases h with
  | accept head hsupported => rfl
  | refuse head hrefusal hinspect => rfl
  | _ => cases hheader

theorem methods_of_message {whole : WholeMessage .request}
    (h : settings.Advances phase message out? next) (hout : out? = some (.message whole)) :
    phase.methods = [whole.head.method] ∧ message.entries = [] := by
  cases h with
  | accept head hsupported => split at hout <;> cases hout
  | finish head content awaited data trailers hroom =>
      cases hout
      exact ⟨rfl, rfl⟩
  | _ => cases hout

end CollectSettings.Advances

namespace Session

variable {η : Type} {handle : Handler η} {session middle after : Session η}
  {journal : List Entry} {message : Message .request}

/-- The session has come here by these entries, each of them due, and may go on. -/
structure Journaled (handle : Handler η) (session : Session η) (journal : List Entry) : Prop where
  ledger : session.ledger = Ledger.of journal
  inTurn : Journal.InTurn journal
  keeps : session.Keeps handle

namespace Journaled

theorem methods (h : session.Journaled handle journal) :
    (Journal.unanswered journal).toList.map Head.method = session.collector.phase.methods := by
  rw [← h.inTurn.methods, ← h.ledger, h.keeps.ledger.pairing]

/-- A head is due between messages. What is handed out is the request that was collected. -/
theorem inTurn_entries (h : session.Journaled handle journal)
    (hidle : message.isHeader = true → session.collector.phase = .idle) :
    Journal.InTurn (journal ++ session.entries handle message) := by
  have hmethods := h.methods
  have hread : Journal.InTurn (journal ++ message.entries) := by
    cases message with
    | header head =>
        rw [hidle rfl] at hmethods
        have hnone : Journal.unanswered journal = none := by
          simpa [CollectPhase.methods] using hmethods
        exact h.inTurn.concat hnone
    | _ => simpa [Message.entries] using h.inTurn
  rw [Session.entries, ← List.append_assoc]
  rcases htake : session.collector.take (selectAll .request) message with ⟨result, collector⟩
  rcases result with error | _ | whole | part | reply
  · exact hread.begun _
  · simpa [Collected.entries] using hread
  · cases hfailure : whole.failure? with
    | some cause =>
        simp only [Collected.entries, hfailure, Option.isSome_some, if_true]
        exact hread.begun _
    | none =>
        have hgoes : goesOn (.ok (some (.message whole))) = true := by simp [goesOn, hfailure]
        obtain ⟨out?, hout, hadvances⟩ := Collector.advances h.keeps.isOpen htake hgoes
        cases hout
        obtain ⟨hmethod, hnothing⟩ := hadvances.methods_of_message rfl
        rw [hmethod] at hmethods
        have hdue : (Journal.unanswered journal).map Head.method = some whole.head.method := by
          cases hwaits : Journal.unanswered journal <;> simp_all
        rw [hnothing, List.append_nil] at hread ⊢
        simp only [Collected.entries, hfailure, Option.isSome_none, Bool.false_eq_true, if_false]
        have hhanded : Journal.InTurn (journal ++ [.handed whole.head whole.body]) :=
          h.inTurn.concat hdue
        simpa using hhanded.begun _
  · cases part with
    | failure failure => exact hread.begun _
    | _ => simpa [Collected.entries] using hread
  · exact hread.begun _

section

variable (hfinal : ∀ request body handler,
  (handle request body handler).1.status.isInformational = false)

include hfinal

theorem deal (h : session.Journaled handle journal)
    (hdeal : Session.deal handle message session = .ok true after) :
    after.Journaled handle (journal ++ session.entries handle message) where
  ledger := by
    rw [(deal_makes handle session message).ok hdeal, h.ledger, Ledger.of_append]
  inTurn := by
    obtain ⟨out?, hadvances, -⟩ := deal_advances h.keeps.isOpen hdeal
    exact h.inTurn_entries hadvances.idle_of_header
  keeps := h.keeps.deal hfinal hdeal

theorem deals {messages : List (Message .request)} (h : session.Journaled handle journal)
    (hdeals : Deals handle session messages after) :
    after.Journaled handle (journal ++ session.journal handle messages) := by
  induction hdeals generalizing journal with
  | nil session => simpa [Session.journal] using h
  | cons hdeal _ ih =>
      have hmore := ih (h.deal hfinal hdeal)
      rwa [List.append_assoc, ← Act.after_of_ok hdeal] at hmore

end

theorem withStream (h : session.Journaled handle journal) (decoder : Decoder .request)
    (inbox : Bytes) (block : Block) :
    (session.withStream decoder inbox block).Journaled handle journal :=
  ⟨h.ledger, h.inTurn, h.keeps.isOpen, h.keeps.ledger⟩

theorem size_le_one (h : session.Journaled handle journal) :
    session.server.pairing.pending.size ≤ 1 := by
  have hbounded := h.inTurn.paired.bounded journal List.prefix_rfl
  rwa [← h.ledger] at hbounded

theorem methods_of_idle (h : session.Journaled handle journal)
    (hidle : session.collector.phase = .idle) : session.server.pairing.pending.methods = [] := by
  have hpairing : session.server.pairing = ⟨⟨session.collector.phase.methods⟩⟩ :=
    h.keeps.ledger.pairing
  rw [hpairing, hidle]
  rfl

end Journaled

end Session

/-! ## Between messages -/

theorem CollectPhase.Follows.eq_idle {settings : CollectSettings} {phase : CollectPhase .request}
    {tail : List (Message .request)} (h : phase.Follows settings tail) (hnil : tail = []) :
    phase = .idle := by
  cases h with
  | idle => rfl
  | collecting h chunks => simp [Message.opened] at hnil
  | dropping h chunks => simp [Message.opened] at hnil

theorem Decoder.Gives.shown {decoder next : Decoder k} {messages tail : List (Message k)}
    {complete : List (Parts k)} (h : decoder.Gives [] next)
    (hshown : decoder.Shown messages complete tail) : next.Shown messages complete tail := by
  generalize hnone : ([] : List (Message k)) = none at h
  induction h with
  | nil decoder => exact hshown
  | waits hwaits _ ih => exact ih (hshown.waits hwaits) hnone
  | hands => cases hnone

namespace Session

variable {η : Type} {handle : Handler η}

namespace Tracks

variable {settings : CollectSettings} {session : Session η} {decoder last : Decoder .request}
  {messages tail : List (Message .request)} {complete : List (Parts .request)}

theorem idle (h : session.Tracks settings decoder messages complete tail)
    (hgives : decoder.Gives [] last) (hidle : last.isIdle = true) :
    session.collector.phase = .idle :=
  h.follows.eq_idle ((hgives.shown h.shown).idle.mp hidle)

theorem idle_of_header (h : session.Tracks settings decoder messages complete tail)
    {message : Message .request} {more : List (Message .request)}
    (hgives : decoder.Gives (message :: more) last) (hheader : message.isHeader = true) :
    session.collector.phase = .idle := by
  obtain ⟨reached, next, hshown, hands, -⟩ := hgives.cons_shown h.shown
  cases hands with
  | header head reader hphase => exact h.follows.eq_idle (hshown.nil_of_head hphase)
  | payload item => cases hheader
  | failure failure => cases hheader

end Tracks

theorem gives_of_delivered (session : Session η) (cuts : List Bytes) :
    session.server.decoder.Gives (session.delivered cuts).values (session.delivered cuts).state.1 :=
  Decoder.gives_of_deliver (statusRule .request) (session.server.decoder, ()) session.inbox cuts

theorem gives_of_decoded (session : Session η) (cuts : List Bytes) (ended : Bool) :
    ∃ last, session.server.decoder.Gives (session.decoded cuts ended) last := by
  have hdelivered := session.gives_of_delivered cuts
  cases ended with
  | true => exact ⟨_, hdelivered.trans (Decoder.gives_of_drain _ true _ _)⟩
  | false => exact ⟨_, hdelivered⟩

/-! ## Runs -/

/-- The journal of a session that has dealt with these parts, by which time these events have
happened. A read that fails is answered at the end. -/
structure IsJournal (handle : Handler η) (first : Session η) (dealt : List (Message .request))
    (events : List Event) (journal : List Entry) : Prop where
  split : journal = first.journal handle dealt ∨
    journal = first.journal handle dealt ++ [.rejected]
  /-- Between two parts the ledger has the entries for those before. -/
  between : ∀ before middle, Deals handle first before middle →
    middle.ledger = Ledger.of (first.journal handle before)
  /-- What is left to see are the entries, but for the last of them if writing fails. -/
  seen : Ledger.blank.Shows journal (Event.marks events)

section

variable (hfinal : ∀ request body handler,
  (handle request body handler).1.status.isInformational = false)

include hfinal

theorem Serves.isJournal {settings : CollectSettings} {first : Session η}
    {decoder last : Decoder .request} {messages dealt : List (Message .request)}
    {events : List Event} (h : Serves handle first messages dealt events)
    (hfirst : first.Journaled handle []) (htracks : first.Tracks settings decoder [] [] [])
    (hgives : decoder.Gives messages last) :
    ∃ journal, IsJournal handle first dealt events journal ∧ Journal.InTurn journal := by
  have hbetween : ∀ before middle, Deals handle first before middle →
      middle.ledger = Ledger.of (first.journal handle before) :=
    fun before middle hdeals => (hfirst.deals hfinal hdeals).ledger
  cases h with
  | @broken after hdeals decoder' inbox block =>
      have hafter := (hfirst.deals hfinal hdeals).withStream decoder' inbox block
      have hmarks := (Act.Makes.sendBadRequest (after.withStream decoder' inbox block)).marks
      rw [hafter.ledger] at hmarks
      have hinTurn : Journal.InTurn (first.journal handle messages ++ [.rejected]) :=
        hafter.inTurn.begun _
      exact ⟨_, ⟨.inr rfl, hbetween, hmarks.behind⟩, hinTurn⟩
  | upTo hupTo =>
      cases hupTo with
      | @all after _ hdeals hevents =>
          have hafter := hfirst.deals hfinal hdeals
          have hmarks : Event.marks events = (Ledger.of (first.journal handle messages)).marks := by
            rw [hevents]
            exact congrArg Ledger.marks hafter.ledger
          refine ⟨_, ⟨.inl rfl, hbetween, ?_⟩, hafter.inTurn⟩
          rw [hmarks]
          exact .all Ledger.blank _
      | halts hhalts =>
          cases hhalts with
          | @here before later message middle hbefore hstop decoder' inbox block =>
              have hmiddle := (hfirst.deals hfinal hbefore).withStream decoder' inbox block
              obtain ⟨next, complete, tail, htracked, hgives⟩ := htracks.deals hbefore hgives
              have hidle := htracked.idle_of_header hgives
              have hall : first.journal handle (before ++ [message]) =
                  first.journal handle before ++
                    (middle.withStream decoder' inbox block).entries handle message := by
                rw [journal_append hbefore]
                exact congrArg _ (List.append_nil _)
              have hmarks := stopAt_shows handle (middle.withStream decoder' inbox block) message
              rw [hmiddle.ledger] at hmarks
              refine ⟨_, ⟨.inl rfl, hbetween, ?_⟩, ?_⟩
              · rw [hall]
                exact hmarks.behind
              · rw [hall]
                exact hmiddle.inTurn_entries hidle

/-- Whatever is read and however it fails, the server takes each response for the answer to the
request to which the session writes it. The journal of the run is in turn: one method waits at most,
and a final response takes that of the request that is unanswered. Where the next thing to be
decoded is a head, none waits. -/
theorem run_paired (limits : Limits) (settings : CollectSettings) (outlet : Outlet) (handler : η)
    (reads : List Read) :
    let first := start limits settings outlet handler
    let stop := (run handle reads first).2
    (∃ cuts dealt journal, cuts.flatten = (Read.arriving reads).flatten ∧
      Serves handle first (first.decoded cuts (Read.comeToEnd reads)) dealt stop.events ∧
      IsJournal handle first dealt stop.events journal ∧ Journal.Paired journal) ∧
    (∀ before middle decoder, first.server.decoder.Gives before decoder →
      decoder.isIdle = true → Deals handle first before middle →
        middle.server.pairing.pending.methods = []) ∧
    ((∃ result stop, ∀ more, run handle (reads ++ more) first = (result, stop)) ∨
      ∃ middle, (∀ more, run handle (reads ++ more) first = run handle more middle) ∧
        middle.server.pairing.pending.size ≤ 1 ∧
        (middle.server.decoder.isIdle = true → middle.server.pairing.pending.methods = [])) := by
  intro first stop
  have hkeeps : first.Keeps handle := ⟨rfl, rfl, fun before response after hnone => by
    simp [first, ledger, start, Event.marks] at hnone⟩
  have hfirst : first.Journaled handle [] := ⟨rfl, .nil, hkeeps⟩
  have htracks := Tracks.start limits settings outlet handler
  have hempty : ∀ before middle decoder, first.server.decoder.Gives before decoder →
      decoder.isIdle = true → Deals handle first before middle →
        middle.server.pairing.pending.methods = [] := by
    intro before middle decoder hgives hidle hdeals
    obtain ⟨next, complete, tail, htracked, hrest⟩ :=
      htracks.deals hdeals ((List.append_nil before).symm ▸ hgives)
    exact (hfirst.deals hfinal hdeals).methods_of_idle (htracked.idle hrest hidle)
  refine ⟨?_, hempty, ?_⟩
  · obtain ⟨cuts, dealt, hcuts, hserves⟩ := run_serves handle first rfl reads
    obtain ⟨last, hgives⟩ := first.gives_of_decoded cuts (Read.comeToEnd reads)
    obtain ⟨journal, hjournal, hinTurn⟩ := hserves.isJournal hfinal hfirst htracks hgives
    exact ⟨cuts, dealt, journal, hcuts, hserves, hjournal, hinTurn.paired⟩
  · rcases run_append_cases handle first rfl reads with ⟨middle, hdealt, hrun⟩ | hended
    · obtain ⟨cuts, last, block, -, hdeals, rfl⟩ := hdealt
      have hlast := (hfirst.deals hfinal hdeals).withStream (first.delivered cuts).state.1
        (first.delivered cuts).rest block
      refine .inr ⟨_, hrun, hlast.size_le_one, fun hidle => ?_⟩
      exact hempty _ last _ (first.gives_of_delivered cuts) hidle hdeals
    · exact .inl hended

end

/-- Two requests in one read. Only the answer to the second is written with its body. -/
theorem run_paired_of_head_and_get :
    let handle : Handler Unit := fun _ _ state => (.respond .ok ∅ (.whole (ascii "ab")), state)
    let reads : List Read := [.bytes (ascii "HEAD / HTTP/1.1\r\n\r\nGET / HTTP/1.1\r\n\r\n")]
    let first := start {} {} {} ()
    let stop := (run handle reads first).2
    (∀ request body state, (handle request body state).1.status.isInformational = false) ∧
      Event.output stop.events = ascii
        ("HTTP/1.1 200 OK\r\ncontent-length: 2\r\n\r\n" ++
          "HTTP/1.1 200 OK\r\ncontent-length: 2\r\n\r\nab") ∧
      ∃ cuts dealt journal, cuts.flatten = (Read.arriving reads).flatten ∧
        Serves handle first (first.decoded cuts (Read.comeToEnd reads)) dealt stop.events ∧
        IsJournal handle first dealt stop.events journal ∧ Journal.Paired journal := by
  intro handle reads first stop
  have hfinal : ∀ request body state,
      (handle request body state).1.status.isInformational = false := fun _ _ _ => rfl
  exact ⟨hfinal, by decide +kernel, (run_paired hfinal {} {} {} () reads).1⟩

end Session

end HttpFraming
