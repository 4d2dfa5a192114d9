import HttpFraming.Proofs.Collecting.Lockstep
import HttpFraming.Proofs.Serving.Speech

/-!
# Parts outside of a request

A session reports an error of its own if something other than a failure is forwarded to it. It
never does: its collector selects every request and stays in lockstep with the decoder, so that
nothing but failures passes. `Session.run_lockstep` says so beside what holds of any collector
behind a decoder.
-/

namespace HttpFraming

open Bytes

/-! ## Errors of writing -/

inductive HttpError.IsOfWriting : HttpError → Prop
  | refused (error : WriteError) : IsOfWriting (.write error)
  | outlet (text : String) : IsOfWriting (.read (.io text))

def Act.OnlyWrites (act : Act η α) : Prop :=
  ∀ session error after, act session = .error error after → error.IsOfWriting

namespace Act.OnlyWrites

variable {η α β : Type}

theorem pure (value : α) : OnlyWrites (Pure.pure value : Act η α) := by
  intro session error after herror
  cases herror

theorem bind {act : Act η α} {next : α → Act η β} (h : act.OnlyWrites)
    (hnext : ∀ value, (next value).OnlyWrites) : OnlyWrites (act >>= next) := by
  intro session error after herror
  rcases bind_error.mp herror with hact | ⟨value, middle, -, hthen⟩
  · exact h session error after hact
  · exact hnext value middle error after hthen

theorem flush : OnlyWrites (Session.flush : Act η Unit) := by
  intro session error after herror
  unfold Session.flush at herror
  split at herror
  · cases herror
  · dsimp only at herror
    split at herror <;> cases herror
    exact .outlet _

theorem write (encode : Server → Written Server) :
    OnlyWrites (Session.write encode : Act η Unit) := by
  intro session error after herror
  unfold Session.write at herror
  dsimp only at herror
  split at herror <;> cases herror
  exact .refused _

theorem of_total {act : Act η α} {value : Session η → α} {change : Session η → Session η}
    (hact : ∀ session, act session = .ok (value session) (change session)) : act.OnlyWrites := by
  intro session error after herror
  rw [hact session] at herror
  cases herror

theorem refuse (error : WriteError) : OnlyWrites (throw (.write error) : Act η α) := by
  intro session error' after herror
  cases herror
  exact .refused _

theorem coversBodies : CoversBodies (η := η) OnlyWrites where
  pure := pure
  bind := bind
  backlog := of_total fun _ => rfl
  flush := flush
  item _ := write _
  refuse := refuse

theorem coversResponses : CoversResponses (η := η) OnlyWrites :=
  have hplan (response : Response) : OnlyWrites (Session.plan response : Act η Response) :=
    of_total fun _ => rfl
  have hrecord (event : Event) : OnlyWrites (Session.record event : Act η Unit) :=
    of_total fun _ => rfl
  { coversBodies with
    header := fun response => coversBodies.feedHead (write _) (hplan response) fun _ => hrecord _
    whole := fun response => coversBodies.feedHead (write _) (hplan response) fun _ => hrecord _
    ask := fun _ _ _ => of_total fun _ => rfl }

/-- What a session does about anything that was collected, unless a part passes that is no
failure. -/
theorem respond (handle : Handler η) {collected : Collected .request}
    (hforward : ∀ message, collected = .forward message → message.isFailure = true) :
    OnlyWrites (Session.respond handle collected) := by
  apply coversResponses.respond
  intro message hmessage hsound
  rw [hforward message hmessage] at hsound
  cases hsound

end Act.OnlyWrites

/-! ## Sessions in lockstep -/

theorem Source.collect_keeps {source : Source σ (Message k)} {P : σ → Prop}
    (hpull : ∀ ended state bytes, P state → P (source.pull ended state bytes).state)
    (select : HeadRule k ρ) (ended : Bool) (state : σ) (collector : Collector k ρ) (bytes : Bytes)
    (h : P state) : P (source.collect select ended state collector bytes).state.1 := by
  fun_induction Source.collect source select ended state collector bytes with
  | case1 state collector bytes stopped error next rest hnext =>
      simpa [hnext] using hpull ended state bytes h
  | case2 state collector bytes stopped next rest hnext =>
      simpa [hnext] using hpull ended state bytes h
  | case3 state collector bytes message next rest hnext error collector' htake =>
      simpa [hnext] using hpull ended state bytes h
  | case4 state collector bytes message next rest hnext made collector' htake =>
      simpa [hnext] using hpull ended state bytes h
  | case5 state collector bytes message next rest hnext collector' htake ih =>
      exact ih (by simpa [hnext] using hpull ended state bytes h)

theorem Server.pull_upgraded (server : Server) (ended : Bool) (bytes : Bytes) :
    (server.pull ended bytes).state.upgraded = server.upgraded := by
  unfold Server.pull
  split
  · rfl
  · exact Server.noteMessage_upgraded _ _

/-- A rule that selects every message lets none pass. -/
theorem Inlet.not_passed {parts : List (Message k)} {out : List (Collected k)} :
    ¬ Inlet.Passed (selectAll k) parts out := by
  rintro ⟨front, earlier, h, chunks, rule, hdeclined, -⟩
  cases hdeclined

namespace Session

variable {η : Type} {handle : Handler η} {session : Session η}

/-- The error of a session to which something is forwarded that is no failure. -/
def outsideRequest : HttpError :=
  .read (.invalidBody .outsideRequest)

/-- The collector is in step with the decoder of a server that parses what it reads, and lets no
message pass. -/
structure Aligned (session : Session η) : Prop where
  parses : session.server.upgraded = false
  inStep : session.collector.phase.InStep session.server.decoder.phase
  selects : session.collector.phase ≠ .passing

theorem Aligned.pull (h : session.Aligned) (ended : Bool) :
    (session.pull ended).2.Aligned ∧ (session.pull ended).1 ≠ .error outsideRequest ∧
      ∀ message, (session.pull ended).1 = .ok (some (.forward message)) →
        message.isFailure = true := by
  have hfirst : Inlet.server.Lockstep (selectAll .request) session.server [] session.collector [] :=
    ⟨h.inStep, fun _ hpassing => absurd hpassing h.selects⟩
  obtain ⟨hkept, herror, hmay⟩ := @Inlet.Lockstep.ask _ _ _ _ (session.server, session.collector)
    _ _ hfirst Inlet.isSound_server ended session.inbox
  obtain ⟨hanswer, hstate, -⟩ := Server.source.collect_observed Block.note (selectAll .request)
    ended session.server session.block session.collector session.inbox
  have hpull : ∀ ended (server : Server) bytes, server.upgraded = false →
      (Server.source.pull ended server bytes).state.upgraded = false :=
    fun ended server bytes hparses => (server.pull_upgraded ended bytes).trans hparses
  have hparses := Source.collect_keeps hpull (selectAll .request) ended session.server
    session.collector session.inbox h.parses
  have hserver := congrArg Prod.fst hstate
  have hcollector := congrArg Prod.snd hstate
  rw [show (session.pull ended).1 = _ from hanswer]
  refine ⟨⟨?_, ?_, fun hpassing => ?_⟩, fun hsame => ?_, fun message hforward => ?_⟩
  · rw [show (session.pull ended).2.server = _ from hserver]
    exact hparses
  · rw [show (session.pull ended).2.server = _ from hserver,
      show (session.pull ended).2.collector = _ from hcollector]
    exact hkept.inStep
  · rw [show (session.pull ended).2.collector = _ from hcollector] at hpassing
    exact Inlet.not_passed (hkept.passed hparses hpassing)
  · cases herror _ hsame
  · obtain ⟨before, -, hmay⟩ := hmay message hforward
    cases hmay with
    | raw hraw data => exact Bool.noConfusion (hraw.symm.trans hparses)
    | failure failure => rfl
    | head h rule hdeclined => cases hdeclined
    | item item hpassed => exact absurd hpassed Inlet.not_passed

theorem Aligned.respond {collected : Collected .request} {after : Session η} {goes : Bool}
    (h : session.Aligned) (hrespond : Session.respond handle collected session = .ok goes after) :
    after.Aligned := by
  have hignores := Act.IgnoresInput.respond handle collected
  have hinput := hignores.input_eq hrespond
  have hdecoder : after.server.decoder = session.server.decoder := congrArg Input.decoder hinput
  have hcollector : after.collector = session.collector := congrArg Input.collector hinput
  refine ⟨(hignores session goes after hrespond).1.trans h.parses, ?_, ?_⟩
  · rw [hdecoder, hcollector]
    exact h.inStep
  · rw [hcollector]
    exact h.selects

/-- Serving has not come upon a part outside of a request, and where it waits all is in step. -/
def Sound (served : Pause × Session η) : Prop :=
  served.1 ≠ .failed outsideRequest ∧ (served.1 = .waiting → served.2.Aligned)

theorem Aligned.serveInbox (h : session.Aligned) (handle : Handler η) (ended : Bool) :
    Sound (Session.serveInbox handle ended session) := by
  fun_induction Session.serveInbox handle ended session with
  | case1 session error pulled hpull =>
      refine ⟨fun hsame => ?_, by simp⟩
      have herror := (h.pull ended).2.1
      rw [hpull] at herror
      exact herror (congrArg Except.error (Pause.failed.inj hsame))
  | case2 session pulled hpull =>
      have hpulled := (h.pull ended).1
      rw [hpull] at hpulled
      exact ⟨by simp, fun _ => hpulled⟩
  | case3 session collected pulled hpull error after hrespond =>
      refine ⟨fun hsame => ?_, by simp⟩
      have hforward := (h.pull ended).2.2
      rw [hpull] at hforward
      have hwriting := Act.OnlyWrites.respond handle
        (fun message hmessage => hforward message (by rw [hmessage])) pulled error after hrespond
      rw [Pause.failed.inj hsame] at hwriting
      cases hwriting
  | case4 session collected pulled hpull after hrespond => exact ⟨by simp, by simp⟩
  | case5 session collected pulled hpull after hrespond ih =>
      have hpulled := (h.pull ended).1
      rw [hpull] at hpulled
      exact ih (hpulled.respond hrespond)

theorem Aligned.receive (h : session.Aligned) (handle : Handler η) (data : Bytes) :
    Sound (Session.receive handle data session) := by
  fun_induction Session.receive handle data session with
  | case1 data session hempty => exact ⟨by simp, fun _ => h⟩
  | case2 data session hmore block piece inbox next hserved ih =>
      have hfilled : Aligned { session with inbox, block := block.fill piece.length } :=
        ⟨h.parses, h.inStep, h.selects⟩
      have hsound := hfilled.serveInbox handle false
      rw [hserved] at hsound
      exact ih (hsound.2 rfl)
  | case3 data session hmore block piece inbox stopped =>
      have hfilled : Aligned { session with inbox, block := block.fill piece.length } :=
        ⟨h.parses, h.inStep, h.selects⟩
      exact hfilled.serveInbox handle false

/-- Nothing but failures is forwarded to a session, whatever is read and however it fails. -/
theorem Aligned.run (h : session.Aligned) (handle : Handler η) (reads : List Read) :
    (Session.run handle reads session).1 ≠ .error outsideRequest := by
  induction reads generalizing session with
  | nil =>
      have hsound := h.serveInbox handle true
      rw [Session.run]
      split
      · rename_i error stop hserved
        rw [hserved] at hsound
        exact fun hsame => hsound.1 (congrArg Pause.failed (Except.error.inj hsame))
      · simp
  | cons read more ih =>
      cases read with
      | error text =>
          simp [Session.run, outsideRequest]
      | bytes data =>
          have hsound := h.receive handle data
          rw [Session.run]
          split
          · rename_i next hreceived
            rw [hreceived] at hsound
            exact ih (hsound.2 rfl)
          · simp
          · rename_i error stop hreceived
            rw [hreceived] at hsound
            exact fun hsame => hsound.1 (congrArg Pause.failed (Except.error.inj hsame))

/-- A collector and the decoder before it are in lockstep, whatever else the server or the client
that they are in does meanwhile: see `Inlet.Run.lockstep`. No session reports a part outside of a
request. -/
theorem run_lockstep :
    (∀ {k : Kind} {ρ : Type} (inlet : Inlet k) (select : HeadRule k ρ) (settings : CollectSettings)
      (rule : ρ) (first : inlet.State) (state : inlet.State × Collector k ρ) (bytes : Bytes)
      (parts : List (Message k)) (answers : List (Except HttpError (Option (Collected k)))),
      inlet.IsCodec → (inlet.decoder first).isIdle = true →
      inlet.Run select (first, ⟨settings, rule, .idle⟩) state bytes parts answers →
        (state.2.isClosed = false →
          (state.2.isIdle = true ↔ (inlet.decoder state.1).isIdle = true)) ∧
        (∀ error, .error error ∈ answers → error ≠ .collect .unexpectedHead) ∧
        ∀ ended item, ((inlet.source.collected select).pull ended state bytes).answer =
            .ok (some (.forward (.payload item))) →
          ∃ before, inlet.given select ended state bytes parts = before ++ [.payload item] ∧
            Inlet.Passed select before (answers.filterMap valueOf)) ∧
      ∀ {η : Type} (handle : Handler η) (limits : Limits) (settings : CollectSettings)
        (outlet : Outlet) (handler : η) (reads : List Read),
        (run handle reads (start limits settings outlet handler)).1 ≠
          .error (.read (.invalidBody .outsideRequest)) := by
  refine ⟨fun inlet select settings rule first state bytes parts answers hcodec hfirst hrun =>
    hrun.lockstep hcodec hfirst, fun handle limits settings outlet handler reads => ?_⟩
  have hstart : (start limits settings outlet handler).Aligned := ⟨rfl, .between, by simp [start]⟩
  exact hstart.run handle reads

/-- A server whose rule declines a request with a body of two bytes: behind its head the first
piece of the body passes, and within the body neither of the two is between messages. -/
theorem run_lockstep_of_declined_upload :
    let select : HeadRule .request Unit := fun _ _ => (false, ())
    let source := Server.source.collected select
    let upload : Request := {
      line := ⟨⟨ascii "POST", by decide⟩, .root⟩
      fields := .ofList [(.contentLength, .ofNat 2)] }
    let bytes := ascii "POST / HTTP/1.1\r\nContent-Length: 2\r\n\r\na"
    let first : Server × Collector .request Unit := ({}, ⟨{}, (), .idle⟩)
    let opened := source.pull false first bytes
    Inlet.server.Run select first opened.state opened.rest [.header upload] [opened.answer] ∧
      valueOf opened.answer = some (.forward (.header upload)) ∧
      (opened.state.2.isIdle = true ↔ opened.state.1.decoder.isIdle = true) ∧
      opened.state.1.decoder.isIdle = false ∧
      (source.pull false opened.state opened.rest).answer =
        .ok (some (.forward (.payload (.chunk (ascii "a"))))) ∧
      Inlet.Passed select [.header upload] [.forward (.header upload)] := by
  intro select source upload bytes first opened
  have hgiven : Inlet.server.given select false first bytes [] = [.header upload] := by
    decide +kernel
  have hrun : Inlet.server.Run select first opened.state opened.rest [.header upload]
      [opened.answer] := by
    rw [← hgiven]
    exact (Inlet.Run.start.feed bytes).ask false
  have hopened : valueOf opened.answer = some (.forward (.header upload)) := by decide +kernel
  have hpiece : (source.pull false opened.state opened.rest).answer =
      .ok (some (.forward (.payload (.chunk (ascii "a"))))) := by
    decide +kernel
  obtain ⟨hidle, -, hpassed⟩ := run_lockstep.1 Inlet.server select {} () ({} : Server) opened.state
    opened.rest [.header upload] [opened.answer] .server rfl hrun
  obtain ⟨before, hbefore, hpassed⟩ := hpassed false _ hpiece
  have hgiven' : Inlet.server.given select false opened.state opened.rest [.header upload] =
      [.header upload] ++ [.payload (.chunk (ascii "a"))] := by
    decide +kernel
  obtain ⟨rfl, -⟩ := List.append_inj' (hgiven'.symm.trans hbefore) rfl
  rw [List.filterMap_cons_some hopened] at hpassed
  exact ⟨hrun, hopened, hidle (by decide +kernel), by decide +kernel, hpiece, hpassed⟩

end Session

end HttpFraming
