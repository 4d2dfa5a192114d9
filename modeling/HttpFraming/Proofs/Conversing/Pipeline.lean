import HttpFraming.Proofs.Conversing.Client
import HttpFraming.Proofs.Serving.Requests

/-!
# A client and a server in a pipeline

A client writes any number of requests, a session serves them and a client reads what the session
has written, with bytes cut anywhere on both ways. Each request is answered in its turn:
`Session.run_pipeline`.
-/

namespace HttpFraming

open Bytes

def Client.start (limits : Limits) (settings : ClientSettings) : Client where
  decoder := { limits }
  pairing := { settings }

theorem ClientPairing.awaiting_nil (settings : ClientSettings) :
    awaiting settings [] = { settings } := by
  simp [awaiting]

theorem turns_final {η : Type} {settings : CollectSettings} {handle : Handler η} {limits : Limits}
    {all : List (Parts .request)} {handler : η}
    (hproper : ∀ turn ∈ turns settings handle all handler, turn.IsProper limits) :
    ((turns settings handle all handler).filter fun turn => !turn.status.isInterim).map Turn.method =
      all.map (·.head.method) := by
  induction all generalizing handler with
  | nil => rfl
  | cons parts all ih =>
      rw [turns_cons, List.forall_mem_append] at hproper
      obtain ⟨final, hfor, _, hmethod, hfinal⟩ := turnsFor_isSound hproper.1
      have hasked : (asking settings parts.head).filter (fun turn => !turn.status.isInterim) = [] := by
        rw [List.filter_eq_nil_iff]
        intro turn hturn
        rw [hfor] at hproper
        simp [(asking_isSound (List.forall_mem_append.mp hproper.1).1 turn hturn).2.2]
      rw [turns_cons, List.filter_append, List.map_append, ih hproper.2, hfor, List.filter_append,
        hasked]
      simp [hfinal, hmethod]

theorem Client.encodeAll_requests {limits climits : Limits} {settings : ClientSettings}
    {all : List (Parts .request)} (hall : ∀ parts ∈ all, parts.IsReadable limits)
    (hencoded : ((start climits settings).encodeAll (all.flatMap Parts.messages)).error? = none) :
    (({} : Encoder).encodeAll (all.flatMap Parts.messages)).error? = none ∧
      (start climits settings).encodeAll (all.flatMap Parts.messages) =
        ⟨(({} : Encoder).encodeAll (all.flatMap Parts.messages)).output,
          (start climits settings).standing
            (⟨climits, .head⟩, .awaiting settings (all.map (·.head.method))), none⟩ := by
  obtain ⟨hencoder, hwritten⟩ :=
    @encodeAll_ok (start climits settings) rfl rfl (all.flatMap Parts.messages) hencoded
  refine ⟨hencoder, hwritten.trans ?_⟩
  have hidle := (Parts.takes_all all hall hencoder).2
  have hpairing := @ClientPairing.foldl_note_requests settings [] all
  rw [ClientPairing.awaiting_nil] at hpairing
  simp only [start, hidle, hpairing, standing, List.nil_append]

namespace Session

/-- The main statement: whatever the limit on bodies and whatever the handler, for as long as it
answers properly, a session that is run on the requests of a client, however they are read, ends
in order. It has handed the requests that were not refused to the handler, each in its turn. And
the client reads of each turn the response that was written in it, one final response for each
request, and stands as on a fresh connection. -/
theorem run_pipeline {η : Type} (handle : Handler η) (handler : η) (limits climits : Limits)
    (settings : CollectSettings) (hclose : settings.closeOnRefusal = false)
    (csettings : ClientSettings) (all : List (Parts .request))
    (hkept : ∀ parts ∈ all, parts.IsKept limits)
    (hproper : ∀ turn ∈ turns settings handle all handler, turn.IsProper climits)
    (hencoded : ((Client.start climits csettings).encodeAll
      (all.flatMap Parts.messages)).error? = none)
    (reads : List Bytes) (hreads : reads.flatten =
      ((Client.start climits csettings).encodeAll (all.flatMap Parts.messages)).output) :
    let taken := turns settings handle all handler
    let client := ((Client.start climits csettings).encodeAll (all.flatMap Parts.messages)).state
    ∃ session, run handle (reads.map .bytes) (start limits settings {} handler) = (.ok (), session) ∧
      Event.calls session.events = taken.flatMap Turn.calls ∧
      (taken.filter fun turn => !turn.status.isInterim).map Turn.method =
        all.map (·.head.method) ∧
      ∀ pieces : List Bytes, pieces.flatten = Event.output session.events →
        let arrived := Client.source.arrive client pieces true
        Message.join arrived.values = taken.flatMap Turn.received ∧ arrived.error? = none ∧
          arrived.rest = [] ∧ arrived.state = Client.start climits csettings := by
  intro taken client
  obtain ⟨hencoder, hwritten⟩ :=
    Client.encodeAll_requests (fun parts hmem => (hkept parts hmem).readable) hencoded
  rw [hwritten] at hreads
  have hfresh : (start limits settings {} handler).IsFresh settings limits :=
    ⟨⟨rfl, rfl, rfl, rfl, rfl, rfl⟩, rfl, rfl⟩
  obtain ⟨session, hrun, hcalls, houtput⟩ := @run_turns η handle _ settings limits climits hclose all
    hkept hencoder hproper reads hreads hfresh
  refine ⟨session, hrun, hcalls, turns_final hproper, fun pieces hpieces => ?_⟩
  have htakes := takes_turns csettings hproper
  rw [show taken.flatMap (·.encoded.output) = pieces.flatten from (hpieces.trans houtput).symm]
    at htakes
  have harrived := @Client.arrive_of_takes (Client.start climits csettings) rfl _ _ _ _ _ htakes
  rw [Turn.join_received, ClientPairing.awaiting_nil] at harrived
  obtain ⟨hvalues, herror, hstate, hrest⟩ := Drained.mk.inj harrived
  intro arrived
  have hsame : arrived = Client.source.arrive ((Client.start climits csettings).standing
      (⟨climits, .head⟩, .awaiting csettings (all.map (·.head.method)))) pieces true := by
    show Client.source.arrive client pieces true = _
    rw [show client = _ from congrArg Written.state hwritten]
  rw [hsame]
  exact ⟨hvalues, herror, hrest, hstate⟩

/-- Of three requests the second is refused: one whose body is asked for, one with a body that is
too large, and one that is answered without a body. -/
def mixedRequests : List (Parts .request) :=
  let post : Method := ⟨ascii "POST", by decide⟩
  let waits : Fields := (∅ : Fields).insert .expect ⟨ascii "100-continue", by decide⟩
  [{ head := { line := ⟨post, .root⟩, fields := waits.insert .contentLength (.ofNat 3) }
     tail := ascii "abc" },
   { head := { line := ⟨post, .root⟩, fields := (∅ : Fields).insert .transferEncoding .chunked }
     chunks := [ascii "ab", ascii "cde"] },
   { head := { line := ⟨.head, .root⟩ } }]

theorem mixedRequests_kept : ∀ parts ∈ mixedRequests, parts.IsKept {} := by
  have hline := Kind.keepsLine_root
  simp only [mixedRequests, List.forall_mem_cons]
  refine ⟨⟨⟨⟨_, rfl, hline _, ?_, ?_, ?_⟩, rfl, ⟨_, .length _ 3 rfl ?_ ?_ ?_⟩, fun h => ?_, ?_,
      Fields.empty_areTrailers⟩, rfl, ?_⟩,
    ⟨⟨⟨_, rfl, hline _, ?_, ?_, ?_⟩, rfl, ⟨_, .chunked ?_ ?_⟩, fun h => ?_, ?_,
      Fields.empty_areTrailers⟩, rfl, ?_⟩,
    ⟨⟨⟨_, rfl, hline _, ?_, ?_, ?_⟩, rfl, ⟨_, .empty rfl ?_ ?_⟩, fun h => rfl, ?_,
      Fields.empty_areTrailers⟩, rfl, ?_⟩, by simp⟩
  case refine_7 =>
    cases h with
    | empty _ _ hlength => exact absurd hlength (by decide +kernel)
  case refine_15 =>
    cases h with
    | empty _ hcoding _ => exact absurd hcoding (by decide +kernel)
  all_goals decide +kernel

/-- A handler that numbers its answers, and sends a body even where there will be none. -/
def numbering : Handler Nat := fun _ body n =>
  (.respond .ok ((∅ : Fields).insert .expect (.ofNat n)) (.whole (body ++ ascii "!")), n + 1)

/-- The cuts are inside the first head and inside the refused body, and the client reads the
responses in two pieces. -/
theorem run_pipeline_of_refusal :
    let written := (Client.start {} {}).encodeAll (mixedRequests.flatMap Parts.messages)
    let taken := turns { maxLength := 4 } numbering mixedRequests 0
    taken.map Turn.status = [.proceed, .ok, .payloadTooLarge, .ok] ∧
      ∃ session, run numbering ([written.output.take 5, (written.output.take 122).drop 5,
          written.output.drop 122].map .bytes) (start {} { maxLength := 4 } {} 0) =
            (.ok (), session) ∧
        Event.calls session.events = taken.flatMap Turn.calls ∧
        let arrived := Client.source.arrive written.state [(Event.output session.events).take 30,
          (Event.output session.events).drop 30] true
        Message.join arrived.values = taken.flatMap Turn.received ∧
          arrived.state = Client.start {} {} := by
  intro written taken
  have hproper : ∀ turn ∈ taken, turn.IsProper {} := by decide +kernel
  have hencoded : written.error? = none := by decide +kernel
  have hreads : [written.output.take 5, (written.output.take 122).drop 5,
      written.output.drop 122].flatten = written.output := by
    decide +kernel
  obtain ⟨session, hrun, hcalls, _, hclient⟩ := run_pipeline numbering 0 {} {} { maxLength := 4 } rfl
    {} mixedRequests mixedRequests_kept hproper hencoded _ hreads
  have hpieces : [(Event.output session.events).take 30,
      (Event.output session.events).drop 30].flatten = Event.output session.events := by
    simp
  obtain ⟨hvalues, _, _, hstate⟩ := hclient _ hpieces
  exact ⟨by decide +kernel, session, hrun, hcalls, hvalues, hstate⟩

end Session

end HttpFraming
