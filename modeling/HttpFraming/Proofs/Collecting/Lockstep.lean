import HttpFraming.Endpoint.Server
import HttpFraming.Proofs.Collecting.Forwarding
import HttpFraming.Proofs.Collecting.Oversize
import HttpFraming.Proofs.Pairing.Refusals

/-!
# A collector in lockstep with its decoder

However bytes arrive, whatever is written meanwhile and even if the connection is upgraded within a
message: a collector and the decoder before it agree on whether a message is under way, for as long
as the collector is open. So it never gives up because of a head within a message, and it forwards
a piece of a body only behind the head and the other pieces of the same message:
`Inlet.Run.lockstep`.
-/

namespace HttpFraming

/-! ## What reads with a decoder -/

theorem Client.encode_readsRaw {client : Client} (message : Message .request)
    (hraw : client.readsRaw = true) : (client.encode message).state.readsRaw = true := by
  have htunnel : client.pairing.tunnel = true →
      (client.encode message).state.pairing.tunnel = true := by
    intro htunnel
    rw [encode_of_passes (by simp [passes, htunnel]), htunnel]
  obtain ⟨encoder, pairing, hkeeps⟩ := client.encode_keeps message
  rw [hkeeps] at htunnel ⊢
  simp only [readsRaw, Bool.or_eq_true, Bool.and_eq_true] at hraw ⊢
  exact hraw.imp_right (And.imp_left htunnel)

/-- Something that reads: a source of message parts with the decoder in it, whether bytes are read
as they are, and what else may happen to its state between two questions. -/
structure Inlet (k : Kind) where
  State : Type
  source : Source State (Message k)
  decoder : State → Decoder k
  readsRaw : State → Bool
  Moves : State → State → Prop

namespace Inlet

variable {k : Kind} {ρ : Type}

def ofDecoder (ask : HeadRule k ρ) : Inlet k where
  State := Decoder k × ρ
  source := Decoder.source ask
  decoder := Prod.fst
  readsRaw _ := false
  Moves _ _ := False

def server : Inlet .request where
  State := Server
  source := Server.source
  decoder := Server.decoder
  readsRaw := Server.upgraded
  Moves server next := (∃ message, next = (server.encode message).state) ∨
    (∃ response, next = (server.encodeWhole response).state) ∨ next = server.upgrade

def client : Inlet .response where
  State := Client
  source := Client.source
  decoder := Client.decoder
  readsRaw := Client.readsRaw
  Moves client next := (∃ message, next = (client.encode message).state) ∨
    next = client.prepareUpgrade ∨ next = client.upgrade

inductive IsCodec : ∀ {k : Kind}, Inlet k → Prop
  | decoder {k : Kind} {ρ : Type} (ask : HeadRule k ρ) : IsCodec (ofDecoder ask)
  | server : IsCodec server
  | client : IsCodec client

/-- Raw bytes are read for good and past the decoder; all else the decoder reads. The source itself
fails only for missing responses, and what happens between two questions leaves the decoder
alone. -/
structure IsSound (inlet : Inlet k) : Prop where
  raw : ∀ {state} (ended : Bool) (bytes : Bytes), inlet.readsRaw state = true →
    inlet.readsRaw (inlet.source.pull ended state bytes).state = true ∧
      inlet.decoder (inlet.source.pull ended state bytes).state = inlet.decoder state ∧
      ∃ data? : Option Bytes, valueOf (inlet.source.pull ended state bytes).answer = data?.map .raw
  parses : ∀ {state} (ended : Bool) (bytes : Bytes), inlet.readsRaw state = false →
    ∃ (ρ : Type) (ask : HeadRule k ρ) (rule rule' : ρ) (rest : Bytes),
      (inlet.decoder state).decode ask ended rule bytes =
        ⟨valueOf (inlet.source.pull ended state bytes).answer,
          inlet.decoder (inlet.source.pull ended state bytes).state, rule', rest⟩
  fails : ∀ {ended state bytes error}, (inlet.source.pull ended state bytes).answer = .error error →
    ∃ missing, error = .exchange missing
  moves : ∀ {state next}, inlet.Moves state next → inlet.decoder next = inlet.decoder state ∧
    (inlet.readsRaw state = true → inlet.readsRaw next = true)

theorem isSound_ofDecoder (ask : HeadRule k ρ) : (ofDecoder ask).IsSound where
  raw := nofun
  parses {state} _ _ _ := ⟨ρ, ask, state.2, _, _, rfl⟩
  fails := nofun
  moves := nofun

theorem isSound_server : server.IsSound where
  raw {state} ended bytes hraw := by
    have hpull : Server.pull ended state bytes = ⟨.ok (Message.takeRaw bytes), state, []⟩ :=
      if_pos hraw
    simp only [server, Server.source, hpull]
    refine ⟨hraw, trivial, ?_⟩
    cases bytes with
    | nil => exact ⟨none, rfl⟩
    | cons b more => exact ⟨some (b :: more), rfl⟩
  parses {state} ended bytes hraw := by
    rcases hdecode : state.decoder.decode (statusRule .request) ended () bytes with
      ⟨message?, decoder, rule, rest⟩
    have hpull : Server.pull ended state bytes =
        ⟨.ok message?, { state with decoder }.noteMessage message?, rest⟩ := by
      simp [Server.pull, show state.upgraded = false from hraw, hdecode]
    refine ⟨Unit, statusRule .request, (), rule, rest, ?_⟩
    simp only [server, Server.source, hpull, Server.noteMessage_decoder, valueOf]
    exact hdecode
  fails {ended state bytes error} hfails := by
    simp only [server, Server.source, Server.pull] at hfails
    split at hfails <;> cases hfails
  moves := by
    rintro state _ (⟨message, rfl⟩ | ⟨response, rfl⟩ | rfl)
    · have hignores := Server.ignoresInput_encode message
      exact ⟨hignores.decoder_eq state, (hignores.upgraded state).trans⟩
    · have hignores := Server.ignoresInput_encodeWhole response
      exact ⟨hignores.decoder_eq state, (hignores.upgraded state).trans⟩
    · exact ⟨rfl, fun _ => rfl⟩

theorem isSound_client : client.IsSound where
  raw ended bytes hraw := Client.pull_of_readsRaw hraw ended bytes
  parses ended bytes hraw := by
    obtain ⟨pairing, rest, hdecode⟩ := Client.pull_of_parsing hraw ended bytes
    exact ⟨ClientPairing, Client.bodilessRule, _, pairing, rest, hdecode⟩
  fails {ended state bytes error} hfails := by
    rcases hpull : Client.source.pull ended state bytes with ⟨answer, next, rest⟩
    rw [show client.source = Client.source from rfl, hpull] at hfails
    subst hfails
    exact Client.pull_error hpull
  moves := by
    rintro state _ (⟨message, rfl⟩ | rfl | rfl)
    · obtain ⟨encoder, pairing, hkeeps⟩ := state.encode_keeps message
      have hdecoder : (Client.encode state message).state.decoder = Client.decoder state := by
        rw [hkeeps]
      exact ⟨hdecoder, Client.encode_readsRaw message⟩
    · exact ⟨rfl, id⟩
    · exact ⟨rfl, fun _ => rfl⟩

theorem IsCodec.isSound {inlet : Inlet k} (h : inlet.IsCodec) : inlet.IsSound := by
  cases h with
  | decoder ask => exact isSound_ofDecoder ask
  | server => exact isSound_server
  | client => exact isSound_client

/-! ## Questions through a collector -/

/-- The errors with which a question is answered: responses are missing, or the collector gives up,
but not because of a head within a message. -/
inductive Orderly : HttpError → Prop
  | missing (error : ExchangeError) : Orderly (.exchange error)
  | givenUp {error : CollectError} (herror : error ≠ .unexpectedHead) : Orderly (.collect error)

def watched (inlet : Inlet k) : Source (inlet.State × List (Message k)) (Message k) :=
  inlet.source.observed fun _ _ pulled parts => parts ++ (valueOf pulled.answer).toList

/-- The last parts are the front of a message that the rule has declined, and they are what was
handed out last. -/
def Passed (select : HeadRule k ρ) (parts : List (Message k)) (out : List (Collected k)) : Prop :=
  ∃ front earlier h chunks rule, (select h rule).1 = false ∧
    parts = front ++ Message.opened h chunks ∧
    out = earlier ++ (Message.opened h chunks).map .forward

/-- What may be forwarded behind these parts, and where that was handed out: raw bytes where they
are read, failures, declined heads, and pieces of messages that pass. -/
inductive MayForward (select : HeadRule k ρ) (raw : Bool) (parts : List (Message k))
    (out : List (Collected k)) : Message k → Prop
  | raw (hraw : raw = true) (data : Bytes) : MayForward select raw parts out (.raw data)
  | failure (failure : Failure k) : MayForward select raw parts out (.failure failure)
  | head (h : Head k) (rule : ρ) (hdeclined : (select h rule).1 = false) :
      MayForward select raw parts out (.header h)
  | item (item : Item) (hpassed : Passed select parts out) :
      MayForward select raw parts out (.payload item)

/-- What is forwarded with one part: if the message goes on to pass, its front has been handed out
to its last piece. -/
theorem Passed.forwards {select : HeadRule k ρ} {rule : ρ} {phase next : CollectPhase k}
    {message : Message k} {result : Except CollectError (Option (Collected k))}
    {parts : List (Message k)} {out : List (Collected k)} (raw : Bool)
    (hpassed : phase = .passing → Passed select parts out)
    (h : select.Forwards rule phase message result next) :
    (next = .passing →
        Passed select (parts ++ [message]) (out ++ result.toOption.join.toList)) ∧
      result ≠ .error .unexpectedHead ∧
      ∀ passing, result = .ok (some (.forward passing)) →
        passing = message ∧ MayForward select raw parts out message := by
  cases h with
  | head h hdeclined =>
      refine ⟨fun _ => ⟨parts, out, h, [], rule, hdeclined, rfl, rfl⟩, by simp, ?_⟩
      rintro _ ⟨⟩
      exact ⟨rfl, .head h rule hdeclined⟩
  | item item =>
      have hfront := hpassed rfl
      refine ⟨fun hnext => ?_, by simp, ?_⟩
      · cases item with
        | last data trailers => cases hnext
        | chunk data =>
            obtain ⟨front, earlier, h, chunks, rule, hdeclined, rfl, rfl⟩ := hfront
            refine ⟨front, earlier, h, chunks ++ [data], rule, hdeclined, ?_, ?_⟩
            · rw [List.append_assoc, Message.opened_append_chunk]
            · rw [← Message.opened_append_chunk, List.map_append, List.append_assoc]
              rfl
      · rintro _ ⟨⟩
        exact ⟨rfl, .item item hfront⟩
  | failure phase failure =>
      refine ⟨by simp, by simp, ?_⟩
      rintro _ ⟨⟩
      exact ⟨rfl, .failure failure⟩
  | nothing hquiet hnext =>
      refine ⟨?_, ?_, ?_⟩
      · rintro rfl
        cases hnext
      · rintro rfl
        cases hquiet
      · rintro passing rfl
        cases hquiet

/-- The collector is in step with the decoder, and if it lets a message pass, that is the one whose
front was handed out. -/
structure Lockstep (inlet : Inlet k) (select : HeadRule k ρ) (state : inlet.State)
    (parts : List (Message k)) (collector : Collector k ρ) (out : List (Collected k)) : Prop where
  inStep : collector.phase.InStep (inlet.decoder state).phase
  passed : inlet.readsRaw state = false → collector.phase = .passing → Passed select parts out

namespace Lockstep

variable {inlet : Inlet k} {select : HeadRule k ρ} {state next : inlet.State × List (Message k)}
  {collector : Collector k ρ} {out : List (Collected k)} {ended : Bool} {bytes rest : Bytes}

theorem of_no_message (h : inlet.Lockstep select state.1 state.2 collector out)
    (hsound : inlet.IsSound) {answer : Except HttpError (Option (Message k))}
    (hpull : inlet.watched.pull ended state bytes = ⟨answer, next, rest⟩)
    (hnone : valueOf answer = none) :
    inlet.Lockstep select next.1 next.2 (if ended then collector.close else collector) out := by
  have hanswer : (inlet.source.pull ended state.1 bytes).answer = answer :=
    congrArg Pull.answer hpull
  have hnext : (inlet.source.pull ended state.1 bytes).state = next.1 :=
    congrArg (fun pulled => pulled.state.1) hpull
  have hparts : state.2 = next.2 := by
    have haccount : state.2 ++ (valueOf (inlet.source.pull ended state.1 bytes).answer).toList =
      next.2 := congrArg (fun pulled => pulled.state.2) hpull
    rwa [hanswer, hnone, Option.toList_none, List.append_nil] at haccount
  have hkept : inlet.Lockstep select next.1 next.2 collector out := by
    rw [← hparts, ← hnext]
    cases hraw : inlet.readsRaw state.1 with
    | true =>
        obtain ⟨hstays, hdecoder, -⟩ := hsound.raw ended bytes hraw
        exact ⟨hdecoder ▸ h.inStep, fun hparses => absurd hstays (by simp [hparses])⟩
    | false =>
        obtain ⟨_, ask, rule, rule', left, hdecode⟩ := hsound.parses ended bytes hraw
        rw [hanswer, hnone] at hdecode
        exact ⟨h.inStep.waits (Decoder.waits_of_decode hdecode), fun _ => h.passed hraw⟩
  cases ended with
  | true => exact ⟨.closed _, fun _ hpassing => by cases hpassing⟩
  | false => exact hkept

theorem of_message (h : inlet.Lockstep select state.1 state.2 collector out)
    (hsound : inlet.IsSound) {message : Message k}
    (hpull : inlet.watched.pull ended state bytes = ⟨.ok (some message), next, rest⟩) :
    let taken := collector.take select message
    next.2 = state.2 ++ [message] ∧
      inlet.Lockstep select next.1 next.2 taken.2 (out ++ taken.1.toOption.join.toList) ∧
      taken.1 ≠ .error .unexpectedHead ∧
      ∀ passing, taken.1 = .ok (some (.forward passing)) →
        passing = message ∧ MayForward select (inlet.readsRaw next.1) state.2 out message := by
  intro taken
  have hanswer : valueOf (inlet.source.pull ended state.1 bytes).answer = some message :=
    congrArg valueOf (congrArg Pull.answer hpull)
  have hnext : (inlet.source.pull ended state.1 bytes).state = next.1 :=
    congrArg (fun pulled => pulled.state.1) hpull
  have hparts : next.2 = state.2 ++ [message] := by
    have haccount : state.2 ++ (valueOf (inlet.source.pull ended state.1 bytes).answer).toList =
      next.2 := congrArg (fun pulled => pulled.state.2) hpull
    rw [← haccount, hanswer, Option.toList_some]
  refine ⟨hparts, ?_⟩
  rw [hparts, ← hnext]
  cases hraw : inlet.readsRaw state.1 with
  | true =>
      obtain ⟨hstays, hdecoder, data?, hdata⟩ := hsound.raw ended bytes hraw
      rw [hanswer] at hdata
      obtain ⟨data, -, rfl⟩ := Option.map_eq_some_iff.mp hdata.symm
      have htaken : taken.2 = collector ∧ taken.1 ≠ .error .unexpectedHead ∧
          ∀ passing, taken.1 = .ok (some (.forward passing)) → passing = .raw data := by
        simp only [taken, Collector.take]
        split
        · exact ⟨rfl, by simp, by simp⟩
        · exact ⟨rfl, by simp, fun passing hpassing => by cases hpassing; rfl⟩
      obtain ⟨hsame, herror, hpassing⟩ := htaken
      refine ⟨⟨?_, fun hparses => absurd hstays (by simp [hparses])⟩, herror, fun passing hforward =>
        ⟨hpassing passing hforward, .raw hstays data⟩⟩
      rw [hdecoder, hsame]
      exact h.inStep
  | false =>
      obtain ⟨_, ask, rule, rule', left, hdecode⟩ := hsound.parses ended bytes hraw
      rw [hanswer] at hdecode
      obtain ⟨hstep, hforwards⟩ := Collector.take_inStep select h.inStep
        (Decoder.hands_of_decode hdecode) (Decoder.allows_of_decode hdecode)
      obtain ⟨hpasses, hmay⟩ := Passed.forwards
        (inlet.readsRaw (inlet.source.pull ended state.1 bytes).state) (h.passed hraw) hforwards
      exact ⟨⟨hstep, fun _ => hpasses⟩, hmay⟩

/-- One question keeps the two in step. -/
theorem collect (h : inlet.Lockstep select state.1 state.2 collector out) (hsound : inlet.IsSound)
    (ended : Bool) (bytes : Bytes) :
    let pulled := inlet.watched.collect select ended state collector bytes
    inlet.Lockstep select pulled.state.1.1 pulled.state.1.2 pulled.state.2
        (out ++ (valueOf pulled.answer).toList) ∧
      (∀ error, pulled.answer = .error error → Orderly error) ∧
      ∀ message, pulled.answer = .ok (some (.forward message)) →
        ∃ parts, pulled.state.1.2 = parts ++ [message] ∧
          MayForward select (inlet.readsRaw pulled.state.1.1) parts out message := by
  fun_induction Source.collect inlet.watched select ended state collector bytes with
  | case1 state collector bytes stopped error next rest hpull =>
      have hkept := h.of_no_message hsound hpull rfl
      rw [← List.append_nil out] at hkept
      refine ⟨hkept, ?_, by simp⟩
      rintro _ ⟨⟩
      obtain ⟨missing, rfl⟩ := hsound.fails (congrArg Pull.answer hpull)
      exact .missing missing
  | case2 state collector bytes stopped next rest hpull =>
      have hkept := h.of_no_message hsound hpull rfl
      rw [← List.append_nil out] at hkept
      exact ⟨hkept, by simp, by simp⟩
  | case3 state collector bytes message next rest hpull error collector' htake =>
      obtain ⟨-, hkept, herror, -⟩ := h.of_message hsound hpull
      rw [htake] at hkept herror
      refine ⟨hkept, ?_, by simp⟩
      rintro _ ⟨⟩
      exact .givenUp fun hsame => herror (congrArg Except.error hsame)
  | case4 state collector bytes message next rest hpull made collector' htake =>
      obtain ⟨hparts, hkept, -, hmay⟩ := h.of_message hsound hpull
      rw [htake] at hkept hmay
      refine ⟨hkept, by simp, ?_⟩
      rintro passing ⟨⟩
      obtain ⟨rfl, hmay⟩ := hmay passing rfl
      exact ⟨state.2, hparts, hmay⟩
  | case5 state collector bytes message next rest hpull collector' htake ih =>
      obtain ⟨-, hkept, -⟩ := h.of_message hsound hpull
      rw [htake] at hkept
      have hnothing : out ++ (Except.ok none : Except CollectError
        (Option (Collected k))).toOption.join.toList = out := List.append_nil out
      rw [hnothing] at hkept
      exact ih hkept

end Lockstep

theorem filterMap_valueOf_concat {α : Type} (answers : List (Except HttpError (Option α)))
    (answer : Except HttpError (Option α)) :
    (answers ++ [answer]).filterMap valueOf =
      answers.filterMap valueOf ++ (valueOf answer).toList := by
  rw [List.filterMap_append]
  cases hvalue : valueOf answer <;> simp [hvalue]

def given (inlet : Inlet k) (select : HeadRule k ρ) (ended : Bool)
    (state : inlet.State × Collector k ρ) (bytes : Bytes) (parts : List (Message k)) :
    List (Message k) :=
  (inlet.watched.collect select ended (state.1, parts) state.2 bytes).state.1.2

/-- Feeding a source with a collector behind it, asking it, and whatever else may happen to it, in
any order: the state, the bytes that wait, the parts that the collector was given, and the
answers. -/
inductive Run (inlet : Inlet k) (select : HeadRule k ρ) (first : inlet.State × Collector k ρ) :
    inlet.State × Collector k ρ → Bytes → List (Message k) →
      List (Except HttpError (Option (Collected k))) → Prop
  | start : Run inlet select first first [] [] []
  | feed {state : inlet.State × Collector k ρ} {bytes : Bytes} {parts : List (Message k)}
      {answers : List (Except HttpError (Option (Collected k)))}
      (hrun : Run inlet select first state bytes parts answers) (piece : Bytes) :
      Run inlet select first state (bytes ++ piece) parts answers
  | ask {state : inlet.State × Collector k ρ} {bytes : Bytes} {parts : List (Message k)}
      {answers : List (Except HttpError (Option (Collected k)))}
      (hrun : Run inlet select first state bytes parts answers) (ended : Bool) :
      Run inlet select first ((inlet.source.collected select).pull ended state bytes).state
        ((inlet.source.collected select).pull ended state bytes).rest
        (inlet.given select ended state bytes parts)
        (answers ++ [((inlet.source.collected select).pull ended state bytes).answer])
  | move {state next : inlet.State} {collector : Collector k ρ} {bytes : Bytes}
      {parts : List (Message k)} {answers : List (Except HttpError (Option (Collected k)))}
      (hrun : Run inlet select first (state, collector) bytes parts answers)
      (hmove : inlet.Moves state next) :
      Run inlet select first (next, collector) bytes parts answers

theorem Lockstep.ask {inlet : Inlet k} {select : HeadRule k ρ}
    {state : inlet.State × Collector k ρ} {parts : List (Message k)} {out : List (Collected k)}
    (h : inlet.Lockstep select state.1 parts state.2 out) (hsound : inlet.IsSound) (ended : Bool)
    (bytes : Bytes) :
    let pulled := (inlet.source.collected select).pull ended state bytes
    let given := inlet.given select ended state bytes parts
    inlet.Lockstep select pulled.state.1 given pulled.state.2
        (out ++ (valueOf pulled.answer).toList) ∧
      (∀ error, pulled.answer = .error error → Orderly error) ∧
      ∀ message, pulled.answer = .ok (some (.forward message)) →
        ∃ before, given = before ++ [message] ∧
          MayForward select (inlet.readsRaw pulled.state.1) before out message := by
  intro pulled given
  obtain ⟨hanswer, hstate, -⟩ := inlet.source.collect_observed
    (fun _ _ pulled parts => parts ++ (valueOf pulled.answer).toList) select ended state.1 parts
    state.2 bytes
  have hcollect := @Lockstep.collect _ _ _ _ (state.1, parts) _ _ h hsound ended bytes
  have hfirst := congrArg Prod.fst hstate
  have hsecond := congrArg Prod.snd hstate
  simp only [watched, hanswer] at hcollect
  rw [show _ = pulled.state.1 from hfirst, show _ = pulled.state.2 from hsecond] at hcollect
  exact hcollect

namespace Run

variable {inlet : Inlet k} {select : HeadRule k ρ} {settings : CollectSettings} {rule : ρ}
  {first : inlet.State} {state : inlet.State × Collector k ρ} {bytes : Bytes}
  {parts : List (Message k)} {answers : List (Except HttpError (Option (Collected k)))}

theorem keeps (hsound : inlet.IsSound) (hfirst : (inlet.decoder first).isIdle = true)
    (hrun : inlet.Run select (first, ⟨settings, rule, .idle⟩) state bytes parts answers) :
    inlet.Lockstep select state.1 parts state.2 (answers.filterMap valueOf) ∧
      ∀ error, .error error ∈ answers → Orderly error := by
  induction hrun with
  | start =>
      refine ⟨⟨?_, by simp⟩, by simp⟩
      rw [beq_iff_eq.mp hfirst]
      exact .between
  | feed _ piece ih => exact ih
  | @ask state bytes parts answers _ ended ih =>
      obtain ⟨hkept, herror, -⟩ := ih.1.ask hsound ended bytes
      refine ⟨?_, fun error hmem => ?_⟩
      · rw [filterMap_valueOf_concat]
        exact hkept
      · rcases List.mem_append.mp hmem with hmem | hmem
        · exact ih.2 error hmem
        · exact herror error (List.mem_singleton.mp hmem).symm
  | @move state next collector bytes parts answers _ hmove ih =>
      obtain ⟨hdecoder, hraw⟩ := hsound.moves hmove
      refine ⟨⟨hdecoder ▸ ih.1.inStep, fun hparses => ih.1.passed ?_⟩, ih.2⟩
      exact Bool.eq_false_iff.mpr fun hreads => absurd (hraw hreads) (by simp [hparses])

/-- However a decoder is fed and asked through a collector, alone or in a server or a client that
writes and may be upgraded at any time: as long as the collector is open it is between messages
just if the decoder is. It never meets a head within a message, and a piece of a body that it
forwards belongs to a message whose head and other pieces it has just forwarded. -/
theorem lockstep (hcodec : inlet.IsCodec) (hfirst : (inlet.decoder first).isIdle = true)
    (hrun : inlet.Run select (first, ⟨settings, rule, .idle⟩) state bytes parts answers) :
    (state.2.isClosed = false →
        (state.2.isIdle = true ↔ (inlet.decoder state.1).isIdle = true)) ∧
      (∀ error, .error error ∈ answers → error ≠ .collect .unexpectedHead) ∧
      ∀ ended item, ((inlet.source.collected select).pull ended state bytes).answer =
          .ok (some (.forward (.payload item))) →
        ∃ before, inlet.given select ended state bytes parts = before ++ [.payload item] ∧
          Passed select before (answers.filterMap valueOf) := by
  obtain ⟨hkept, horderly⟩ := hrun.keeps hcodec.isSound hfirst
  refine ⟨fun hopen => ?_, fun error hmem => ?_, fun ended item hforward => ?_⟩
  · have hphase : state.2.phase ≠ .closed := by simpa [Collector.isClosed] using hopen
    rw [Collector.isIdle, beq_iff_eq]
    exact hkept.inStep.idle_iff hphase
  · rintro rfl
    cases horderly _ hmem with
    | givenUp herror => exact herror rfl
  · obtain ⟨before, hgiven, hmay⟩ := (hkept.ask hcodec.isSound ended bytes).2.2 _ hforward
    cases hmay with
    | item _ hpassed => exact ⟨before, hgiven, hpassed⟩

end Run

end Inlet

end HttpFraming
