import HttpFraming.Proofs.Arrival.Calls
import HttpFraming.Proofs.Conversing.Client
import HttpFraming.Proofs.Framing.Agreement
import HttpFraming.Proofs.RoundTrip.Boundaries

/-!
# Responses that are too large

A collector behind a client gives up at a response that is too large. What it goes by is the
length in the head, and then the data that it is given. The client goes by the request as well,
and by the status: `Reception` is an account of the response that is being read, with the ruling
of the client on it. The two agree wherever the response may have a body, and then a response is
given up only for a body that is too large. Of a response that has no body the length in its head
says nothing, and yet the collector gives it up: `Reception.Run.oversized`.
-/

namespace HttpFraming

open Bytes

def errorOf : Except ε α → Option ε
  | .ok _ => none
  | .error error => some error

theorem errorOf_eq_some {answer : Except ε α} {error : ε} :
    errorOf answer = some error ↔ answer = .error error := by
  cases answer <;> simp [errorOf]

/-! ## The length in a head and the framing by it -/

namespace Head

variable {k : Kind}

theorem line_of_frame {raw h : Head k} {limits : Limits} {bodiless : Bool}
    {result : Except ReadError Framing} (hframe : raw.frame limits bodiless = (h, result)) :
    h.line = raw.line := by
  unfold frame at hframe
  split at hframe
  · cases hframe
    rfl
  · split at hframe <;> (cases hframe; rfl)

/-- The length that is read in a framed head is the one by which it is framed. -/
theorem length_of_frame {raw h : Head k} {limits : Limits} {framing : Framing} {n : Nat}
    (hframe : raw.frame limits false = (h, .ok framing)) (hlength : h.contentLength? = some n) :
    framing = .length n :=
  ((settled_of_frame hframe).contentLength? n).mp hlength

end Head

/-! ## Bodies that are absent -/

namespace Decoder

variable {k : Kind} {ρ : Type} {ask : HeadRule k ρ} {decoder next : Decoder k} {ended : Bool}
  {rule rule' : ρ} {bytes rest : Bytes}

def IsBodiless (decoder : Decoder k) : Prop :=
  ∀ reader, decoder.phase = .body reader → reader = .empty

theorem framed_of_decode {h : Head k}
    (hdecode : decoder.decode ask ended rule bytes = ⟨some (.header h), next, rule', rest⟩) :
    ∃ (raw : Head k) (framing : Framing),
      raw.frame decoder.limits (ask raw rule).1 = (h, .ok framing) ∧
        next.phase = .body (.ofFraming framing) := by
  unfold decode at hdecode
  split at hdecode
  · cases hdecode
  · unfold readBody at hdecode
    split at hdecode <;> cases hdecode
  · split at hdecode
    · cases hdecode
    · unfold readHead at hdecode
      split at hdecode
      · rename_i raw left hread
        unfold enter at hdecode
        dsimp only at hdecode
        split at hdecode
        · rename_i framed framing hframe
          cases hdecode
          exact ⟨raw, framing, hframe, rfl⟩
        · cases hdecode
      · split at hdecode <;> cases hdecode
      · cases hdecode

/-- Of an absent body nothing is handed out but its end. -/
theorem bodiless_of_decode (hbodiless : decoder.IsBodiless) {message? : Option (Message k)}
    (hdecode : decoder.decode ask ended rule bytes = ⟨message?, next, rule', rest⟩)
    (hheader : ∀ h, message? ≠ some (.header h)) :
    next.IsBodiless ∧ ∀ item, message? = some (.payload item) → item.data = [] := by
  cases hphase : decoder.phase with
  | failed =>
      rw [decode_failed hphase] at hdecode
      cases hdecode
      exact ⟨hbodiless, by simp⟩
  | body reader =>
      have hempty := hbodiless reader hphase
      subst hempty
      simp only [decode, hphase, readBody, BodyReader.read, BodyReader.readMore] at hdecode
      cases hdecode
      refine ⟨?_, ?_⟩
      · intro reader hbody
        simp [Item.isLast, Item.done] at hbody
      · intro item hitem
        cases hitem
        rfl
  | head =>
      simp only [decode, hphase] at hdecode
      split at hdecode
      · cases hdecode
        exact ⟨hbodiless, by simp⟩
      · unfold readHead at hdecode
        split at hdecode
        · rename_i raw left hread
          unfold enter at hdecode
          dsimp only at hdecode
          split at hdecode
          · cases hdecode
            exact absurd rfl (hheader _)
          · cases hdecode
            exact ⟨by simp [IsBodiless], by simp⟩
        · split at hdecode
          · cases hdecode
            exact ⟨by simp [IsBodiless], by simp⟩
          · cases hdecode
            exact ⟨hbodiless, by simp⟩
        · cases hdecode
          exact ⟨by simp [IsBodiless], by simp⟩

end Decoder

namespace Client

theorem pull_of_readsRaw {client : Client} (hraw : client.readsRaw = true) (ended : Bool)
    (bytes : Bytes) :
    (source.pull ended client bytes).state.readsRaw = true ∧
      (source.pull ended client bytes).state.decoder = client.decoder ∧
      ∃ data? : Option Bytes,
        valueOf (source.pull ended client bytes).answer = data?.map .raw := by
  have hdecode : client.decode ended bytes = (Message.takeRaw bytes, client, []) := by
    simp [decode, hraw]
  cases bytes with
  | cons b more =>
      have htaken : Message.takeRaw (b :: more) = some (.raw (b :: more) : Message .response) := rfl
      rw [htaken] at hdecode
      simp only [source, pull, hdecode]
      exact ⟨hraw, trivial, some (b :: more), rfl⟩
  | nil =>
      have htaken : Message.takeRaw [] = (none : Option (Message .response)) := rfl
      rw [htaken] at hdecode
      cases ended with
      | false =>
          simp only [source, pull, hdecode]
          exact ⟨hraw, rfl, none, rfl⟩
      | true =>
          simp only [source, pull, hdecode, if_true]
          refine ⟨hraw, trivial, none, ?_⟩
          cases client.pairing.close.1 <;> rfl

theorem pull_of_parsing {client : Client} (hraw : client.readsRaw = false) (ended : Bool)
    (bytes : Bytes) :
    ∃ pairing rest, client.decoder.decode bodilessRule ended client.pairing bytes =
      ⟨valueOf (source.pull ended client bytes).answer,
        (source.pull ended client bytes).state.decoder, pairing, rest⟩ := by
  rcases hdecode : client.decoder.decode bodilessRule ended client.pairing bytes with
    ⟨message?, next, pairing, rest⟩
  refine ⟨pairing, rest, ?_⟩
  cases message? with
  | some message => simp [source, pull, decode, hraw, hdecode, valueOf]
  | none =>
      cases ended with
      | false => simp [source, pull, decode, hraw, hdecode, valueOf]
      | true =>
          cases hclose : pairing.close.1 <;>
            simp [source, pull, decode, hraw, hdecode, valueOf, hclose]

theorem pull_cases (client : Client) (ended : Bool) (bytes : Bytes) :
    (∃ data? : Option Bytes,
      valueOf (source.pull ended client bytes).answer = data?.map .raw ∧
        (source.pull ended client bytes).state.decoder = client.decoder) ∨
      ∃ pairing rest, client.decoder.decode bodilessRule ended client.pairing bytes =
        ⟨valueOf (source.pull ended client bytes).answer,
          (source.pull ended client bytes).state.decoder, pairing, rest⟩ := by
  cases hraw : client.readsRaw with
  | true =>
      obtain ⟨-, hdecoder, data?, hdata⟩ := pull_of_readsRaw hraw ended bytes
      exact .inl ⟨data?, hdata, hdecoder⟩
  | false => exact .inr (pull_of_parsing hraw ended bytes)

theorem pull_error {client next : Client} {ended : Bool} {bytes rest : Bytes} {error : HttpError}
    (h : source.pull ended client bytes = ⟨.error error, next, rest⟩) :
    ∃ missing, error = .exchange missing := by
  rcases hdecode : client.decode ended bytes with ⟨message?, reached, left⟩
  cases message? with
  | some message => simp [source, pull, hdecode] at h
  | none =>
      cases ended with
      | false => simp [source, pull, hdecode] at h
      | true =>
          cases hclose : reached.pairing.close.1 with
          | none => simp [source, pull, hdecode, hclose] at h
          | some missing =>
              simp only [source, pull, hdecode, hclose, if_true, Option.elim_some,
                Pull.mk.injEq, Except.error.injEq] at h
              exact ⟨missing, h.1.symm⟩

end Client

/-! ## What a collector makes of responses -/

def CollectPhase.isCollecting : CollectPhase k → Bool
  | collecting .. => true
  | _ => false

/-- What a collector of responses in this phase makes of a part: its answer and the phase behind
it. It gives a response up for the length in its head, or for what it has gathered of it. -/
inductive CollectSettings.TakesResponse (settings : CollectSettings)
    (phase : CollectPhase .response) : Message .response →
      Except CollectError (Option (Collected .response)) → CollectPhase .response → Prop
  | accept (h admitted : Response) (awaited : Bool) (out? : Option (Collected .response)) :
      settings.TakesResponse phase (.header h) (.ok out?) (.collecting admitted {} awaited)
  | announced (h : Response) (n : Nat) (hlength : h.contentLength? = some n)
      (hexceeds : settings.exceeds n = true) :
      settings.TakesResponse phase (.header h)
        (.error (.responseTooLarge n settings.maxLength)) .closed
  | gather (h : Response) (content : Content) (awaited : Bool) (data : Bytes)
      (hphase : phase = .collecting h content awaited) :
      settings.TakesResponse phase (.payload (.chunk data)) (.ok none)
        (.collecting h (content.push data) awaited)
  | overflow (h : Response) (content : Content) (awaited : Bool) (item : Item)
      (hphase : phase = .collecting h content awaited)
      (hexceeds : settings.exceeds (content.push item.data).length = true) :
      settings.TakesResponse phase (.payload item)
        (.error (.responseTooLarge (content.push item.data).length settings.maxLength)) .closed
  | raw (data : Bytes) :
      settings.TakesResponse phase (.raw data) (.ok (some (.forward (.raw data)))) phase
  | other (message : Message .response)
      (result : Except CollectError (Option (Collected .response))) (next : CollectPhase .response)
      (hresult : ∀ attempted limit, result ≠ .error (.responseTooLarge attempted limit))
      (hnext : next.isCollecting = false) :
      settings.TakesResponse phase message result next

namespace Collector

variable {ρ : Type} (collector : Collector .response ρ) (select : HeadRule .response ρ)

theorem takesResponse_head (h : Response) :
    collector.settings.TakesResponse collector.phase (.header h) (collector.takeHead select h).1
        (collector.takeHead select h).2.phase ∧
      (collector.takeHead select h).2.settings = collector.settings := by
  unfold takeHead
  split
  · dsimp only
    split
    · unfold CollectSettings.inspect
      by_cases hunsupported : h.expectation = .unsupported
      · simp only [hunsupported, if_true]
        refine ⟨.other _ _ _ (by simp) ?_, rfl⟩
        cases collector.settings.closeOnRefusal <;> rfl
      · cases hover : h.contentLength?.filter collector.settings.exceeds with
        | some n =>
            obtain ⟨hlength, hexceeds⟩ := Option.filter_eq_some_iff.mp hover
            simp only [hunsupported, if_false]
            exact ⟨.announced h n hlength hexceeds, rfl⟩
        | none =>
            cases hawaited : h.expectation == .awaitContinue with
            | true =>
                simp only [hunsupported, if_false]
                exact ⟨.accept h _ _ _, rfl⟩
            | false =>
                simp only [hunsupported, if_false]
                exact ⟨.accept h _ _ _, rfl⟩
    · exact ⟨.other _ _ _ (by simp) rfl, rfl⟩
  · exact ⟨.other _ _ _ (by simp) rfl, rfl⟩

theorem takesResponse_item (item : Item) :
    collector.settings.TakesResponse collector.phase (.payload item) (collector.takeItem item).1
        (collector.takeItem item).2.phase ∧
      (collector.takeItem item).2.settings = collector.settings := by
  unfold takeItem
  dsimp only
  split
  · rename_i hphase
    exact ⟨.other _ _ _ (by simp) (by simp [hphase, CollectPhase.isCollecting]), rfl⟩
  · rename_i hphase
    split
    · exact ⟨.other _ _ _ (by simp) rfl, rfl⟩
    · exact ⟨.other _ _ _ (by simp) (by simp [hphase, CollectPhase.isCollecting]), rfl⟩
  · rename_i hphase
    split
    · exact ⟨.other _ _ _ (by simp) rfl, rfl⟩
    · exact ⟨.other _ _ _ (by simp) (by simp [hphase, CollectPhase.isCollecting]), rfl⟩
  · rename_i hphase
    exact ⟨.other _ _ _ (by simp) (by simp [hphase, CollectPhase.isCollecting]), rfl⟩
  · rename_i h content awaited hphase
    split
    · rename_i hexceeds
      exact ⟨.overflow h content awaited item hphase hexceeds, rfl⟩
    · cases item with
      | chunk data => exact ⟨.gather h content awaited data hphase, rfl⟩
      | last data trailers => exact ⟨.other _ _ _ (by simp) rfl, rfl⟩

theorem takesResponse_failure (failure : Failure .response) :
    collector.settings.TakesResponse collector.phase (.failure failure)
        (collector.takeFailure select failure).1 (collector.takeFailure select failure).2.phase ∧
      (collector.takeFailure select failure).2.settings = collector.settings := by
  have hafter : (if failure.fatal then CollectPhase.closed
      else .idle : CollectPhase .response).isCollecting = false := by
    cases failure.fatal <;> rfl
  unfold takeFailure
  dsimp only
  split
  · rename_i hphase
    exact ⟨.other _ _ _ (by simp) (by simp [hphase, CollectPhase.isCollecting]), rfl⟩
  · exact ⟨.other _ _ _ (by simp) hafter, rfl⟩
  · exact ⟨.other _ _ _ (by simp) hafter, rfl⟩
  · exact ⟨.other _ _ _ (by simp) hafter, rfl⟩
  · split
    · exact ⟨.other _ _ _ (by simp) hafter, rfl⟩
    · split <;> exact ⟨.other _ _ _ (by simp) hafter, rfl⟩

theorem takesResponse (message : Message .response) :
    collector.settings.TakesResponse collector.phase message (collector.take select message).1
        (collector.take select message).2.phase ∧
      (collector.take select message).2.settings = collector.settings := by
  unfold take
  split
  · rename_i hclosed
    have hphase : collector.phase = .closed := by simpa [isClosed] using hclosed
    exact ⟨.other _ _ _ (by simp) (by simp [hphase, CollectPhase.isCollecting]), rfl⟩
  · cases message with
    | header h => exact collector.takesResponse_head select h
    | payload item => exact collector.takesResponse_item item
    | failure failure => exact collector.takesResponse_failure select failure
    | raw data => exact ⟨.raw data, rfl⟩

end Collector

/-! ## The response that is being read -/

/-- An account of the response that a client reads: the ruling whether it has no body, where the
decoder stood behind its head, and the data that came since then. -/
structure Reception where
  head : Response
  bodiless : Bool
  entered : DecoderPhase
  data : Bytes := []

namespace Reception

def note (client : Client) (_ : Bytes) (pulled : Pull Client (Message .response))
    (current? : Option Reception) : Option Reception :=
  match valueOf pulled.answer with
  | some (.header h) =>
      some ⟨h, (client.pairing.responseHead h.status).1, pulled.state.decoder.phase, []⟩
  | some (.payload item) => current?.map fun reception =>
      { reception with data := reception.data ++ item.data }
  | _ => current?

def source : Source (Client × Option Reception) (Message .response) :=
  Client.source.observed note

/-- What is true of the account while the decoder stands here. The length in the head is the one
by which the body is framed, unless there is no body; then nothing comes of it. -/
structure IsSound (reception : Reception) (decoder : Decoder .response) : Prop where
  framed : reception.bodiless = false → ∀ n, reception.head.contentLength? = some n →
    reception.entered = .body (.length n)
  absent : reception.bodiless = true → reception.data = [] ∧ decoder.IsBodiless

theorem isSound_of_header {decoder next : Decoder .response} {ended : Bool}
    {pairing pairing' : ClientPairing} {bytes rest : Bytes} {h : Response}
    (hdecode : decoder.decode Client.bodilessRule ended pairing bytes =
      ⟨some (.header h), next, pairing', rest⟩) :
    IsSound ⟨h, (pairing.responseHead h.status).1, next.phase, []⟩ next := by
  obtain ⟨raw, framing, hframe, hphase⟩ := Decoder.framed_of_decode hdecode
  have hstatus : h.status = raw.status := Head.line_of_frame hframe
  have hruling : (Client.bodilessRule raw pairing).1 = (pairing.responseHead h.status).1 := by
    rw [Client.bodilessRule, hstatus]
  rw [hruling] at hframe
  refine ⟨fun hbodied n hlength => ?_, fun hbodiless => ⟨rfl, ?_⟩⟩
  · dsimp only at hbodied hlength ⊢
    rw [hbodied] at hframe
    rw [hphase, Head.length_of_frame hframe hlength]
    rfl
  · dsimp only at hbodiless
    rw [hbodiless] at hframe
    intro reader hreader
    cases hframe
    rw [hphase] at hreader
    cases hreader
    rfl

/-- The account stays true with every step of the client. -/
theorem isSound_note {client : Client} {current? : Option Reception}
    (h : ∀ reception ∈ current?, reception.IsSound client.decoder) (ended : Bool) (bytes : Bytes) :
    ∀ reception ∈ note client bytes (Client.source.pull ended client bytes) current?,
      reception.IsSound (Client.source.pull ended client bytes).state.decoder := by
  unfold note
  rcases client.pull_cases ended bytes with ⟨data?, hvalue, hsame⟩ | ⟨pairing, rest, hdecode⟩
  · rw [hvalue, hsame]
    cases data? <;> exact h
  · generalize hnext : (Client.source.pull ended client bytes).state.decoder = next at hdecode ⊢
    -- Behind anything but a head the decoder is in an absent body only if it was before.
    have hstays : (∀ head, valueOf (Client.source.pull ended client bytes).answer ≠
        some (.header head)) → ∀ reception ∈ current?, reception.IsSound next := by
      intro hheader reception hmem
      refine ⟨(h reception hmem).framed, fun hbodiless => ?_⟩
      obtain ⟨hnil, hbefore⟩ := (h reception hmem).absent hbodiless
      exact ⟨hnil, (Decoder.bodiless_of_decode hbefore hdecode hheader).1⟩
    split
    · rename_i head hvalue
      rw [hvalue] at hdecode
      intro reception hmem
      cases hmem
      exact isSound_of_header hdecode
    · rename_i item hvalue
      rw [hvalue] at hdecode hstays
      intro reception hmem
      obtain ⟨before, hbefore, rfl⟩ := Option.map_eq_some_iff.mp hmem
      refine ⟨(h before hbefore).framed, fun hbodiless => ?_⟩
      obtain ⟨hnil, habsent⟩ := (h before hbefore).absent hbodiless
      obtain ⟨hthere, hdata⟩ := Decoder.bodiless_of_decode habsent hdecode (by simp)
      exact ⟨by simp [hnil, hdata item rfl], hthere⟩
    · rename_i hheader _
      exact hstays hheader

/-! ## With a collector behind it -/

def Gathers (phase : CollectPhase .response) (current? : Option Reception) : Prop :=
  ∀ h content awaited, phase = .collecting h content awaited →
    ∃ reception ∈ current?, content.length = reception.data.length

/-- A part that the client hands out leaves the collector in step with the account. If the
collector gives up at it, then for the length in the head that was just read, or for what came of
the response. -/
theorem Gathers.takes {settings : CollectSettings} {phase phase' : CollectPhase .response}
    {message : Message .response} {result : Except CollectError (Option (Collected .response))}
    (htakes : settings.TakesResponse phase message result phase') {current? : Option Reception}
    (h : Gathers phase current?) (client next : Client) (bytes rest : Bytes) :
    Gathers phase' (note client bytes ⟨.ok (some message), next, rest⟩ current?) ∧
      ∀ attempted limit, result = .error (.responseTooLarge attempted limit) →
        limit = settings.maxLength ∧ limit < attempted ∧
          ∃ reception ∈ note client bytes ⟨.ok (some message), next, rest⟩ current?,
            reception.head.contentLength? = some attempted ∧ reception.data = [] ∨
              reception.data.length = attempted := by
  cases htakes with
  | accept head admitted awaited out? =>
      refine ⟨?_, by simp⟩
      intro h' content' awaited' hphase
      cases hphase
      exact ⟨_, rfl, rfl⟩
  | announced head n hlength hexceeds =>
      refine ⟨by simp [Gathers], ?_⟩
      intro attempted limit hresult
      cases hresult
      exact ⟨rfl, by simpa [CollectSettings.exceeds] using hexceeds, _, rfl, .inl ⟨hlength, rfl⟩⟩
  | gather head content awaited data hphase =>
      obtain ⟨reception, hmem, hlength⟩ := h head content awaited hphase
      cases hmem
      refine ⟨?_, by simp⟩
      intro h' content' awaited' hphase'
      cases hphase'
      exact ⟨_, rfl, by rw [Content.push_length, List.length_append, hlength]; rfl⟩
  | overflow head content awaited item hphase hexceeds =>
      obtain ⟨reception, hmem, hlength⟩ := h head content awaited hphase
      cases hmem
      refine ⟨by simp [Gathers], ?_⟩
      intro attempted limit hresult
      cases hresult
      refine ⟨rfl, by simpa [CollectSettings.exceeds] using hexceeds, _, rfl, .inr ?_⟩
      rw [List.length_append, Content.push_length, hlength]
  | raw data => exact ⟨h, by simp⟩
  | other message result next hresult hnext =>
      refine ⟨?_, fun attempted limit herror => absurd herror (hresult attempted limit)⟩
      intro h content awaited hphase
      rw [hphase] at hnext
      cases hnext

/-- The response is given up in order: it was framed with so long a body, or that much came of
it. The only other case is a response that was ruled to have no body, of which nothing came, and
whose head has that length. -/
structure IsOversized (reception : Reception) (settings : CollectSettings)
    (attempted limit : Nat) : Prop where
  limit_eq : limit = settings.maxLength
  lt : limit < attempted
  bodied : reception.bodiless = false →
    reception.entered = .body (.length attempted) ∨ reception.data.length = attempted
  bodiless : reception.bodiless = true →
    reception.data = [] ∧ reception.head.contentLength? = some attempted

structure Watched (settings : CollectSettings)
    (state : (Client × Option Reception) × Collector .response ρ) : Prop where
  kept : state.2.settings = settings
  sound : ∀ reception ∈ state.1.2, reception.IsSound state.1.1.decoder
  gathers : Gathers state.2.phase state.1.2

variable {settings : CollectSettings}

theorem IsSound.isOversized {reception : Reception} {decoder : Decoder .response}
    (h : reception.IsSound decoder) {attempted limit : Nat} (hlimit : limit = settings.maxLength)
    (hlt : limit < attempted)
    (hwhy : reception.head.contentLength? = some attempted ∧ reception.data = [] ∨
      reception.data.length = attempted) : reception.IsOversized settings attempted limit := by
  refine ⟨hlimit, hlt, fun hbodied => ?_, fun hbodiless => ?_⟩
  · rcases hwhy with ⟨hlength, -⟩ | hdata
    · exact .inl (h.framed hbodied attempted hlength)
    · exact .inr hdata
  · have hnil := (h.absent hbodiless).1
    rcases hwhy with ⟨hlength, -⟩ | hdata
    · exact ⟨hnil, hlength⟩
    · rw [hnil, List.length_nil] at hdata
      omega

theorem pull_of_source {ended : Bool} {state next : Client × Option Reception}
    {bytes rest : Bytes} {answer : Except HttpError (Option (Message .response))}
    (hpull : source.pull ended state bytes = ⟨answer, next, rest⟩) :
    Client.source.pull ended state.1 bytes = ⟨answer, next.1, rest⟩ ∧
      next.2 = note state.1 bytes ⟨answer, next.1, rest⟩ state.2 := by
  rcases hclient : Client.source.pull ended state.1 bytes with ⟨answer', next', rest'⟩
  simp only [source, Source.observed, hclient, Pull.mk.injEq] at hpull
  obtain ⟨rfl, rfl, rfl⟩ := hpull
  exact ⟨rfl, rfl⟩

theorem Watched.sound_of_pull {state next : Client × Option Reception}
    {collector : Collector .response ρ} (h : Watched settings (state, collector)) {ended : Bool}
    {bytes rest : Bytes} {answer : Except HttpError (Option (Message .response))}
    (hpull : source.pull ended state bytes = ⟨answer, next, rest⟩) :
    ∀ reception ∈ next.2, reception.IsSound next.1.decoder := by
  obtain ⟨hclient, hnote⟩ := pull_of_source hpull
  have hsound := isSound_note h.sound ended bytes
  rw [hclient, ← hnote] at hsound
  exact hsound

theorem Watched.of_no_message {state next : Client × Option Reception}
    {collector : Collector .response ρ} (h : Watched settings (state, collector)) {ended : Bool}
    {bytes rest : Bytes} {answer : Except HttpError (Option (Message .response))}
    (hpull : source.pull ended state bytes = ⟨answer, next, rest⟩) (hnone : valueOf answer = none) :
    Watched settings (next, if ended then collector.close else collector) := by
  obtain ⟨-, hnote⟩ := pull_of_source hpull
  have hsame : next.2 = state.2 := by
    rw [hnote, note, hnone]
  cases ended with
  | true => exact ⟨h.kept, h.sound_of_pull hpull, by simp [Gathers, Collector.close, Collector.enter]⟩
  | false => exact ⟨h.kept, h.sound_of_pull hpull, hsame ▸ h.gathers⟩

theorem Watched.of_message {state next : Client × Option Reception}
    {collector : Collector .response ρ} (h : Watched settings (state, collector)) {ended : Bool}
    {bytes rest : Bytes} {message : Message .response}
    (hpull : source.pull ended state bytes = ⟨.ok (some message), next, rest⟩)
    (select : HeadRule .response ρ) :
    Watched settings (next, (collector.take select message).2) ∧
      ∀ attempted limit,
        (collector.take select message).1 = .error (.responseTooLarge attempted limit) →
          ∃ reception ∈ next.2, reception.IsOversized settings attempted limit := by
  obtain ⟨-, hnote⟩ := pull_of_source hpull
  obtain ⟨htakes, hkept⟩ := collector.takesResponse select message
  obtain ⟨hgathers, hwhy⟩ := h.gathers.takes htakes state.1 next.1 bytes rest
  rw [← hnote] at hgathers hwhy
  have hsound := h.sound_of_pull hpull
  refine ⟨⟨hkept.trans h.kept, hsound, hgathers⟩, ?_⟩
  intro attempted limit herror
  obtain ⟨hlimit, hlt, reception, hmem, hreason⟩ := hwhy attempted limit herror
  exact ⟨reception, hmem,
    (hsound reception hmem).isOversized (hlimit.trans (congrArg _ h.kept)) hlt hreason⟩

/-- One call keeps the account and the collector in step, and a response is given up in order. -/
theorem Watched.collect {select : HeadRule .response ρ} {state : Client × Option Reception}
    {collector : Collector .response ρ} (h : Watched settings (state, collector)) (ended : Bool)
    (bytes : Bytes) :
    Watched settings (source.collect select ended state collector bytes).state ∧
      ∀ attempted limit, (source.collect select ended state collector bytes).answer =
          .error (.collect (.responseTooLarge attempted limit)) →
        ∃ reception ∈ (source.collect select ended state collector bytes).state.1.2,
          reception.IsOversized settings attempted limit := by
  fun_induction Source.collect source select ended state collector bytes with
  | case1 state collector bytes stopped error next rest hpull =>
      refine ⟨h.of_no_message hpull rfl, ?_⟩
      intro attempted limit herror
      obtain ⟨missing, rfl⟩ := Client.pull_error (pull_of_source hpull).1
      cases herror
  | case2 state collector bytes stopped next rest hpull =>
      exact ⟨h.of_no_message hpull rfl, by simp⟩
  | case3 state collector bytes message next rest hpull error collector' htake =>
      obtain ⟨hwatched, hreason⟩ := h.of_message hpull select
      rw [htake] at hwatched hreason
      refine ⟨hwatched, ?_⟩
      intro attempted limit herror
      cases herror
      exact hreason attempted limit rfl
  | case4 state collector bytes message next rest hpull made collector' htake =>
      have hwatched := (h.of_message hpull select).1
      rw [htake] at hwatched
      exact ⟨hwatched, by simp⟩
  | case5 state collector bytes message next rest hpull collector' htake ih =>
      have hwatched := (h.of_message hpull select).1
      rw [htake] at hwatched
      exact ih hwatched

/-- Feeding a client and asking it through a collector, and writing to it, in any order. -/
inductive Run (select : HeadRule .response ρ) (start : Client × Collector .response ρ) :
    (Client × Option Reception) × Collector .response ρ → Bytes → Prop
  | start : Run select start ((start.1, none), start.2) []
  | send {client : Client} {current? : Option Reception} {collector : Collector .response ρ}
      {bytes : Bytes} (hrun : Run select start ((client, current?), collector) bytes)
      (message : Message .request) :
      Run select start (((client.encode message).state, current?), collector) bytes
  | prepareUpgrade {client : Client} {current? : Option Reception}
      {collector : Collector .response ρ} {bytes : Bytes}
      (hrun : Run select start ((client, current?), collector) bytes) :
      Run select start ((client.prepareUpgrade, current?), collector) bytes
  | upgrade {client : Client} {current? : Option Reception} {collector : Collector .response ρ}
      {bytes : Bytes} (hrun : Run select start ((client, current?), collector) bytes) :
      Run select start ((client.upgrade, current?), collector) bytes
  | feed {state : (Client × Option Reception) × Collector .response ρ} {bytes : Bytes}
      (hrun : Run select start state bytes) (piece : Bytes) :
      Run select start state (bytes ++ piece)
  | ask {state : (Client × Option Reception) × Collector .response ρ} {bytes : Bytes}
      (hrun : Run select start state bytes) (ended : Bool) :
      Run select start ((source.collected select).pull ended state bytes).state
        ((source.collected select).pull ended state bytes).rest

namespace Run

variable {select : HeadRule .response ρ} {client : Client} {rule : ρ}

theorem watched {state : (Client × Option Reception) × Collector .response ρ} {bytes : Bytes}
    (hrun : Run select (client, ⟨settings, rule, .idle⟩) state bytes) :
    Watched settings state := by
  induction hrun with
  | start => exact ⟨rfl, by simp, by simp [Gathers]⟩
  | @send client current? collector bytes _ message ih =>
      obtain ⟨encoder, pairing, hkeeps⟩ := client.encode_keeps message
      refine ⟨ih.kept, ?_, ih.gathers⟩
      rw [hkeeps]
      exact ih.sound
  | prepareUpgrade _ ih => exact ⟨ih.kept, ih.sound, ih.gathers⟩
  | upgrade _ ih => exact ⟨ih.kept, ih.sound, ih.gathers⟩
  | feed _ piece ih => exact ih
  | @ask state bytes _ ended ih => exact (ih.collect ended bytes).1

/-- Whatever was written and whatever arrived, in whatever order: a client with a collector behind
it fails with a response that is too large only at one that was framed with so long a body, or of
which that much came, or that was ruled to have no body and has that length in its head. -/
theorem oversized {current : Client} {current? : Option Reception}
    {collector : Collector .response ρ} {bytes : Bytes}
    (hrun : Run select (client, ⟨settings, rule, .idle⟩) ((current, current?), collector) bytes)
    (ended : Bool) {attempted limit : Nat}
    (herror : ((Client.source.collected select).pull ended (current, collector) bytes).answer =
      .error (.collect (.responseTooLarge attempted limit))) :
    ∃ reception ∈
        ((Reception.source.collected select).pull ended ((current, current?), collector)
          bytes).state.1.2,
      reception.IsOversized settings attempted limit := by
  obtain ⟨hanswer, -, -⟩ :=
    Client.source.collect_observed note select ended current current? collector bytes
  exact (hrun.watched.collect ended bytes).2 attempted limit (hanswer.trans herror)

/-- The head of a response to GET that has a body of five, where four may be collected. -/
theorem oversized_of_length :
    let client := ((Client.fresh {} {}).encode (.header { line := ⟨.get, .root⟩ })).state
    let collector : Collector .response Unit := ⟨{ maxLength := 4 }, (), .idle⟩
    let bytes := ascii "HTTP/1.1 200 OK\r\nContent-Length: 5\r\n\r\n"
    ((Client.source.collected (selectAll .response)).pull false (client, collector) bytes).answer =
        .error (.collect (.responseTooLarge 5 4)) ∧
      ∃ reception ∈ ((Reception.source.collected (selectAll .response)).pull false
          ((client, none), collector) bytes).state.1.2,
        reception.bodiless = false ∧ reception.IsOversized { maxLength := 4 } 5 4 := by
  intro client collector bytes
  have hrun : Run (selectAll .response) (Client.fresh {} {}, collector)
      ((client, none), collector) bytes := (Run.start.send _).feed bytes
  have herror := errorOf_eq_some.mp (show errorOf ((Client.source.collected
    (selectAll .response)).pull false (client, collector) bytes).answer =
      some (.collect (.responseTooLarge 5 4)) by decide +kernel)
  obtain ⟨reception, hmem, hoversized⟩ := oversized hrun false herror
  have hbodied : (((Reception.source.collected (selectAll .response)).pull false
      ((client, none), collector) bytes).state.1.2.map Reception.bodiless) = some false := by
    decide +kernel
  rw [hmem] at hbodied
  exact ⟨herror, reception, hmem, Option.some.inj hbodied, hoversized⟩

/-- The same head in a response to HEAD, which has no body. -/
theorem tooLarge_of_absent_body :
    let client := ((Client.fresh {} {}).encode (.header { line := ⟨.head, .root⟩ })).state
    let collector : Collector .response Unit := ⟨{ maxLength := 4 }, (), .idle⟩
    let bytes := ascii "HTTP/1.1 200 OK\r\nContent-Length: 5\r\n\r\n"
    Run (selectAll .response) (Client.fresh {} {}, collector) ((client, none), collector) bytes ∧
      ((Client.source.collected (selectAll .response)).pull false (client, collector) bytes).answer =
        .error (.collect (.responseTooLarge 5 4)) ∧
      ((Reception.source.collected (selectAll .response)).pull false
        ((client, none), collector) bytes).state.1.2.map
          (fun reception => (reception.bodiless, reception.entered, reception.data)) =
        some (true, .body .empty, []) := by
  intro client collector bytes
  have hrun : Run (selectAll .response) (Client.fresh {} {}, collector)
      ((client, none), collector) bytes := (Run.start.send _).feed bytes
  have herror : errorOf ((Client.source.collected (selectAll .response)).pull false
      (client, collector) bytes).answer = some (.collect (.responseTooLarge 5 4)) := by
    decide +kernel
  exact ⟨hrun, errorOf_eq_some.mp herror, by decide +kernel⟩

end Run

end Reception

end HttpFraming
