import HttpFraming.Proofs.Conversing.Responses

/-!
# A client is an encoder, a decoder and a pairing

Outside of a tunnel a client writes what its encoder writes and reads what its decoder reads,
and the pairing goes along: `Client.encodeAll_requests` and `Client.arrive_eq`.
-/

namespace HttpFraming

open Bytes

/-! ## Writing requests -/

def ClientPairing.note (pairing : ClientPairing) : Message .request → ClientPairing
  | .header h => pairing.requestHead h.method
  | .payload item => if item.isLast then pairing.requestSent else pairing
  | _ => pairing

theorem ClientPairing.note_tunnel (pairing : ClientPairing) (message : Message .request) :
    (pairing.note message).tunnel = pairing.tunnel := by
  cases message with
  | header h =>
      unfold note requestHead
      dsimp only
      split <;> rfl
  | payload item =>
      unfold note requestSent
      dsimp only
      split
      · split <;> rfl
      · rfl
  | failure failure => rfl
  | raw data => rfl

theorem Encoder.isIdle_of_last {encoder next : Encoder} {item : Item} {output : Bytes}
    (h : encoder.encode (.payload item : Message k) = ⟨output, next, none⟩)
    (hlast : item.isLast = true) : next.isIdle = true := by
  cases item with
  | chunk data => cases hlast
  | last data trailers =>
      cases hbody : encoder.body? with
      | none => simp [encode, hbody, refuse] at h
      | some writer =>
          simp only [encode, hbody, Written.map, Written.mk.injEq] at h
          obtain ⟨_, rfl, herror⟩ := h
          cases writer with
          | length remaining =>
              by_cases hexcess : remaining < data.length
              · simp [BodyWriter.write, Item.data, hexcess] at herror
              · simp [BodyWriter.write, Item.data, Item.isLast, hexcess, isIdle]
          | chunked => rfl
          | plain => rfl
          | nothing => rfl

namespace Client

def fresh (settings : ClientSettings) (limits : Limits) : Client where
  decoder := ⟨limits, .head⟩
  pairing := { settings }

theorem encode_keeps (client : Client) (message : Message .request) :
    ∃ encoder pairing, (client.encode message).state = { client with encoder, pairing } := by
  unfold encode
  split
  · cases message <;> exact ⟨_, _, rfl⟩
  · exact ⟨_, _, rfl⟩

def encodeAll (client : Client) : List (Message .request) → Written Client
  | [] => ⟨[], client, none⟩
  | message :: more =>
      let written := client.encode message
      if written.error?.isSome then written
      else (written.state.encodeAll more).behind written.output

variable {client : Client} (hwrites : client.writesRaw = false)
  (htunnel : client.pairing.tunnel = false)

include hwrites htunnel

theorem encode_ok {message : Message .request} {written : Written Client}
    (h : client.encode message = written) (hok : written.error? = none) :
    (client.encoder.encode message).error? = none ∧
      written = ⟨(client.encoder.encode message).output, { client with
        encoder := (client.encoder.encode message).state
        pairing := client.pairing.note message }, none⟩ := by
  subst h
  rcases hencode : client.encoder.encode message with ⟨output, next, error?⟩
  have herror : error? = none := by
    simpa [encode, hwrites, htunnel, hencode, Written.map] using hok
  subst herror
  refine ⟨rfl, ?_⟩
  cases message with
  | payload item =>
      cases hlast : item.isLast with
      | false => simp [encode, hwrites, htunnel, hencode, Written.map, hlast, ClientPairing.note]
      | true =>
          have hidle := Encoder.isIdle_of_last hencode hlast
          simp [encode, hwrites, htunnel, hencode, Written.map, hlast, hidle, ClientPairing.note]
  | header h => simp [encode, hwrites, htunnel, hencode, Written.map, ClientPairing.note]
  | failure failure => simp [encode, hwrites, htunnel, hencode, Written.map, ClientPairing.note]
  | raw data => simp [encode, hwrites, htunnel, hencode, Written.map, ClientPairing.note]

theorem encodeAll_ok (messages : List (Message .request))
    (hok : (client.encodeAll messages).error? = none) :
    (client.encoder.encodeAll messages).error? = none ∧
      client.encodeAll messages = ⟨(client.encoder.encodeAll messages).output, { client with
        encoder := (client.encoder.encodeAll messages).state
        pairing := messages.foldl ClientPairing.note client.pairing }, none⟩ := by
  induction messages generalizing client with
  | nil => exact ⟨rfl, rfl⟩
  | cons message more ih =>
      unfold encodeAll at hok ⊢
      cases herror : (client.encode message).error? with
      | some error => simp [herror] at hok
      | none =>
          obtain ⟨hencoder, hencode⟩ := encode_ok hwrites htunnel rfl herror
          rcases hfirst : client.encoder.encode message with ⟨output, next, error?⟩
          rw [hfirst] at hencoder hencode
          dsimp only at hencoder hencode
          subst hencoder
          rw [hencode] at hok ⊢
          have hthere : (client.pairing.note message).tunnel = false :=
            (client.pairing.note_tunnel message).trans htunnel
          obtain ⟨hmore, hlater⟩ := @ih { client with
            encoder := next
            pairing := client.pairing.note message } hwrites hthere hok
          rw [Encoder.encodeAll_cons hfirst]
          refine ⟨hmore, ?_⟩
          simp only [Option.isSome_none, Bool.false_eq_true, if_false, hlater]
          rfl

end Client

namespace ClientPairing

variable {settings : ClientSettings}

theorem awaiting_sent (methods : List Method) (method : Method) :
    ((awaiting settings methods).requestHead method).requestSent =
      awaiting settings (methods ++ [method]) := by
  by_cases hreports : settings.reportMissing = true
  · simp [awaiting, requestHead, requestSent, Pending.push, hreports]
  · simp [awaiting, requestHead, requestSent, Pending.push, hreports]

theorem foldl_note_messages (pairing : ClientPairing) (parts : Parts .request) :
    parts.messages.foldl note pairing = (pairing.requestHead parts.head.method).requestSent := by
  have hchunks : ∀ (chunks : List Bytes) (pairing : ClientPairing),
      (chunks.map fun data => (.payload (.chunk data) : Message .request)).foldl note pairing =
        pairing := by
    intro chunks
    induction chunks with
    | nil => intro pairing; rfl
    | cons data chunks ih => exact ih
  rw [Parts.messages, List.foldl_cons, Message.payloads, List.foldl_append, hchunks]
  rfl

theorem foldl_note_requests (methods : List Method) (all : List (Parts .request)) :
    (all.flatMap Parts.messages).foldl note (awaiting settings methods) =
      awaiting settings (methods ++ all.map (·.head.method)) := by
  induction all generalizing methods with
  | nil => simp
  | cons parts all ih =>
      rw [List.flatMap_cons, List.foldl_append, foldl_note_messages, awaiting_sent, ih]
      simp

end ClientPairing

/-! ## Reading responses -/

theorem Decoder.decode_rule {k : Kind} {ρ : Type} (decoder : Decoder k) (ask : HeadRule k ρ)
    (ended : Bool) (rule : ρ) (bytes : Bytes) :
    (decoder.decode ask ended rule bytes).rule = rule ∨
      ∃ h, (decoder.decode ask ended rule bytes).rule = (ask h rule).2 := by
  unfold decode
  split
  · exact .inl rfl
  · unfold readBody
    split <;> exact .inl rfl
  · split
    · exact .inl rfl
    · unfold readHead
      split
      · rename_i h rest _
        refine .inr ⟨h, ?_⟩
        unfold enter
        dsimp only
        split <;> rfl
      · split <;> exact .inl rfl
      · exact .inl rfl

namespace Client

def standing (client : Client) (state : Decoder .response × ClientPairing) : Client :=
  { client with
    decoder := state.1
    pairing := state.2 }

/-- The decoder of a client with its pairing, as a source. -/
def parts : Source (Decoder .response × ClientPairing) (Message .response) :=
  Decoder.source bodilessRule

theorem pull_keeps (client : Client) (ended : Bool) (bytes : Bytes) :
    ∃ decoder pairing,
      (source.pull ended client bytes).state = { client with decoder, pairing } := by
  have hdecode : ∃ decoder pairing,
      (client.decode ended bytes).2.1 = { client with decoder, pairing } := by
    unfold decode
    split <;> exact ⟨_, _, rfl⟩
  obtain ⟨decoder, pairing, hdecode⟩ := hdecode
  rcases hread : client.decode ended bytes with ⟨message?, next, rest⟩
  rw [hread] at hdecode
  cases message? with
  | some message => exact ⟨decoder, pairing, by simpa [source, pull, hread] using hdecode⟩
  | none =>
      cases ended with
      | false => exact ⟨decoder, pairing, by simpa [source, pull, hread] using hdecode⟩
      | true =>
          refine ⟨decoder, pairing.close.2, ?_⟩
          simp only [source, pull, hread, if_true]
          rw [show next = _ from hdecode]

/-- Reading does to the pairing what response heads do, and what the end of the input does. -/
theorem pull_pairing {p : ClientPairing → Prop}
    (hresponse : ∀ pairing status, p pairing → p (pairing.responseHead status).2)
    (hclose : ∀ pairing, p pairing → p pairing.close.2) {client : Client} (h : p client.pairing)
    (ended : Bool) (bytes : Bytes) : p (source.pull ended client bytes).state.pairing := by
  have hdecode : p (client.decode ended bytes).2.1.pairing := by
    unfold decode
    split
    · exact h
    · rcases client.decoder.decode_rule bodilessRule ended client.pairing bytes with
        hsame | ⟨response, hasked⟩
      · rw [← hsame] at h
        exact h
      · have hpaired := hresponse _ response.status h
        rw [show (client.pairing.responseHead response.status).2 = _ from hasked.symm] at hpaired
        exact hpaired
  rcases hread : client.decode ended bytes with ⟨message?, next, rest⟩
  rw [hread] at hdecode
  cases message? with
  | some message => simpa [source, pull, hread] using hdecode
  | none =>
      cases ended with
      | false => simpa [source, pull, hread] using hdecode
      | true =>
          have hclosed := hclose _ hdecode
          simpa [source, pull, hread] using hclosed

/-- A client that keeps to the protocol reads what its decoder reads. -/
theorem pull_of_decode {client : Client} (hraw : client.readsRaw = false) {bytes rest : Bytes}
    {message? : Option (Message .response)} {next : Decoder .response} {pairing : ClientPairing}
    (h : client.decoder.decode bodilessRule false client.pairing bytes =
      ⟨message?, next, pairing, rest⟩) :
    source.pull false client bytes =
      ⟨.ok message?, { client with decoder := next, pairing }, rest⟩ := by
  have hdecode : client.decode false bytes =
      (message?, { client with decoder := next, pairing }, rest) := by
    simp [decode, hraw, h]
  cases message? <;> simp [source, pull, hdecode]

theorem tunnel_of_decode {decoder next : Decoder .response} {ended : Bool}
    {pairing pairing' : ClientPairing} {bytes rest : Bytes} {message? : Option (Message .response)}
    (h : decoder.decode bodilessRule ended pairing bytes = ⟨message?, next, pairing', rest⟩)
    (hopen : pairing'.tunnel = false) : pairing.tunnel = false := by
  have hrule := decoder.decode_rule bodilessRule ended pairing bytes
  rw [h] at hrule
  rcases hrule with hrule | ⟨response, hrule⟩
  · rw [← hrule]
    exact hopen
  · have hresponse : (pairing.tunnel ||
        (response.status.opensTunnel (pairing.pending.answer response.status).1 &&
          !pairing.settings.parseAfterConnect)) = false := by
      rw [show pairing' = (pairing.responseHead response.status).2 from hrule] at hopen
      exact hopen
    exact (Bool.or_eq_false_iff.mp hresponse).1

theorem tunnel_of_drain (state : Decoder .response × ClientPairing) (bytes : Bytes) :
    (parts.drain false state bytes).state.2.tunnel = false → state.2.tunnel = false := by
  refine Decoder.drain_induction bodilessRule false
    (motive := fun state _ drained => drained.state.2.tunnel = false → state.2.tunnel = false)
    ?_ ?_ state bytes
  · intro state bytes next rule rest h hopen
    exact tunnel_of_decode h hopen
  · intro state bytes message next rule rest h ih hopen
    exact tunnel_of_decode h (ih hopen)

theorem tunnel_of_deliver (state : Decoder .response × ClientPairing) (waiting : Bytes)
    (pieces : List Bytes)
    (hopen : (parts.deliver state waiting pieces).state.2.tunnel = false) :
    state.2.tunnel = false := by
  induction pieces generalizing state waiting with
  | nil => exact hopen
  | cons piece more ih =>
      have hcons := Decoder.deliver_cons bodilessRule state waiting piece more
      rw [show parts.deliver state waiting (piece :: more) = _ from hcons] at hopen
      exact tunnel_of_drain state (waiting ++ piece) (ih _ _ hopen)

section Reading

variable {client : Client} (hupgraded : client.upgraded = false)

include hupgraded

theorem pull_of_message {state : Decoder .response × ClientPairing}
    (htunnel : state.2.tunnel = false) {bytes rest : Bytes} {message : Message .response}
    {next : Decoder .response} {pairing : ClientPairing}
    (h : state.1.decode bodilessRule false state.2 bytes = ⟨some message, next, pairing, rest⟩) :
    source.pull false (client.standing state) bytes =
      ⟨.ok (some message), client.standing (next, pairing), rest⟩ :=
  pull_of_decode (by simp [readsRaw, standing, hupgraded, htunnel]) h

theorem pull_of_wait {state : Decoder .response × ClientPairing}
    (htunnel : state.2.tunnel = false) {bytes rest : Bytes}
    {next : Decoder .response} {pairing : ClientPairing}
    (h : state.1.decode bodilessRule false state.2 bytes = ⟨none, next, pairing, rest⟩) :
    source.pull false (client.standing state) bytes =
      ⟨.ok none, client.standing (next, pairing), rest⟩ :=
  pull_of_decode (by simp [readsRaw, standing, hupgraded, htunnel]) h

/-- For as long as no tunnel opens, a client reads what its decoder reads. -/
theorem drain_eq (state : Decoder .response × ClientPairing) (bytes : Bytes) :
    (parts.drain false state bytes).state.2.tunnel = false →
      source.drain false (client.standing state) bytes =
        (parts.drain false state bytes).mapState client.standing := by
  refine Decoder.drain_induction bodilessRule false
    (motive := fun state bytes drained => drained.state.2.tunnel = false →
      source.drain false (client.standing state) bytes = drained.mapState client.standing)
    ?_ ?_ state bytes
  · intro state bytes next pairing rest h hopen
    have htunnel := tunnel_of_decode h hopen
    rw [Source.drain_of_none (pull_of_wait hupgraded htunnel h)]
    rfl
  · intro state bytes message next pairing rest h ih hopen
    have htunnel := tunnel_of_decode h (tunnel_of_drain _ rest hopen)
    rw [Source.drain_of_value (pull_of_message hupgraded htunnel h), ih hopen]
    rfl

theorem deliver_eq (state : Decoder .response × ClientPairing) (waiting : Bytes)
    (pieces : List Bytes) (hopen : (parts.deliver state waiting pieces).state.2.tunnel = false) :
    source.deliver (client.standing state) waiting pieces =
      (parts.deliver state waiting pieces).mapState client.standing := by
  induction pieces generalizing state waiting with
  | nil => rfl
  | cons piece more ih =>
      have hcons : parts.deliver state waiting (piece :: more) =
          (parts.deliver (parts.drain false state (waiting ++ piece)).state
            (parts.drain false state (waiting ++ piece)).rest more).after
              (parts.drain false state (waiting ++ piece)).values :=
        Decoder.deliver_cons bodilessRule state waiting piece more
      rw [hcons] at hopen ⊢
      have hthere := tunnel_of_deliver _ _ more hopen
      have herror : (parts.drain false state (waiting ++ piece)).error? = none :=
        Decoder.drain_error? bodilessRule false state _
      rw [Source.deliver, drain_eq hupgraded _ _ hthere]
      simp only [Drained.mapState, herror, Option.isSome_none, Bool.false_eq_true, if_false,
        ih _ _ hopen]
      rfl

end Reading

theorem pull_end {client : Client} (hupgraded : client.upgraded = false) (limits : Limits)
    (settings : ClientSettings) :
    source.pull true (client.standing (⟨limits, .head⟩, .awaiting settings [])) [] =
      ⟨.ok none, client.standing (⟨limits, .head⟩, .awaiting settings []), []⟩ := by
  simp [source, pull, decode, readsRaw, standing, hupgraded, ClientPairing.awaiting,
    Decoder.decode, ClientPairing.close]

/-- A client that waits for the responses to its requests, and whose decoder takes the bytes as
all of them, reads them in whatever pieces the bytes arrive. -/
theorem arrive_of_takes {client : Client} (hupgraded : client.upgraded = false) {limits : Limits}
    {settings : ClientSettings} {methods : List Method} {pieces : List Bytes}
    {messages : List (Message .response)}
    (htakes : Decoder.Takes bodilessRule (⟨limits, .head⟩, .awaiting settings methods)
      pieces.flatten messages (⟨limits, .head⟩, .awaiting settings [])) :
    (source.arrive (client.standing (⟨limits, .head⟩, .awaiting settings methods)) pieces
        true).joined =
      ⟨Message.join messages, none, client.standing (⟨limits, .head⟩, .awaiting settings []), []⟩ := by
  have hdelivered : (parts.deliver (⟨limits, .head⟩, .awaiting settings methods) [] pieces).joined =
      ⟨Message.join messages, none, (⟨limits, .head⟩, .awaiting settings []), []⟩ :=
    htakes.deliver (Decoder.pull_nil _ false limits _) (Decoder.pull_nil _ false limits _)
  simp only [Drained.joined, Drained.mk.injEq] at hdelivered
  obtain ⟨hvalues, herror, hstate, hrest⟩ := hdelivered
  have hopen : (parts.deliver (⟨limits, .head⟩, .awaiting settings methods) []
      pieces).state.2.tunnel = false := by
    rw [hstate]
    rfl
  rw [Source.arrive, deliver_eq hupgraded _ [] pieces hopen]
  simp only [Drained.mapState, herror, hstate, hrest, Option.isNone_none, Bool.and_self, if_true]
  rw [Source.drain_of_none (pull_end hupgraded limits settings)]
  simp [Drained.joined, Drained.after, hvalues]

end Client

end HttpFraming
