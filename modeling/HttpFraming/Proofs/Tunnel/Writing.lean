import HttpFraming.Proofs.Conversing.Client
import HttpFraming.Proofs.Pairing.Refusals

/-!
# Writing through a tunnel

A tunnel opens when its response is read, whatever the client is writing at that time. If no
request is under way then, raw bytes can be written from there on: `Client.Exchanges.tunnel_carries`.
If one is, its rest is refused because of the tunnel, and raw bytes are refused because of the
rest: nothing can be written ever after.
-/

namespace HttpFraming

open Bytes

/-! ## Encoders -/

def Message.isMidway : Message k → Bool
  | header _ => true
  | payload item => !item.isLast
  | failure _ => false
  | raw _ => false

namespace Encoder

theorem not_isIdle_of_chunk {encoder next : Encoder} {data output : Bytes}
    (h : encoder.encode (.payload (.chunk data) : Message k) = ⟨output, next, none⟩) :
    next.isIdle = false := by
  cases hbody : encoder.body? with
  | none => simp [encode, hbody, refuse] at h
  | some writer =>
      simp only [encode, hbody, Written.map, Written.mk.injEq] at h
      obtain ⟨-, rfl, -⟩ := h
      cases writer with
      | length remaining =>
          by_cases hexcess : remaining < data.length
          · simp [BodyWriter.write, Item.data, hexcess, isIdle]
          · simp [BodyWriter.write, Item.data, Item.isLast, hexcess, isIdle]
      | chunked => rfl
      | plain => rfl
      | nothing => rfl

/-- The part that was written last tells whether a message is under way. -/
theorem isIdle_of_written {encoder next : Encoder} {message : Message k} {output : Bytes}
    (h : encoder.encode message = ⟨output, next, none⟩) : next.isIdle = !message.isMidway := by
  cases message with
  | header head =>
      simp only [encode, encodeHead] at h
      split at h
      · split at h
        · cases h
          rfl
        · cases h
      · cases h
  | payload item =>
      cases item with
      | chunk data => exact not_isIdle_of_chunk h
      | last data trailers => exact isIdle_of_last h rfl
  | failure failure => cases h
  | raw data =>
      simp only [encode] at h
      split at h
      · rename_i hidle
        cases h
        exact hidle
      · cases h

end Encoder

/-! ## Clients -/

namespace Client

/-- The parts that were offered to a client, each with whether it was written. -/
abbrev Offers := List (Message .request × Bool)

def Offers.isMidway (offers : Offers) : Bool :=
  offers.getLast?.any fun offer => offer.1.isMidway

/-- One client becomes the other by writing and reading in any order. It may be prepared for an
upgrade in between. -/
inductive Exchanges (start : Client) : Offers → Client → Prop
  | refl : Exchanges start [] start
  | send {offers : Offers} {client : Client} (h : Exchanges start offers client)
      (message : Message .request) (written : Bool)
      (hwritten : (client.encode message).error?.isNone = written) :
      Exchanges start (offers ++ [(message, written)]) (client.encode message).state
  | read {offers : Offers} {client : Client} (h : Exchanges start offers client) (ended : Bool)
      (bytes : Bytes) : Exchanges start offers (source.pull ended client bytes).state
  | prepareUpgrade {offers : Offers} {client : Client} (h : Exchanges start offers client) :
      Exchanges start offers client.prepareUpgrade

theorem encode_of_passes_eq {client : Client} (hpasses : client.passes = true)
    (message : Message .request) :
    client.encode message = match message with
      | .raw data =>
          if client.encoder.isIdle then ⟨data, client, none⟩
          else ⟨[], client, some (.unexpectedItem .rawBeforeLast)⟩
      | _ => ⟨[], client, some (.unexpectedItem .upgraded)⟩ := by
  have hraw : (client.writesRaw || client.pairing.tunnel) = true := hpasses
  unfold encode
  rw [if_pos hraw]
  cases message with
  | raw data =>
      cases hidle : client.encoder.isIdle <;>
        simp [Encoder.encode, Encoder.refuse, hidle, Written.map]
  | header h => rfl
  | payload item => rfl
  | failure failure => rfl

/-- Reading leaves an open tunnel open. -/
theorem pull_tunnel {client : Client} (htunnel : client.pairing.tunnel = true) (ended : Bool)
    (bytes : Bytes) : (source.pull ended client bytes).state.pairing.tunnel = true := by
  apply pull_pairing (p := fun pairing => pairing.tunnel = true)
  · intro pairing status hopen
    simp [ClientPairing.responseHead, hopen]
  · intro pairing hopen
    exact hopen
  · exact htunnel

namespace Exchanges

variable {settings : ClientSettings} {limits : Limits} {opened client : Client}
  {before later : Offers}

/-- A client whose parts were all written is idle exactly between its requests, whatever it has
read meanwhile. -/
theorem isIdle_of_all_written (h : (fresh settings limits).Exchanges before client)
    (hwritten : ∀ offer ∈ before, offer.2 = true) : client.encoder.isIdle = !before.isMidway := by
  induction h with
  | refl => rfl
  | @send offers client _ message written hthis ih =>
      have hthere : written = true := hwritten (message, written) (by simp)
      have hok : (client.encode message).error? = none := by
        simpa [hthere] using hthis
      have hlast : Offers.isMidway (offers ++ [(message, written)]) = message.isMidway := by
        simp [Offers.isMidway]
      rw [hlast]
      cases hpasses : client.passes with
      | false =>
          obtain ⟨hwrites, htunnel⟩ := Bool.or_eq_false_iff.mp hpasses
          obtain ⟨hencoder, hstate⟩ := encode_ok hwrites htunnel rfl hok
          have hstep : client.encoder.encode message =
              ⟨(client.encoder.encode message).output, (client.encoder.encode message).state,
                none⟩ := by
            rw [← hencoder]
          rw [hstate]
          exact Encoder.isIdle_of_written hstep
      | true =>
          -- Outside of the protocol only raw bytes are written, and only by an idle encoder.
          rw [encode_of_passes_eq hpasses] at hok ⊢
          cases message with
          | raw data =>
              cases hbusy : client.encoder.isIdle with
              | true => simp [hbusy, Message.isMidway]
              | false => simp [hbusy] at hok
          | header h => simp at hok
          | payload item => simp at hok
          | failure failure => simp at hok
  | @read offers client _ ended bytes ih =>
      obtain ⟨_, _, hkeeps⟩ := client.pull_keeps ended bytes
      rw [hkeeps]
      exact ih hwritten
  | prepareUpgrade _ ih => exact ih hwritten

/-- In a tunnel neither writing nor reading changes the encoder. -/
theorem encoder_of_tunnel (h : opened.Exchanges later client)
    (htunnel : opened.pairing.tunnel = true) :
    client.pairing.tunnel = true ∧ client.encoder = opened.encoder := by
  induction h with
  | refl => exact ⟨htunnel, rfl⟩
  | @send offers client _ message written _ ih =>
      have hpasses : client.passes = true := by simp [passes, ih.1]
      have hsame : (client.encode message).state = client := by
        rw [encode_of_passes_eq hpasses]
        cases message with
        | raw data => dsimp only; split <;> rfl
        | header h => rfl
        | payload item => rfl
        | failure failure => rfl
      rw [hsame]
      exact ih
  | @read offers client _ ended bytes ih =>
      obtain ⟨_, _, hkeeps⟩ := client.pull_keeps ended bytes
      refine ⟨pull_tunnel ih.1 ended bytes, ?_⟩
      rw [hkeeps]
      exact ih.2
  | prepareUpgrade _ ih => exact ih

/-- A tunnel that opens between the requests of a client carries from then on whatever raw bytes
are written, as they are. One that opens with a request under way carries nothing: every part is
refused ever after, and the client stays as it is. -/
theorem tunnel_carries (hbefore : (fresh settings limits).Exchanges before opened)
    (hwritten : ∀ offer ∈ before, offer.2 = true) (htunnel : opened.pairing.tunnel = true)
    (hlater : opened.Exchanges later client) :
    (before.isMidway = false → ∀ data, client.encode (.raw data) = ⟨data, client, none⟩) ∧
      (before.isMidway = true → ∀ message,
        ∃ fault, client.encode message = ⟨[], client, some (.unexpectedItem fault)⟩) := by
  have hidle := hbefore.isIdle_of_all_written hwritten
  obtain ⟨hopen, hencoder⟩ := hlater.encoder_of_tunnel htunnel
  have hpasses : client.passes = true := by simp [passes, hopen]
  refine ⟨fun hbetween data => ?_, fun hmidway message => ?_⟩
  · simp [encode_of_passes_eq hpasses, hencoder, hidle, hbetween]
  · rw [encode_of_passes_eq hpasses]
    cases message with
    | raw data => exact ⟨.rawBeforeLast, by simp [hencoder, hidle, hmidway]⟩
    | header h => exact ⟨.upgraded, rfl⟩
    | payload item => exact ⟨.upgraded, rfl⟩
    | failure failure => exact ⟨.upgraded, rfl⟩

/-- A request for a tunnel that is written to its end before the response is read. -/
theorem tunnel_carries_of_connect :
    let head : Message .request := .header { line := ⟨.connect, .root⟩ }
    let asked := (((fresh {} {}).encode head).state.encode (.payload .done)).state
    let opened := (source.pull false asked (ascii "HTTP/1.1 200 OK\r\n\r\n")).state
    opened.pairing.tunnel = true ∧
      opened.encode (.raw (ascii "hello")) = ⟨ascii "hello", opened, none⟩ := by
  intro head asked opened
  have hhead : ((fresh {} {}).encode head).error?.isNone = true := by decide +kernel
  have hlast : (((fresh {} {}).encode head).state.encode (.payload .done)).error?.isNone = true := by
    decide +kernel
  have htunnel : opened.pairing.tunnel = true := by decide +kernel
  have hbefore : (fresh {} {}).Exchanges [(head, true), (.payload .done, true)] opened :=
    ((refl.send head true hhead).send (.payload .done) true hlast).read false _
  exact ⟨htunnel, (tunnel_carries hbefore (by simp) htunnel .refl).1 rfl (ascii "hello")⟩

end Exchanges

/-- A response that opens a tunnel and is read before the last part of its request is written. From
there on the raw bytes are refused, as the request has not ended, and so is its end, as there is a
tunnel. -/
theorem encode_of_early_tunnel :
    let head : Message .request := .header { line := ⟨.connect, .root⟩ }
    let asked := (fresh {} {}).encode head
    let opened := (source.pull false asked.state (ascii "HTTP/1.1 200 OK\r\n\r\n")).state
    asked.error? = none ∧ opened.pairing.tunnel = true ∧
      (fresh {} {}).Exchanges [(head, true)] opened ∧
      (opened.encode (.raw (ascii "hello"))).error? = some (.unexpectedItem .rawBeforeLast) ∧
      (opened.encode (.payload .done)).error? = some (.unexpectedItem .upgraded) := by
  intro head asked opened
  have hhead : asked.error?.isNone = true := by decide +kernel
  have hbefore : (fresh {} {}).Exchanges [(head, true)] opened :=
    (Exchanges.refl.send head true hhead).read false _
  exact ⟨by decide +kernel, by decide +kernel, hbefore, by decide +kernel, by decide +kernel⟩

end Client

end HttpFraming
