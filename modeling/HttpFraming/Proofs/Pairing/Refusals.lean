import HttpFraming.Endpoint.Server

/-!
# What a refused part leaves of the pairing

Either end pairs a head before its encoder accepts or refuses it, so a refused head leaves a
trace: the client waits for a response to a request that was never written, and the server
has given up a request that was never answered. No other part that is refused changes what
is waited for: `pairing_of_refused`. The queue of a client therefore holds the methods of the
requests that were written, and of no others, exactly as long as no head was refused:
`Client.offer_pending_iff`.
-/

namespace HttpFraming

open Bytes

def Message.method? : Message .request → Option Method
  | .header h => some h.method
  | _ => none

/-! ## One part -/

namespace Client

/-- Whether the client has left the protocol in the direction in which it writes. -/
def passes (client : Client) : Bool :=
  client.writesRaw || client.pairing.tunnel

/-- The requests that wait for a response once a part was offered, be it written or refused. -/
def pendingWith (client : Client) (message : Message .request) : Pending :=
  match message.method? with
  | none => client.pairing.pending
  | some method =>
      if client.passes then client.pairing.pending else client.pairing.pending.push method

theorem pendingWith_eq_iff (client : Client) (message : Message .request) :
    client.pendingWith message = client.pairing.pending ↔
      message.method? = none ∨ client.passes = true := by
  have hpush : ∀ method, client.pairing.pending.push method ≠ client.pairing.pending :=
    fun method hsame => by simpa [Pending.push, Pending.size] using congrArg Pending.size hsame
  cases hmethod : message.method? with
  | none => simp [pendingWith, hmethod]
  | some method => cases hpasses : client.passes <;> simp [pendingWith, hmethod, hpasses, hpush]

theorem encode_of_passes {client : Client} (hpasses : client.passes = true)
    (message : Message .request) : (client.encode message).state.pairing = client.pairing := by
  have hraw : (client.writesRaw || client.pairing.tunnel) = true := hpasses
  unfold encode
  rw [if_pos hraw]
  cases message <;> rfl

theorem requestSent_pending (pairing : ClientPairing) :
    pairing.requestSent.pending = pairing.pending ∧ pairing.requestSent.tunnel = pairing.tunnel := by
  unfold ClientPairing.requestSent
  split <;> exact ⟨rfl, rfl⟩

/-- A head is paired, whatever its encoder makes of it, and a last piece that was written
completes a request. Nothing else matters to the pairing. -/
theorem encode_pairing (client : Client) (message : Message .request) :
    (client.encode message).state.pairing =
        { client.pairing with pending := client.pendingWith message } ∨
      (client.encode message).error? = none ∧
        client.pendingWith message = client.pairing.pending ∧
        (client.encode message).state.pairing = client.pairing.requestSent := by
  cases hpasses : client.passes with
  | true =>
      left
      rw [encode_of_passes hpasses, pendingWith, hpasses]
      cases message.method? <;> rfl
  | false =>
      have hopen : ¬(client.writesRaw || client.pairing.tunnel) = true := by
        rw [← passes, hpasses]
        exact Bool.false_ne_true
      have htunnel : ¬client.pairing.tunnel = true := fun h => hopen (by simp [h])
      unfold encode
      rw [if_neg hopen]
      cases message with
      | header h =>
          left
          simp [Written.map, ClientPairing.requestHead, if_neg htunnel, pendingWith,
            Message.method?, hpasses]
      | payload item =>
          simp only [Written.map]
          split
          · rename_i hsent
            simp only [Bool.and_eq_true, Option.isNone_iff_eq_none] at hsent
            exact .inr ⟨hsent.1.2, rfl, rfl⟩
          · exact .inl rfl
      | failure failure => exact .inl rfl
      | raw data => exact .inl rfl

theorem encode_pending (client : Client) (message : Message .request) :
    (client.encode message).state.pairing.pending = client.pendingWith message := by
  rcases client.encode_pairing message with hpaired | ⟨-, hsame, hsent⟩
  · rw [hpaired]
  · rw [hsent, (requestSent_pending client.pairing).1, hsame]

theorem encode_of_error {client : Client} {message : Message .request}
    (herror : (client.encode message).error?.isSome = true) :
    (client.encode message).state.pairing =
      { client.pairing with pending := client.pendingWith message } := by
  rcases client.encode_pairing message with hpaired | ⟨hnone, -, -⟩
  · exact hpaired
  · simp [hnone] at herror

theorem encode_passes (client : Client) (message : Message .request) :
    (client.encode message).state.passes = client.passes := by
  have hwrites : (client.encode message).state.writesRaw = client.writesRaw := by
    unfold encode
    split
    · cases message <;> rfl
    · rfl
  have htunnel : (client.encode message).state.pairing.tunnel = client.pairing.tunnel := by
    rcases client.encode_pairing message with hpaired | ⟨-, -, hsent⟩
    · rw [hpaired]
    · rw [hsent, (requestSent_pending client.pairing).2]
  rw [passes, hwrites, htunnel, passes]

end Client

namespace Server

def pendingWith (server : Server) : Message .response → Pending
  | .header response =>
      if server.upgraded then server.pairing.pending
      else (server.pairing.pending.answer response.status).2
  | _ => server.pairing.pending

theorem pendingWith_eq_iff (server : Server) (message : Message .response) :
    server.pendingWith message = server.pairing.pending ↔
      ∀ response, message = .header response →
        server.upgraded = true ∨ response.status.isInterim = true ∨
          server.pairing.pending.methods = [] := by
  cases message with
  | header response =>
      cases hupgraded : server.upgraded with
      | true => simp [pendingWith, hupgraded]
      | false =>
          cases hinterim : response.status.isInterim with
          | true => simp [pendingWith, hupgraded, Pending.answer, hinterim]
          | false =>
              rcases hpending : server.pairing.pending with ⟨methods⟩
              cases methods <;> simp [pendingWith, hupgraded, Pending.answer, hinterim, hpending]
  | payload item => simp [pendingWith]
  | failure failure => simp [pendingWith]
  | raw data => simp [pendingWith]

theorem encode_pending (server : Server) (message : Message .response) :
    (server.encode message).state.pairing = ⟨server.pendingWith message⟩ := by
  cases message with
  | header response =>
      cases hupgraded : server.upgraded with
      | true => simp [encode, pendingWith, hupgraded]
      | false =>
          simp [encode, pendingWith, hupgraded, Written.map, ServerPairing.responseHead]
  | payload item => rfl
  | failure failure => rfl
  | raw data => rfl

end Server

/-- A refused part leaves the pairing of either end as it was, unless it is a head in the
protocol: then a client waits for one response more, and a server for one answer less. A server
has nothing to lose to an interim head, or if no request waits. -/
theorem pairing_of_refused (client : Client) (request : Message .request) (server : Server)
    (response : Message .response) :
    ((client.encode request).error?.isSome = true →
      (client.encode request).state.pairing =
          { client.pairing with pending := client.pendingWith request } ∧
        ((client.encode request).state.pairing = client.pairing ↔
          request.method? = none ∨ client.passes = true)) ∧
      ((server.encode response).error?.isSome = true →
        (server.encode response).state.pairing = ⟨server.pendingWith response⟩ ∧
          ((server.encode response).state.pairing = server.pairing ↔
            ∀ head, response = .header head → server.upgraded = true ∨
              head.status.isInterim = true ∨ server.pairing.pending.methods = [])) := by
  refine ⟨fun herror => ?_, fun _ => ?_⟩
  · have hleft := Client.encode_of_error herror
    refine ⟨hleft, ?_⟩
    rw [hleft, ← client.pendingWith_eq_iff request]
    exact ⟨congrArg ClientPairing.pending, fun hsame => by rw [hsame]⟩
  · have hleft := server.encode_pending response
    refine ⟨hleft, ?_⟩
    rw [hleft, ← server.pendingWith_eq_iff response]
    exact ⟨congrArg ServerPairing.pending, congrArg ServerPairing.mk⟩

/-- A second head while the body of the first is unfinished is refused and yet waited for, so
the response to the next request that is written is taken for one to HEAD and read without its
body. A response of a version that has no written form is refused and yet uses up its request. -/
theorem pending_of_refused_head :
    let get : Request := { line := ⟨.get, .root⟩ }
    let client := (({} : Client).encode (.header get)).state
    let refused := client.encode (.header { line := ⟨.head, .root⟩ })
    let later := (((refused.state.encode (.payload .done)).state.encode (.header get)).state.encode
      (.payload .done)).state
    let server : Server := { pairing := ⟨⟨[.get]⟩⟩ }
    let unwritten := server.encode (.header { line := .ok, version := .http2 })
    (refused.error? = some (.unexpectedItem .headBeforeLast) ∧
      client.pairing.pending.methods = [.get] ∧
      refused.state.pairing.pending.methods = [.get, .head]) ∧
      ((later.pairing.responseHead .ok).2.responseHead .ok).1 = true ∧
      unwritten.error? = some .unsupportedVersion ∧
      unwritten.state.pairing.pending.methods = [] := by
  decide +kernel

/-- The same refusals, from the general theorem. -/
theorem pairing_of_refused_of_second_head :
    let client := (({} : Client).encode (.header { line := ⟨.get, .root⟩ })).state
    let second : Message .request := .header { line := ⟨.head, .root⟩ }
    let server : Server := { pairing := ⟨⟨[.get]⟩⟩ }
    let unwritten : Message .response := .header { line := .ok, version := .http2 }
    (client.encode second).state.pairing = { client.pairing with pending := ⟨[.get, .head]⟩ } ∧
      (server.encode unwritten).state.pairing = ⟨⟨[]⟩⟩ := by
  intro client second server unwritten
  obtain ⟨hclient, hserver⟩ := pairing_of_refused client second server unwritten
  exact ⟨(hclient (by decide +kernel)).1, (hserver (by decide +kernel)).1⟩

/-! ## Many parts -/

namespace Client

def offer (client : Client) (messages : List (Message .request)) : Client :=
  messages.foldl (fun client message => (client.encode message).state) client

def offeredHeads (client : Client) : List (Message .request) → List (Method × Bool)
  | [] => []
  | message :: more =>
      (message.method?.map fun method => (method, (client.encode message).error?.isNone)).toList ++
        (client.encode message).state.offeredHeads more

/-- In the protocol, every head that was offered is waited for. -/
theorem offer_pending {client : Client} (hopen : client.passes = false)
    (messages : List (Message .request)) :
    (client.offer messages).pairing.pending.methods =
      client.pairing.pending.methods ++ (client.offeredHeads messages).map Prod.fst := by
  induction messages generalizing client with
  | nil => simp [offer, offeredHeads]
  | cons message more ih =>
      have hnext := ih ((client.encode_passes message).trans hopen)
      rw [client.encode_pending] at hnext
      rw [show client.offer (message :: more) = (client.encode message).state.offer more from rfl,
        hnext, offeredHeads]
      cases hmethod : message.method? with
      | none => simp [pendingWith, hmethod]
      | some method => simp [pendingWith, hmethod, hopen, Pending.push]

/-- The requests that were written, and no others, are waited for exactly if no head was
refused. -/
theorem offer_pending_iff {client : Client} (hopen : client.passes = false)
    (messages : List (Message .request)) :
    (client.offer messages).pairing.pending.methods = client.pairing.pending.methods ++
        ((client.offeredHeads messages).filter Prod.snd).map Prod.fst ↔
      ∀ head ∈ client.offeredHeads messages, head.2 = true := by
  rw [offer_pending hopen, List.append_cancel_left_eq]
  constructor
  · intro hsame
    have hlength := congrArg List.length hsame
    simp only [List.length_map] at hlength
    exact List.length_filter_eq_length_iff.mp hlength.symm
  · intro hall
    rw [List.filter_eq_self.mpr hall]

end Client

end HttpFraming
