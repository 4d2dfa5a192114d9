import HttpFraming.Message.Decoder
import HttpFraming.Message.Encoder
import HttpFraming.Pairing

/-!
# The client's end of a connection

Writes requests and reads the responses to them. Once a tunnel is open, or the
connection was upgraded, bytes pass in both directions as they are.
-/

namespace HttpFraming

def Message.takeRaw (bytes : Bytes) : Option (Message k) :=
  if bytes.isEmpty then none else some (.raw bytes)

structure Client where
  encoder : Encoder := {}
  decoder : Decoder .response := {}
  pairing : ClientPairing := {}
  writesRaw : Bool := false
  upgraded : Bool := false
deriving DecidableEq

namespace Client

/-- From now on only raw bytes are written. -/
def prepareUpgrade (client : Client) : Client :=
  { client with writesRaw := true }

/-- From now on only raw bytes are written and read. -/
def upgrade (client : Client) : Client :=
  { client with writesRaw := true, upgraded := true }

/-- Whether bytes are read as they are. The response that opens a tunnel is still read
to its end. -/
def readsRaw (client : Client) : Bool :=
  client.upgraded || (client.pairing.tunnel && client.decoder.isIdle)

def bodilessRule : HeadRule .response ClientPairing :=
  fun response pairing => pairing.responseHead response.status

def decode (client : Client) (ended : Bool) (bytes : Bytes) :
    Option (Message .response) × Client × Bytes :=
  if client.readsRaw then (Message.takeRaw bytes, client, [])
  else
    let ⟨message?, decoder, pairing, rest⟩ :=
      client.decoder.decode bodilessRule ended client.pairing bytes
    (message?, { client with decoder, pairing }, rest)

/-- At the end of the input, and with nothing left to read, the pairing is closed. -/
def pull (ended : Bool) (client : Client) (bytes : Bytes) : Pull Client (Message .response) :=
  match client.decode ended bytes with
  | (some message, client, rest) => ⟨.ok (some message), client, rest⟩
  | (none, client, rest) =>
      if ended then
        let (error?, pairing) := client.pairing.close
        let answer := error?.elim (.ok none) fun error => .error (.exchange error)
        ⟨answer, { client with pairing }, rest⟩
      else ⟨.ok none, client, rest⟩

theorem decode_lt {client : Client} {ended : Bool} {bytes : Bytes} {message : Message .response}
    (h : (client.decode ended bytes).1 = some message) :
    2 * (client.decode ended bytes).2.2.length + (client.decode ended bytes).2.1.decoder.weight <
      2 * bytes.length + client.decoder.weight := by
  unfold decode at h ⊢
  split
  · rename_i hraw
    simp only [hraw, if_true, Message.takeRaw] at h
    cases bytes with
    | nil => simp at h
    | cons b rest => simp
  · rename_i hraw
    simp only [hraw] at h
    exact Decoder.decode_lt h

def source : Source Client (Message .response) where
  pull := pull
  weight client := client.decoder.weight
  pull_lt ended client bytes message h := by
    have hlt := @decode_lt client ended bytes
    unfold pull at h ⊢
    split
    · rename_i message' next rest hdecode
      rw [hdecode] at hlt
      exact hlt rfl
    · rename_i next rest hdecode
      simp only [hdecode] at h
      split at h
      · cases hclose : next.pairing.close.1 <;> simp [hclose] at h
      · simp at h

/-- Writes a message part. The method of a head is paired before the head is written,
whether it can be written or not. -/
def encode (client : Client) (message : Message .request) : Written Client :=
  if client.writesRaw || client.pairing.tunnel then
    match message with
    | .raw _ => (client.encoder.encode message).map fun encoder => { client with encoder }
    | _ => ⟨[], client, some (.unexpectedItem .upgraded)⟩
  else
    let paired := match message with
      | .header h => client.pairing.requestHead h.method
      | _ => client.pairing
    let written := client.encoder.encode message
    let ends := match message with
      | .payload item => item.isLast
      | _ => false
    let sent := ends && written.error?.isNone && written.state.isIdle
    let pairing := if sent then paired.requestSent else paired
    written.map fun encoder => { client with encoder, pairing }

end Client

end HttpFraming
