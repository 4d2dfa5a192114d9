import HttpFraming.Endpoint.Client
import HttpFraming.Pairing

/-!
# The server's end of a connection

Reads requests and writes the responses to them, each framed by the method of the
request it answers. Once upgraded, bytes are read as they are.
-/

namespace HttpFraming

structure Server where
  decoder : Decoder .request := {}
  encoder : Encoder := {}
  pairing : ServerPairing := {}
  upgraded : Bool := false
deriving DecidableEq

namespace Server

def upgrade (server : Server) : Server :=
  { server with upgraded := true }

def noteMessage (server : Server) (message? : Option (Message .request)) : Server :=
  match message? with
  | some (.header h) => { server with pairing := server.pairing.requestHead h.method }
  | _ => server

def pull (ended : Bool) (server : Server) (bytes : Bytes) : Pull Server (Message .request) :=
  if server.upgraded then ⟨.ok (Message.takeRaw bytes), server, []⟩
  else
    let ⟨message?, decoder, _, rest⟩ :=
      server.decoder.decode (statusRule .request) ended () bytes
    ⟨.ok message?, { server with decoder }.noteMessage message?, rest⟩

theorem noteMessage_decoder (server : Server) (message? : Option (Message .request)) :
    (server.noteMessage message?).decoder = server.decoder := by
  unfold noteMessage
  split <;> rfl

theorem noteMessage_upgraded (server : Server) (message? : Option (Message .request)) :
    (server.noteMessage message?).upgraded = server.upgraded := by
  unfold noteMessage
  split <;> rfl

def source : Source Server (Message .request) where
  pull := pull
  weight server := server.decoder.weight
  pull_lt ended server bytes message h := by
    unfold pull at h ⊢
    split
    · rename_i hraw
      simp only [hraw, if_true, Message.takeRaw] at h
      cases bytes with
      | nil => simp at h
      | cons b rest => simp
    · rename_i hraw
      simp only [hraw] at h
      have hlt := Decoder.decode_lt (Except.ok.inj h)
      simpa only [noteMessage_decoder] using hlt

def encode (server : Server) (message : Message .response) : Written Server :=
  match message with
  | .header response =>
      if server.upgraded then ⟨[], server, some (.unexpectedItem .upgraded)⟩
      else
        let (plan, pairing) := server.pairing.responseHead response
        let framing := plan.forced?.getD plan.head.announcedFraming
        (server.encoder.encodeHead plan.head framing).map fun encoder =>
          { server with encoder, pairing }
  | _ => (server.encoder.encode message).map fun encoder => { server with encoder }

def encodeWhole (server : Server) (response : Response) : Written Server :=
  let written := server.encode (.header response)
  if written.error?.isSome then written
  else
    let ended := written.state.encode (.payload .done)
    { ended with output := written.output ++ ended.output }

/-! ## Writing leaves reading alone -/

/-- An encoding step that neither looks at what reads nor upgrades. -/
structure IgnoresInput (encode : Server → Written Server) : Prop where
  decoder : ∀ server decoder, encode { server with decoder } =
    (encode server).map fun server => { server with decoder }
  upgraded : ∀ server, (encode server).state.upgraded = server.upgraded

theorem ignoresInput_encode (message : Message .response) :
    IgnoresInput (·.encode message) := by
  cases message with
  | header response =>
      constructor
      · intro server decoder
        by_cases hupgraded : server.upgraded = true
        · simp [encode, hupgraded, Written.map]
        · simp [encode, hupgraded, Written.map]
      · intro server
        by_cases hupgraded : server.upgraded = true
        · simp [encode, hupgraded]
        · simp [encode, hupgraded, Written.map]
  | payload item => exact ⟨fun _ _ => rfl, fun _ => rfl⟩
  | failure reason => exact ⟨fun _ _ => rfl, fun _ => rfl⟩
  | raw data => exact ⟨fun _ _ => rfl, fun _ => rfl⟩

theorem ignoresInput_encodeWhole (response : Response) :
    IgnoresInput (·.encodeWhole response) := by
  have hhead := ignoresInput_encode (.header response)
  have hdone := ignoresInput_encode (.payload .done)
  constructor
  · intro server decoder
    simp only [encodeWhole, hhead.decoder server decoder, Written.map]
    split
    · rfl
    · rw [hdone.decoder]
      rfl
  · intro server
    simp only [encodeWhole]
    split
    · exact hhead.upgraded server
    · exact (hdone.upgraded _).trans (hhead.upgraded server)

theorem IgnoresInput.decoder_eq {encode : Server → Written Server} (h : IgnoresInput encode)
    (server : Server) : (encode server).state.decoder = server.decoder :=
  congrArg (·.state.decoder) (h.decoder server server.decoder)

end Server

end HttpFraming
