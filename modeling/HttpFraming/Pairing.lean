import HttpFraming.Framing

/-!
# Pairing requests and responses

Responses come in the order of their requests, so an end of a connection keeps the
methods of the requests that still wait. An interim response looks at the oldest one
and a final response takes it.
-/

namespace HttpFraming

/-! ## Unanswered requests -/

structure Pending where
  methods : List Method := []
deriving DecidableEq

namespace Pending

def push (pending : Pending) (method : Method) : Pending :=
  ⟨pending.methods ++ [method]⟩

def size (pending : Pending) : Nat :=
  pending.methods.length

def answer (pending : Pending) (status : Status) : Option Method × Pending :=
  if status.isInterim then (pending.methods.head?, pending)
  else (pending.methods.head?, ⟨pending.methods.tail⟩)

end Pending

def Status.opensTunnel (status : Status) (method? : Option Method) : Bool :=
  method? == some .connect && status.isSuccess

/-- Whether a response has no body, given the method of the request it answers. -/
def Status.isBodilessFor (status : Status) (method? : Option Method) : Bool :=
  status.isBodiless || method? == some .head || status.opensTunnel method?

/-! ## The side of the client

The client pushes the method of every request it writes and pairs it with a response
it reads. It can also count the requests that were sent as a whole, so that a
connection that closes with some of them unanswered is reported. -/

structure ClientSettings where
  reportMissing : Bool := false
  parseAfterConnect : Bool := false
deriving DecidableEq

/-- `outstanding` is the number of requests sent as a whole less the number of final
responses; it is negative while a response came before its request was sent. -/
structure ClientPairing where
  settings : ClientSettings := {}
  pending : Pending := {}
  tunnel : Bool := false
  outstanding : Int := 0
deriving DecidableEq

namespace ClientPairing

def requestHead (pairing : ClientPairing) (method : Method) : ClientPairing :=
  if pairing.tunnel then pairing
  else { pairing with pending := pairing.pending.push method }

def requestSent (pairing : ClientPairing) : ClientPairing :=
  if pairing.settings.reportMissing && !pairing.tunnel then
    { pairing with outstanding := pairing.outstanding + 1 }
  else pairing

/-- A response head was read. Says whether the response has no body; one that opens
a tunnel ends the pairing, unless the client keeps to the protocol. -/
def responseHead (pairing : ClientPairing) (status : Status) : Bool × ClientPairing :=
  let (method?, pending) := pairing.pending.answer status
  let counts := pairing.settings.reportMissing && !status.isInterim
  let outstanding := if counts then pairing.outstanding - 1 else pairing.outstanding
  let tunnels := status.opensTunnel method? && !pairing.settings.parseAfterConnect
  (status.isBodilessFor method?,
    { pairing with
      pending := if tunnels then {} else pending
      tunnel := pairing.tunnel || tunnels
      outstanding })

/-- The connection has closed. Requests that will never be answered are reported
once. -/
def close (pairing : ClientPairing) : Option ExchangeError × ClientPairing :=
  let missing := pairing.settings.reportMissing && 0 < pairing.outstanding
  (if missing then some (.prematureClosure pairing.outstanding.toNat) else none,
    { pairing with outstanding := 0 })

end ClientPairing

/-! ## The side of the server

The server pushes the method of every request it reads and pairs it with a response
it writes. The method and the status decide whether the response may have a body and
which framing fields its head may carry. -/

def Head.sanitize (response : Response) : Response :=
  let status := response.status
  if status.isInformational || status == .noContent then
    let fields := (response.fields.remove .contentLength).remove .transferEncoding
    { response with fields }
  else if status == .resetContent then response.announce .empty
  else response

theorem Head.sanitize_status (response : Response) : response.sanitize.status = response.status := by
  unfold sanitize
  dsimp only
  split
  · rfl
  · split <;> rfl

structure ServerPairing where
  pending : Pending := {}
deriving DecidableEq

/-- What is decided about a response: its head as it is to be written, and the framing
that is forced on it. Without one the head itself decides. -/
structure ResponsePlan where
  head : Response
  forced? : Option Framing

namespace ServerPairing

def requestHead (pairing : ServerPairing) (method : Method) : ServerPairing :=
  ⟨pairing.pending.push method⟩

def responseHead (pairing : ServerPairing) (response : Response) :
    ResponsePlan × ServerPairing :=
  let status := response.status
  let (method?, pending) := pairing.pending.answer status
  let response := response.sanitize
  let response :=
    if status.opensTunnel method? then
      { response with fields := response.fields.remove .transferEncoding }
    else response
  let forced? := if status.isBodilessFor method? then some .empty else none
  (⟨response, forced?⟩, ⟨pending⟩)

end ServerPairing

end HttpFraming
