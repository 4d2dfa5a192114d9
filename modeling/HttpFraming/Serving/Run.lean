import HttpFraming.Serving.Acts

/-!
# Serving a connection

A connection is served read by read: whatever the collector can make of the bytes is
dealt with before the next read. Serving ends with the input, with a message after
which the connection is not kept, or with an error.
-/

namespace HttpFraming

inductive Pause
  | waiting
  | finished
  | failed (error : HttpError)
deriving DecidableEq

namespace Session

/-- Requests are collected as a whole, every one of them, with an account of the block that
their bytes come from. -/
def source : Source ((Server × Block) × Collector .request Unit) (Collected .request) :=
  (Server.source.observed Block.note).collected (selectAll .request)

def pull (ended : Bool) (session : Session η) :
    Except HttpError (Option (Collected .request)) × Session η :=
  let ⟨answer, ((server, block), collector), inbox⟩ :=
    source.pull ended ((session.server, session.block), session.collector) session.inbox
  (answer, { session with server, block, collector, inbox })

/-- What bounds the number of things that can be made of the inbox. -/
def potential (session : Session η) : Nat :=
  2 * session.inbox.length + session.server.decoder.weight

theorem pull_lt {ended : Bool} {session : Session η} {collected : Collected .request}
    (h : (session.pull ended).1 = .ok (some collected)) :
    (session.pull ended).2.potential < session.potential :=
  source.pull_lt ended ((session.server, session.block), session.collector) session.inbox
    collected h

set_option linter.unusedVariables false in
/-- Deals with everything that can be made of the inbox. An error of the input is
answered with 400, as far as that can still be written. -/
def serveInbox (handle : Handler η) (ended : Bool) (session : Session η) : Pause × Session η :=
  match h : session.pull ended with
  | (.error error, session) => (.failed error, Act.after sendBadRequest session)
  | (.ok none, session) => (.waiting, session)
  | (.ok (some collected), pulled) =>
      match hrespond : respond handle collected pulled with
      | .error error session => (.failed error, session)
      | .ok false session => (.finished, session)
      | .ok true session => serveInbox handle ended session
termination_by session.potential
decreasing_by
  have hlt := @pull_lt _ ended _ collected (congrArg Prod.fst h)
  rw [h] at hlt
  have hinput := (Act.IgnoresInput.respond handle collected).input_eq hrespond
  have hinbox : session.inbox = pulled.inbox := congrArg Input.inbox hinput
  have hdecoder : session.server.decoder = pulled.server.decoder := congrArg Input.decoder hinput
  simpa only [potential, hinbox, hdecoder] using hlt

def makeRoom (session : Session η) : Block :=
  session.block.makeRoom (session.block.isHeld session.collector) session.inbox.length

def receive (handle : Handler η) (data : Bytes) (session : Session η) : Pause × Session η :=
  if data.isEmpty then (.waiting, session)
  else
    let block := session.makeRoom
    let piece := data.take block.free
    let inbox := session.inbox ++ piece
    match serveInbox handle false { session with inbox, block := block.fill piece.length } with
    | (.waiting, next) => receive handle (data.drop block.free) next
    | stopped => stopped
termination_by data.length
decreasing_by
  have hpos : 0 < session.makeRoom.free := Block.makeRoom_free_pos ..
  cases data with
  | nil => simp_all
  | cons b rest =>
      simp only [List.length_drop, List.length_cons]
      omega

/-- Serves the reads one after the other and then the end of the input. -/
def run (handle : Handler η) : List Read → Session η → Except HttpError Unit × Session η
  | [], session =>
      match serveInbox handle true session with
      | (.failed error, session) => (.error error, session)
      | (_, session) => (.ok (), session)
  | .error text :: _, session =>
      (.error (.read (.io text)), Act.after sendBadRequest session)
  | .bytes data :: more, session =>
      match receive handle data session with
      | (.waiting, session) => run handle more session
      | (.finished, session) => (.ok (), session)
      | (.failed error, session) => (.error error, session)

def start (limits : Limits) (settings : CollectSettings) (outlet : Outlet) (handler : η) :
    Session η where
  server := { decoder := { limits } }
  collector := ⟨settings, (), .idle⟩
  handler := handler
  outlet := outlet

end Session

/-- What can be seen of a session from outside: the requests handed to the handler, and
the bytes written between them. -/
def Event.merge : List Event → List Event
  | [] => []
  | .answered _ :: more => merge more
  | .wrote data :: more =>
      match merge more with
      | .wrote next :: rest => .wrote (data ++ next) :: rest
      | rest => .wrote data :: rest
  | event :: more => event :: merge more

def Event.output (events : List Event) : Bytes :=
  events.flatMap fun
    | .wrote data => data
    | _ => []

theorem Event.output_merge (events : List Event) : output (merge events) = output events := by
  fun_induction merge events with
  | case1 => rfl
  | case2 response more ih => simpa [output] using ih
  | case3 data more next rest hmore ih =>
      rw [hmore] at ih
      simpa [output] using ih
  | case4 data more rest ih => simpa [output] using ih
  | case5 event more _ _ ih => simpa [output] using ih

end HttpFraming
