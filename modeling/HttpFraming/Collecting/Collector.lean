import HttpFraming.Collecting.Admission
import HttpFraming.Message

/-!
# Collecting messages

A collector joins the parts of a message into one. A rule selects, once for each
head, which messages it collects; the parts of the others pass as they are. What it
collects is bounded: a request that grows beyond the limit is refused and the rest of
it dropped, a response that does is an error. After an error, a closing reply or a
fatal failure the collector is closed.
-/

namespace HttpFraming

/-- A message in one piece. One that failed has its head and the cause, but no
content. -/
structure WholeMessage (k : Kind) where
  head : Head k
  chunks : List Bytes
  length : Nat
  trailers : Fields
  failure? : Option ReadError
deriving DecidableEq

namespace WholeMessage

def body (message : WholeMessage k) : Bytes :=
  message.chunks.flatten

def failed (head : Head k) (cause : ReadError) : WholeMessage k :=
  ⟨head, [], 0, ∅, some cause⟩

end WholeMessage

/-- What leaves a collector: a message in one piece, a part that passed, or a reply to
be written before anything else. -/
inductive Collected (k : Kind)
  | message (message : WholeMessage k)
  | forward (message : Message k)
  | reply (reply : Reply)
deriving DecidableEq

/-- The chunks collected so far and their length. No chunk is empty. -/
structure Content where
  chunks : List Bytes := []
  length : Nat := 0
deriving DecidableEq

def Content.push (content : Content) (data : Bytes) : Content :=
  if data.isEmpty then content
  else ⟨content.chunks ++ [data], content.length + data.length⟩

/-- The message of an admitted head. Its length is now known, and is what it
announces. -/
def Content.finish (content : Content) (h : Head k) (trailers : Fields) : WholeMessage k :=
  ⟨h.announce (.length content.length), content.chunks, content.length, trailers, none⟩

inductive CollectPhase (k : Kind)
  | idle
  | collecting (head : Head k) (content : Content) (awaited : Bool)
  | passing
  | dropping
  | closed
deriving DecidableEq

structure Collector (k : Kind) (ρ : Type) where
  settings : CollectSettings
  rule : ρ
  phase : CollectPhase k := .idle

namespace Collector

abbrev Step (k : Kind) (ρ : Type) := Except CollectError (Option (Collected k)) × Collector k ρ

def isIdle (collector : Collector k ρ) : Bool :=
  collector.phase == .idle

def isClosed (collector : Collector k ρ) : Bool :=
  collector.phase == .closed

def enter (collector : Collector k ρ) (phase : CollectPhase k) : Collector k ρ :=
  { collector with phase }

/-- The connection has closed: what was collected is lost. -/
def close (collector : Collector k ρ) : Collector k ρ :=
  collector.enter .closed

def takeHead (collector : Collector k ρ) (select : HeadRule k ρ) (h : Head k) : Step k ρ :=
  if collector.isIdle then
    let (selected, rule) := select h collector.rule
    let collector := { collector with rule }
    if selected then
      let awaited := h.expectation == .awaitContinue
      match collector.settings.inspect h with
      | .ok (.accept, h) => (.ok none, collector.enter (.collecting h {} awaited))
      | .ok (.proceed reply, h) =>
          (.ok (some (.reply reply)), collector.enter (.collecting h {} awaited))
      | .ok (.refuse reply, _) =>
          (.ok (some (.reply reply)),
            collector.enter (if reply.close then .closed else .dropping))
      | .error error => (.error error, collector.close)
    else (.ok (some (.forward (.header h))), collector.enter .passing)
  else (.error .unexpectedHead, collector.close)

def overflow (collector : Collector k ρ) (h : Head k) (length : Nat) (awaited isLast : Bool) :
    Step k ρ :=
  if k = .request then
    let close := collector.settings.closesOnTooLarge h.keepAlive awaited
    let phase := if close then .closed else if isLast then .idle else .dropping
    (.ok (some (.reply (.tooLarge close))), collector.enter phase)
  else (.error (.responseTooLarge length collector.settings.maxLength), collector.close)

def takeItem (collector : Collector k ρ) (item : Item) : Step k ρ :=
  let forwarded := Except.ok (some (Collected.forward (.payload item)))
  match collector.phase with
  | .idle => (forwarded, collector)
  | .passing => (forwarded, if item.isLast then collector.enter .idle else collector)
  | .dropping => (.ok none, if item.isLast then collector.enter .idle else collector)
  | .closed => (.error .channelClosed, collector)
  | .collecting h content awaited =>
      let content := content.push item.data
      if collector.settings.exceeds content.length then
        collector.overflow h content.length awaited item.isLast
      else
        match item with
        | .chunk _ => (.ok none, collector.enter (.collecting h content awaited))
        | .last _ trailers =>
            (.ok (some (.message (content.finish h trailers))), collector.enter .idle)

/-- A failure ends the message that was collected. Between messages the rule is asked
about a head that came with it. -/
def takeFailure (collector : Collector k ρ) (select : HeadRule k ρ) (failure : Failure k) :
    Step k ρ :=
  let forwarded := Except.ok (some (Collected.forward (.failure failure)))
  let after := collector.enter (if failure.fatal then .closed else .idle)
  match collector.phase with
  | .closed => (.error .channelClosed, collector)
  | .collecting h _ _ => (.ok (some (.message (.failed h failure.cause))), after)
  | .passing => (forwarded, after)
  | .dropping => (forwarded, after)
  | .idle =>
      match failure.head? with
      | none => (forwarded, after)
      | some h =>
          let (selected, rule) := select h collector.rule
          let after := { after with rule }
          if selected then (.ok (some (.message (.failed h failure.cause))), after)
          else (forwarded, after)

def take (collector : Collector k ρ) (select : HeadRule k ρ) (message : Message k) : Step k ρ :=
  if collector.isClosed then (.error .channelClosed, collector)
  else
    match message with
    | .header h => collector.takeHead select h
    | .payload item => collector.takeItem item
    | .failure failure => collector.takeFailure select failure
    | .raw data => (.ok (some (.forward (.raw data))), collector)

end Collector

def selectAll (k : Kind) : HeadRule k Unit :=
  fun _ _ => (true, ())

end HttpFraming
