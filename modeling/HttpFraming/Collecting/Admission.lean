import HttpFraming.Framing

/-!
# Admission of messages

Before the body of a message is collected its head is inspected: an expectation is
answered, and a body that is announced as too large is refused. A response cannot be
refused with an answer, so a response that is too large is an error.
-/

namespace HttpFraming

/-- How large a collected body may become, and what becomes of a connection on which a
message was refused. -/
structure CollectSettings where
  maxLength : Nat := 1048576
  closeOnRefusal : Bool := false
  pos : 0 < maxLength := by decide

instance : DecidableEq CollectSettings := fun first second =>
  decidable_of_iff (first.maxLength = second.maxLength ∧ first.closeOnRefusal = second.closeOnRefusal)
    (by cases first; cases second; simp)

namespace CollectSettings

def ofMaxLength (maxLength : Nat) : Except SettingError CollectSettings :=
  if h : 0 < maxLength then .ok ⟨maxLength, false, h⟩ else .error (.invalidMaxLength maxLength)

/-- A body of exactly the limit is welcome. -/
def exceeds (settings : CollectSettings) (length : Nat) : Bool :=
  settings.maxLength < length

end CollectSettings

/-! ## Replies -/

structure Reply where
  head : Response
  close : Bool
deriving DecidableEq

namespace Reply

def proceed : Reply :=
  ⟨{ line := .proceed }, false⟩

def refusal (status : Status) (close : Bool) : Reply :=
  let fields := (∅ : Fields).insert .contentLength (.ofNat 0)
  let fields := if close then fields.insert .connection .close else fields
  ⟨{ line := status, fields }, close⟩

def tooLarge (close : Bool) : Reply :=
  refusal .payloadTooLarge close

def expectationFailed (close : Bool) : Reply :=
  refusal .expectationFailed close

end Reply

inductive Admission
  | accept
  | proceed (reply : Reply)
  | refuse (reply : Reply)
deriving DecidableEq

namespace CollectSettings

/-- Whether a request that is too large costs its connection. -/
def closesOnTooLarge (settings : CollectSettings) (keepAlive awaited : Bool) : Bool :=
  settings.closeOnRefusal || !(keepAlive || awaited)

/-- Decides on a head. A head whose body is asked for loses its Expect field. -/
def inspect (settings : CollectSettings) (h : Head k) : Except CollectError (Admission × Head k) :=
  let expectation := h.expectation
  let awaited := expectation == .awaitContinue
  if expectation = .unsupported then
    .ok (.refuse (.expectationFailed settings.closeOnRefusal), h)
  else
    match h.contentLength?.filter settings.exceeds with
    | some length =>
        if k = .request then
          .ok (.refuse (.tooLarge (settings.closesOnTooLarge h.keepAlive awaited)), h)
        else .error (.responseTooLarge length settings.maxLength)
    | none =>
        if awaited then
          .ok (.proceed .proceed, { h with fields := h.fields.remove .expect })
        else .ok (.accept, h)

end CollectSettings

end HttpFraming
