import HttpFraming.Head.Basic

/-!
# What a session is between

A session stands between a handler, which makes the responses, and a transport. What
arrives on it is a list of reads, after which the input has ended. What is written goes
to an outlet that takes a limited number of bytes in all, or any number.
-/

namespace HttpFraming

/-! ## Handlers

A handler is given a request in one piece and gives a response whose body comes in
frames. The size of the body is announced beforehand by a hint, which the frames may
belie. -/

/-- A piece of a response body as it is produced. An error ends the body. -/
inductive Frame
  | data (data : Bytes)
  | trailers (fields : Fields)
  | error (text : String)
deriving DecidableEq

structure SizeHint where
  lower : Nat := 0
  upper? : Option Nat := none
deriving DecidableEq

namespace SizeHint

def exactly (n : Nat) : SizeHint :=
  ⟨n, some n⟩

def known? (hint : SizeHint) : Option Nat :=
  hint.upper?.filter (· == hint.lower)

end SizeHint

structure ResponseBody where
  frames : List Frame
  hint : SizeHint
deriving DecidableEq

namespace ResponseBody

def empty : ResponseBody :=
  ⟨[], .exactly 0⟩

def whole (data : Bytes) : ResponseBody :=
  ⟨if data.isEmpty then [] else [.data data], .exactly data.length⟩

end ResponseBody

/-- The answer of a handler: a response, or none because the handler failed. -/
inductive Answer
  | respond (status : Status) (fields : Fields) (body : ResponseBody)
  | failed
deriving DecidableEq

abbrev Handler (η : Type) := Request → Bytes → η → Answer × η

/-! ## The transport -/

inductive Read
  | bytes (data : Bytes)
  | error (text : String)
deriving DecidableEq

inductive WhenFull
  | fails (text : String)
  | takesNothing
deriving DecidableEq

/-- A write that takes nothing is an error as well. -/
def WhenFull.message : WhenFull → String
  | fails text => text
  | takesNothing => "failed to write frame to transport"

structure Outlet where
  room? : Option Nat := none
  whenFull : WhenFull := .fails "broken"
deriving DecidableEq

namespace Outlet

def accept (outlet : Outlet) (data : Bytes) : Bytes × Bytes × Outlet :=
  match outlet.room? with
  | none => (data, [], outlet)
  | some room =>
      (data.take room, data.drop room, { outlet with room? := some (room - data.length) })

theorem accept_append (outlet : Outlet) (data : Bytes) :
    (outlet.accept data).1 ++ (outlet.accept data).2.1 = data := by
  unfold accept
  split <;> simp

end Outlet

end HttpFraming
