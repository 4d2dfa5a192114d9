import HttpFraming.Error
import HttpFraming.Head.Basic

/-!
# Messages in parts

A message travels as its head, pieces of its body, and a last piece with the
trailers. A failure takes the place of whatever could not be read. Raw bytes are
those of a connection that has left the protocol.
-/

namespace HttpFraming

inductive Item
  | chunk (data : Bytes)
  | last (data : Bytes) (trailers : Fields)
deriving DecidableEq

namespace Item

def data : Item → Bytes
  | chunk data => data
  | last data _ => data

def isLast : Item → Bool
  | chunk _ => false
  | last .. => true

def done : Item :=
  last [] ∅

end Item

/-- Why a message could not be read, with its head if that was read. After a fatal
failure nothing more can be read from the connection. -/
structure Failure (k : Kind) where
  head? : Option (Head k)
  cause : ReadError
  fatal : Bool
deriving DecidableEq

inductive Message (k : Kind)
  | header (head : Head k)
  | payload (item : Item)
  | failure (failure : Failure k)
  | raw (data : Bytes)
deriving DecidableEq

def Message.isLast : Message k → Bool
  | header _ => false
  | payload item => item.isLast
  | failure _ => true
  | raw _ => false

def Message.isFailure : Message k → Bool
  | .failure _ => true
  | _ => false

/-- The same parts with adjacent chunks made one, so that nothing tells any more in what
pieces the data came. -/
def Message.join : List (Message k) → List (Message k)
  | [] => []
  | .payload (.chunk data) :: more =>
      match join more with
      | .payload (.chunk next) :: rest => .payload (.chunk (data ++ next)) :: rest
      | rest => .payload (.chunk data) :: rest
  | message :: more => message :: join more

def Message.data (messages : List (Message k)) : Bytes :=
  messages.flatMap fun
    | .payload item => item.data
    | _ => []

end HttpFraming
