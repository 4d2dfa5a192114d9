import HttpFraming.Collecting.Collector
import HttpFraming.Endpoint.Server

/-!
# The block that bytes wait in

Received bytes wait in a block of memory until they are used. The values of fields and the
data of bodies are handed out as parts of the block, and while a message holds such a part
the block cannot be used anew. A read brings as many bytes as there is room for behind the
waiting ones, and where there is no room it is made: see `Block.makeRoom`.
-/

namespace HttpFraming

/-- The size of a fresh block, unless more bytes wait already. -/
def blockSize : Nat :=
  8192

/-- What surrounds the waiting bytes in their block: so many used bytes before them and so
many free ones behind. Of the message under way, `lentFields` are the fields with values in
this block, and `lentData` says whether data of its body is there. -/
structure Block where
  used : Nat := 0
  free : Nat := blockSize
  lentFields : List FieldName := []
  lentData : Bool := false
deriving DecidableEq

namespace Block

def advance (block : Block) (count : Nat) : Block :=
  { block with used := block.used + count }

def fill (block : Block) (count : Nat) : Block :=
  { block with free := block.free - count }

/-- Makes room if there is none. A block that is held is left to its holders, and the
waiting bytes get a fresh one. Otherwise they move to the front, if they fit into the used
part, or else the block doubles. -/
def makeRoom (block : Block) (held : Bool) (waiting : Nat) : Block :=
  if 0 < block.free then block
  else if held then { free := max blockSize (waiting + 1) - waiting }
  else if 0 < block.used ∧ waiting ≤ block.used then
    { block with used := 0, free := block.used }
  else { block with free := max 8 (block.used + waiting) }

theorem makeRoom_free_pos (block : Block) (held : Bool) (waiting : Nat) :
    0 < (block.makeRoom held waiting).free := by
  unfold makeRoom
  split
  · assumption
  · split
    · show 0 < max blockSize (waiting + 1) - waiting
      omega
    · split
      · rename_i h
        exact h.1
      · show 0 < max 8 (block.used + waiting)
        omega

def isHeld (block : Block) (collector : Collector .request ρ) : Bool :=
  match collector.phase with
  | .collecting h _ _ => block.lentData || block.lentFields.any h.fields.contains
  | _ => false

end Block

/-- The fields of the head at the front of the bytes whose values are parts of these bytes.
An empty value is no part of anything, and a length that is given more than once is written
anew. -/
def lentFields (limits : Limits) (bytes : Bytes) : List FieldName :=
  match (Head.read .request limits bytes).answer with
  | .ok (some h) =>
      let renewed := (ContentLength.elements? h.fields).any fun values => 1 < values.length
      let lends (field : Field) : Bool :=
        field.values.toList.any (fun value => !value.bytes.isEmpty) &&
          !(renewed && field.name == .contentLength)
      (h.fields.entries.filter lends).map Field.name
  | _ => []

/-- The block after a pull: what the pull took is used, and a head or data is lent. -/
def Block.note (server : Server) (bytes : Bytes) (pulled : Pull Server (Message .request))
    (block : Block) : Block :=
  let block := block.advance (bytes.length - pulled.rest.length)
  match pulled.answer with
  | .ok (some (.header _)) =>
      { block with
        lentFields := HttpFraming.lentFields server.decoder.limits bytes
        lentData := false }
  | .ok (some (.payload (.chunk _))) => { block with lentData := true }
  | _ => block

end HttpFraming
