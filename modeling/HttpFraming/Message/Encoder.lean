import HttpFraming.Framing
import HttpFraming.Message

/-!
# Encoding messages

An encoder writes heads and bodies in turn. It refuses parts that come out of turn,
without writing anything for them.
-/

namespace HttpFraming

open Bytes

/-! ## Heads

A head is written as its start line and one line for each field. Only the versions
of the 1.x family have a written form. -/

def Fields.write (fields : Fields) : Bytes :=
  (fields.toList.flatMap fun (name, value) => name.bytes ++ ascii ": " ++ value.bytes ++ crlf) ++
    crlf

def Kind.writeLine : (k : Kind) → k.Line → Bytes → Bytes
  | .request, line, version =>
      line.method.bytes ++ [space] ++ line.target.render ++ [space] ++ version
  | .response, status, version =>
      version ++ [space] ++ status.digits ++ [space] ++ ascii status.reason

def Head.write (h : Head k) : Except WriteError Bytes :=
  match h.version.written? with
  | none => .error .unsupportedVersion
  | some version => .ok (k.writeLine h.line version ++ crlf ++ h.fields.write)

/-! ## Bodies

A body is written piece by piece in the framing its head announced. A body with a
length may not grow beyond it, and is faulty if it ends before. -/

/-- What a writing step has written, the state it leaves, and what went wrong. What
is written stays written, whether something went wrong or not. -/
structure Written (σ : Type) where
  output : Bytes
  state : σ
  error? : Option WriteError

namespace Written

def map (f : σ → τ) (written : Written σ) : Written τ :=
  ⟨written.output, f written.state, written.error?⟩

end Written

/-- Data as a chunk. No data is no chunk, since an empty chunk would end the body. -/
def Chunk.write (data : Bytes) : Bytes :=
  if data.isEmpty then []
  else Numeral.write 16 data.length ++ crlf ++ data ++ crlf

def Chunk.writeEnd (trailers : Fields) : Bytes :=
  ascii "0" ++ crlf ++ trailers.write

inductive BodyWriter
  | length (remaining : Nat)
  | chunked
  | plain
  | nothing
deriving DecidableEq

namespace BodyWriter

def ofFraming : Framing → BodyWriter
  | .length n => length n
  | .chunked => chunked
  | .empty => nothing
  | .untilClose => plain

/-- Writes a piece; the writer is gone once the body has ended. A piece that is too
large for the announced length is not written and does not end the body. -/
def write (writer : BodyWriter) (item : Item) : Written (Option BodyWriter) :=
  let after (next : BodyWriter) : Option BodyWriter := if item.isLast then none else some next
  match writer with
  | length remaining =>
      let size := item.data.length
      if remaining < size then
        ⟨[], some writer, some (.invalidBody (.excess size remaining))⟩
      else
        let left := remaining - size
        let short := item.isLast && left != 0
        ⟨item.data, after (length left),
          if short then some (.invalidBody (.shortfall left)) else none⟩
  | chunked =>
      match item with
      | .chunk data => ⟨Chunk.write data, some chunked, none⟩
      | .last data trailers => ⟨Chunk.write data ++ Chunk.writeEnd trailers, none, none⟩
  | plain => ⟨item.data, after plain, none⟩
  | nothing => ⟨[], after nothing, none⟩

end BodyWriter

/-! ## Messages -/

structure Encoder where
  body? : Option BodyWriter := none
deriving DecidableEq

namespace Encoder

def isIdle (encoder : Encoder) : Bool :=
  encoder.body?.isNone

def refuse (encoder : Encoder) (fault : OrderFault) : Written Encoder :=
  ⟨[], encoder, some (.unexpectedItem fault)⟩

/-- Writes a head as it is and frames the body that follows as told. The body is under
way even if the head has no written form. -/
def encodeHead (encoder : Encoder) (h : Head k) (framing : Framing) : Written Encoder :=
  if encoder.isIdle then
    let encoder : Encoder := ⟨some (.ofFraming framing)⟩
    match h.write with
    | .ok output => ⟨output, encoder, none⟩
    | .error error => ⟨[], encoder, some error⟩
  else encoder.refuse .headBeforeLast

def encode (encoder : Encoder) (message : Message k) : Written Encoder :=
  match message with
  | .header h => encoder.encodeHead h h.announcedFraming
  | .payload item =>
      match encoder.body? with
      | none => encoder.refuse .payloadWithoutHead
      | some writer => (writer.write item).map fun body? => ⟨body?⟩
  | .failure _ => encoder.refuse .failure
  | .raw data =>
      if encoder.isIdle then ⟨data, encoder, none⟩ else encoder.refuse .rawBeforeLast

end Encoder

end HttpFraming
