import HttpFraming.Head.Reader

/-!
# Body framing

How the end of a body is found: by a length, by chunks, by the end of the
connection, or because there is no body. `announce` writes a framing into fields,
`Head.announcedFraming` reads the one under which a head is sent, and `Head.frame` the
one of a head that was received.
-/

namespace HttpFraming

open Bytes

inductive Framing
  | length (n : Nat)
  | chunked
  | empty
  | untilClose
deriving DecidableEq, Repr

namespace Framing

def isChunked (framing : Framing) : Bool :=
  framing == chunked

def isEmpty (framing : Framing) : Bool :=
  framing == empty

def declared? : Framing → Option Nat
  | length n => some n
  | empty => some 0
  | _ => none

/-- Makes the fields announce this framing and no other. -/
def announce (framing : Framing) (fields : Fields) : Fields :=
  match framing with
  | length n => (fields.remove .transferEncoding).insert .contentLength (.ofNat n)
  | chunked => (fields.remove .contentLength).insert .transferEncoding .chunked
  | empty => (fields.remove .transferEncoding).insert .contentLength (.ofNat 0)
  | untilClose => (fields.remove .transferEncoding).remove .contentLength

theorem announce_find?_of_ne (framing : Framing) (fields : Fields) {name : FieldName}
    (hlength : name ≠ .contentLength) (hcoding : name ≠ .transferEncoding) :
    (framing.announce fields).find? name = fields.find? name := by
  cases framing <;>
    simp [announce, Fields.find?_insert_of_ne, Fields.find?_remove_of_ne, hlength, hcoding]

end Framing

def Head.announce (h : Head k) (framing : Framing) : Head k :=
  { h with fields := framing.announce h.fields }

/-- The framing a head announces when it is sent; one that announces nothing has
its body written as it is. -/
def Head.announcedFraming (h : Head k) : Framing :=
  if h.isChunked then .chunked
  else h.contentLength?.elim .untilClose .length

/-! ## The announced length

Several Content-Length values, whether in one field or in many, are one list. The
list announces a length only if it cannot be misread: one value, or the same value
again and again where that is allowed. -/

namespace ContentLength

/-- The elements of all Content-Length fields, if all of them are plain text. -/
def elements? (fields : Fields) : Option (List Bytes) :=
  ((fields.values .contentLength).mapM FieldValue.text?).map (·.flatMap elements)

/-- A length in digits alone, below the word bound. -/
def number (value : Bytes) : Except ReadError Nat :=
  match (Numeral.read? 10 value).filter (· < Numeral.wordBound) with
  | some n => .ok n
  | none => .error (.invalidContentLength (.notNumber (toText value)))

/-- The announced length and the fields that announce it once. -/
def normalize (fields : Fields) (repeated : Bool) :
    Except ReadError (Option Nat × Fields) :=
  match elements? fields with
  | none => .error (.invalidContentLength .notText)
  | some [] => .ok (none, fields)
  | some [value] => (number value).map fun n => (some n, fields)
  | some (value :: more) =>
      if repeated && !value.isEmpty && more.all (· == value) then
        (number value).map fun n => (some n, fields.insert .contentLength (.ofNat n))
      else .error (.manyContentLengths ((value :: more).map toText))

end ContentLength

/-! ## Framing of a received head

The rules by which a reader finds out how the body after a head is delimited. A
head that could be understood in two ways is refused. -/

def Head.framingWith (h : Head k) (length? : Option Nat) : Except ReadError Framing :=
  match h.fields.contains .transferEncoding, length? with
  | true, some _ => .error (.invalidContentLength .besideTransferEncoding)
  | true, none =>
      if h.isChunked then .ok .chunked
      else if k = .request then .error (.invalidField .lastCodingNotChunked)
      else .ok .untilClose
  | false, some n => .ok (.length n)
  | false, none => .ok (if k = .request then .empty else .untilClose)

theorem Head.framingWith_some {h : Head k} {n : Nat} {framing : Framing}
    (hframing : h.framingWith (some n) = .ok framing) :
    h.fields.contains .transferEncoding = false ∧ framing = .length n := by
  cases hcoded : h.fields.contains .transferEncoding with
  | true => simp [framingWith, hcoded] at hframing
  | false =>
      simp only [framingWith, hcoded, Except.ok.injEq] at hframing
      exact ⟨rfl, hframing.symm⟩

/-- The framing of a received head, and the head with its length written once. The
fields of a head that has no body whatever they say are not looked at. -/
def Head.frame (h : Head k) (limits : Limits) (bodiless : Bool) :
    Head k × Except ReadError Framing :=
  if bodiless then (h, .ok .empty)
  else
    match ContentLength.normalize h.fields limits.repeatedLengths with
    | .error error => (h, .error error)
    | .ok (length?, fields) =>
        let h := { h with fields }
        (h, h.framingWith length?)

end HttpFraming
