import HttpFraming.Fields
import HttpFraming.Head.StartLine

/-!
# Message heads

The head of a message is its start line, its version and its fields. The two kinds
of messages differ in their start line only. The functions on heads here read what
the fields say about the message and about the connection it came on.
-/

namespace HttpFraming

open Bytes

inductive Kind
  | request
  | response
deriving DecidableEq, Repr

structure RequestLine where
  method : Method
  target : Target
deriving DecidableEq

abbrev Kind.Line : Kind → Type
  | .request => RequestLine
  | .response => Status

instance (k : Kind) : DecidableEq k.Line :=
  match k with
  | .request => inferInstanceAs (DecidableEq RequestLine)
  | .response => inferInstanceAs (DecidableEq Status)

structure Head (k : Kind) where
  line : k.Line
  version : Version := .http11
  fields : Fields := ∅
deriving DecidableEq

abbrev Request := Head .request

abbrev Response := Head .response

/-- A question about heads. Its answers may depend on what was asked before, so it has
a state, which each question may change. -/
abbrev HeadRule (k : Kind) (ρ : Type) := Head k → ρ → Bool × ρ

inductive Expectation
  | absent
  | awaitContinue
  | unsupported
deriving DecidableEq, Repr

namespace Head

def method (request : Request) : Method :=
  request.line.method

def target (request : Request) : Target :=
  request.line.target

def status (response : Response) : Status :=
  response.line

/-- The elements of all Connection fields. -/
def connectionOptions (h : Head k) : List Bytes :=
  (h.fields.values .connection).flatMap fun value => elements value.bytes

def hasConnectionOption (h : Head k) (option : String) : Bool :=
  h.connectionOptions.any (sameLetters · (ascii option))

/-- Whether the connection outlives this message: `close` ends it in any version,
otherwise versions from 1.1 on keep it and older ones have to ask. -/
def keepAlive (h : Head k) : Bool :=
  !h.hasConnectionOption "close" &&
    (h.version.isPersistent || h.hasConnectionOption "keep-alive")

/-- Only requests of version 1.1 and above can expect something, and the first
Expect field decides. -/
def expectation : {k : Kind} → Head k → Expectation
  | .response, _ => .absent
  | .request, h =>
      if h.version.isPersistent then
        match h.fields.get? .expect with
        | none => .absent
        | some value =>
            if sameLetters value.bytes (ascii "100-continue") then .awaitContinue
            else .unsupported
      else .absent

/-- The number in the first Content-Length field. One plus sign before the digits
is tolerated here, though not where a body is framed. -/
def contentLength? (h : Head k) : Option Nat := do
  let value ← h.fields.get? .contentLength
  let text := trim (← value.text?)
  let digits := if text.head? = some 43 then text.tail else text
  (Numeral.read? 10 digits).filter (· < Numeral.wordBound)

/-- Whether the last coding of the first Transfer-Encoding field is `chunked`. -/
def isChunked (h : Head k) : Bool :=
  match h.fields.get? .transferEncoding with
  | none => false
  | some value => (elements value.bytes).getLast?.any (sameLetters · (ascii "chunked"))

def isBodiless : {k : Kind} → Head k → Bool
  | .request, _ => false
  | .response, h => h.status.isBodiless

end Head

end HttpFraming
