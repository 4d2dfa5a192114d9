import HttpFraming.Error
import HttpFraming.Bytes

/-!
# Chunked bodies

A chunked body is a series of chunks, each behind a line with its size in hexadecimal
digits, up to a chunk of size zero. This module reads what stands between the data:
size lines and the line ends after data. `ChunkLine.step` is the grammar, one byte at
a time, and `ChunkLine.advance` follows it as far as the bytes go.
-/

namespace HttpFraming

open Bytes

/-- A place between the data of a chunked body. -/
inductive ChunkLine
  /-- Among the digits of a size, which is absent before the first one. -/
  | size (n? : Option Nat)
  /-- In the blanks behind a size. -/
  | blanks (n : Nat)
  /-- In an extension, which is skipped. -/
  | extension (n : Nat)
  /-- Before the line feed of a size line. -/
  | sizeEnd (n : Nat)
  /-- Before the carriage return behind data. -/
  | dataEnd
  /-- Before the line feed behind data. -/
  | dataLineFeed
deriving DecidableEq, Repr

inductive ChunkPlace
  | line (line : ChunkLine)
  | data (remaining : Nat) (pos : 0 < remaining)
  | trailers
deriving DecidableEq

namespace ChunkLine

/-- Where a body begins, and where a chunk begins after another one. -/
def start : ChunkLine :=
  size none

def afterSize (n : Nat) (b : UInt8) : Except BodyFault ChunkLine :=
  if isBlank b then .ok (blanks n)
  else if b = 59 then .ok (extension n)
  else if b = cr then .ok (sizeEnd n)
  else .error .sizeLineByte

/-- What a chunk of the announced size begins with: data, or the trailers. -/
def enter (n : Nat) : ChunkPlace :=
  if h : 0 < n then .data n h else .trailers

def step : ChunkLine → UInt8 → Except BodyFault ChunkPlace
  | size n?, b =>
      match Numeral.push? 16 (n?.getD 0) b with
      | some n =>
          if n < Numeral.wordBound then .ok (.line (size (some n))) else .error .sizeTooLarge
      | none =>
          match n? with
          | none => .error .sizeMissing
          | some n => (afterSize n b).map .line
  | blanks n, b => (afterSize n b).map .line
  | extension n, b =>
      if b = cr then .ok (.line (sizeEnd n))
      else if b = lf then .error .newLineInExtension
      else .ok (.line (extension n))
  | sizeEnd n, b => if b = lf then .ok (enter n) else .error .sizeLineEnd
  | dataEnd, b => if b = cr then .ok (.line dataLineFeed) else .error .dataEnd
  | dataLineFeed, b => if b = lf then .ok (.line start) else .error .dataEnd

/-- Follows the bytes until data or trailers begin, or as far as they go. A byte
that is wrong is taken as well. -/
def advance (line : ChunkLine) : Bytes → Except BodyFault ChunkPlace × Bytes
  | [] => (.ok (.line line), [])
  | b :: rest =>
      match line.step b with
      | .error fault => (.error fault, rest)
      | .ok (.line next) => next.advance rest
      | .ok place => (.ok place, rest)

theorem advance_rest_le (line : ChunkLine) (bytes : Bytes) :
    (line.advance bytes).2.length ≤ bytes.length := by
  induction bytes generalizing line with
  | nil => exact Nat.le_refl _
  | cons b rest ih =>
      unfold advance
      split
      · simp
      · exact Nat.le_trans (ih _) (by simp)
      · simp

theorem advance_rest_lt {line : ChunkLine} {bytes : Bytes} {place : ChunkPlace}
    (h : (line.advance bytes).1 = .ok place) (hplace : ∀ next, place ≠ .line next) :
    (line.advance bytes).2.length < bytes.length := by
  induction bytes generalizing line with
  | nil =>
      simp only [advance, Except.ok.injEq] at h
      exact absurd h.symm (hplace _)
  | cons b rest ih =>
      unfold advance at h ⊢
      split at h
      · cases h
      · exact Nat.lt_succ_of_lt (ih h)
      · simp

end ChunkLine

end HttpFraming
