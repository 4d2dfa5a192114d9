import HttpFraming.Error
import HttpFraming.Head.Basic

/-!
# Grammar of heads

The start lines and the field lines of heads, read byte after byte: what is wrong
is reported at the first byte that shows it, and a head that ends too early is
incomplete. Lines end with a line feed, with or without a carriage return before it.
-/

namespace HttpFraming

open Bytes

/-! ## Scanners

A scanner reads a value off the front of the bytes received so far. It reports that
the bytes are wrong, or that they end before it could tell; only then can more bytes
change its answer. -/

inductive Scan (ε α : Type)
  | complete (value : α) (rest : Bytes)
  | incomplete
  | invalid (fault : ε)

abbrev Scanner (ε α : Type) := Bytes → Scan ε α

namespace Scan

def map (f : α → β) : Scan ε α → Scan ε β
  | complete value rest => complete (f value) rest
  | incomplete => incomplete
  | invalid fault => invalid fault

def andThen (scan : Scan ε α) (next : α → Scanner ε β) : Scan ε β :=
  match scan with
  | complete value rest => next value rest
  | incomplete => incomplete
  | invalid fault => invalid fault

def Leaves (scan : Scan ε α) (n : Nat) : Prop :=
  ∀ value rest, scan = complete value rest → rest.length ≤ n

theorem Leaves.mono {scan : Scan ε α} {m n : Nat} (h : scan.Leaves m) (hmn : m ≤ n) :
    scan.Leaves n :=
  fun value rest hs => Nat.le_trans (h value rest hs) hmn

theorem leaves_invalid (fault : ε) (n : Nat) : (invalid fault : Scan ε α).Leaves n := by
  intro value rest h
  cases h

theorem leaves_incomplete (n : Nat) : (incomplete : Scan ε α).Leaves n := by
  intro value rest h
  cases h

theorem leaves_complete {value : α} {rest : Bytes} {n : Nat} (h : rest.length ≤ n) :
    (complete value rest : Scan ε α).Leaves n := by
  intro value' rest' hs
  cases hs
  exact h

theorem Leaves.map {scan : Scan ε α} {n : Nat} (h : scan.Leaves n) (f : α → β) :
    (scan.map f).Leaves n := by
  intro value rest hs
  cases scan with
  | complete v r =>
      cases hs
      exact h _ _ rfl
  | incomplete => cases hs
  | invalid fault => cases hs

theorem Leaves.andThen {scan : Scan ε α} {m n : Nat} {next : α → Scanner ε β}
    (h : scan.Leaves m) (hnext : ∀ value rest, rest.length ≤ m → (next value rest).Leaves n) :
    (scan.andThen next).Leaves n := by
  intro value rest hs
  cases scan with
  | complete v r => exact hnext v r (h v r rfl) value rest hs
  | incomplete => cases hs
  | invalid fault => cases hs

end Scan

/-! ## Lines -/

/-- A field as it was read; its name may be too long to be stored. -/
structure RawField where
  name : Bytes
  value : FieldValue

namespace Grammar

abbrev Scanner (α : Type) := HttpFraming.Scanner SyntaxFault α

def lineEnd (fault : SyntaxFault) : Scanner Unit
  | [] => .incomplete
  | b :: rest =>
      if b = lf then .complete () rest
      else if b = cr then
        match rest with
        | [] => .incomplete
        | c :: rest => if c = lf then .complete () rest else .invalid fault
      else .invalid fault

def skipEmptyLines : Scanner Unit
  | [] => .incomplete
  | b :: rest =>
      if b = lf then skipEmptyLines rest
      else if b = cr then
        match rest with
        | [] => .incomplete
        | c :: rest => if c = lf then skipEmptyLines rest else .invalid .newLine
      else .complete () (b :: rest)

def runUntil (isPart : UInt8 → Bool) (delimiter : UInt8) (fault : SyntaxFault) : Scanner Bytes :=
  fun bytes =>
    match bytes.dropWhile isPart with
    | [] => .incomplete
    | b :: rest =>
        if b = delimiter then .complete (bytes.takeWhile isPart) rest else .invalid fault

def byte (f : UInt8 → Option α) (fault : SyntaxFault) : Scanner α
  | [] => .incomplete
  | b :: rest =>
      match f b with
      | some value => .complete value rest
      | none => .invalid fault

def check (value? : Option α) (fault : SyntaxFault) : Scanner α := fun bytes =>
  match value? with
  | some value => .complete value bytes
  | none => .invalid fault

def method : Scanner Method := fun bytes =>
  (runUntil isToken space .token bytes).andThen fun run => check (Method.ofBytes? run) .token

/-- A target is well-formed UTF-8; whether it is a target is for later. -/
def target : Scanner Bytes := fun bytes =>
  (runUntil isTargetByte space .token bytes).andThen fun run =>
    check (if !run.isEmpty && Utf8.isWellFormed run then some run else none) .token

/-- A version shows itself as wrong before its last byte only by the bytes that all
versions have in common. -/
def version : Scanner Version := fun bytes =>
  let word := bytes.take 8
  if word = ascii "HTTP/1.1" then .complete .http11 (bytes.drop 8)
  else if word = ascii "HTTP/1.0" then .complete .http10 (bytes.drop 8)
  else if word.isPrefixOf (ascii "HTTP/1.") then .incomplete
  else .invalid .version

def requestLine : Scanner (Method × Bytes × Version) := fun bytes =>
  (skipEmptyLines bytes).andThen fun _ rest =>
  (method rest).andThen fun method rest =>
  (target rest).andThen fun target rest =>
  (version rest).andThen fun version rest =>
  (lineEnd .newLine rest).map fun _ => (method, target, version)

def statusDigit : Scanner Nat :=
  byte (Numeral.digit? 10) .status

def reason : Scanner Unit
  | [] => .incomplete
  | b :: rest =>
      if b = space then lineEnd .status (rest.dropWhile isFieldByte)
      else lineEnd .status (b :: rest)

def statusLine : Scanner (Nat × Version) := fun bytes =>
  (skipEmptyLines bytes).andThen fun _ rest =>
  (version rest).andThen fun version rest =>
  (byte (fun b => if b = space then some () else none) .version rest).andThen fun _ rest =>
  (statusDigit rest).andThen fun hundreds rest =>
  (statusDigit rest).andThen fun tens rest =>
  (statusDigit rest).andThen fun units rest =>
  (reason rest).map fun _ => (100 * hundreds + 10 * tens + units, version)

def fieldName : Scanner Bytes := fun bytes =>
  (runUntil isToken 58 .fieldName bytes).andThen fun run =>
    check (if run.isEmpty then none else some run) .fieldName

def fieldValue : Scanner FieldValue := fun bytes =>
  let value : FieldValue := ⟨trim (bytes.takeWhile isFieldByte), trim_all List.all_takeWhile⟩
  (lineEnd .fieldValue (bytes.dropWhile isFieldByte)).map fun _ => value

def fieldLine : Scanner RawField := fun bytes =>
  (fieldName bytes).andThen fun name rest =>
  (fieldValue rest).map fun value => ⟨name, value⟩

def startsLineEnd (bytes : Bytes) : Bool :=
  bytes.head?.any fun b => b == cr || b == lf

/-- Field lines up to the empty line, with room for so many fields. -/
def fieldLines : Nat → Scanner (List RawField)
  | 0, bytes =>
      if startsLineEnd bytes then (lineEnd .newLine bytes).map fun _ => []
      else (fieldLine bytes).andThen fun _ _ => .invalid .tooManyFields
  | room + 1, bytes =>
      if startsLineEnd bytes then (lineEnd .newLine bytes).map fun _ => []
      else (fieldLine bytes).andThen fun field rest =>
        (fieldLines room rest).map fun fields => field :: fields

/-! ## Every scanner takes something -/

theorem lineEnd_leaves (fault : SyntaxFault) (bytes : Bytes) :
    (lineEnd fault bytes).Leaves (bytes.length - 1) := by
  unfold lineEnd
  split
  · exact Scan.leaves_incomplete _
  · split
    · exact Scan.leaves_complete (by simp)
    · split
      · split
        · exact Scan.leaves_incomplete _
        · split
          · exact Scan.leaves_complete (by simp)
          · exact Scan.leaves_invalid _ _
      · exact Scan.leaves_invalid _ _

theorem skipEmptyLines_leaves (bytes : Bytes) :
    (skipEmptyLines bytes).Leaves bytes.length := by
  fun_induction skipEmptyLines bytes with
  | case1 => exact Scan.leaves_incomplete _
  | case2 rest ih => exact ih.mono (by simp)
  | case3 => exact Scan.leaves_incomplete _
  | case4 rest _ ih => exact ih.mono (by simp; omega)
  | case5 => exact Scan.leaves_invalid _ _
  | case6 => exact Scan.leaves_complete (by simp)

theorem dropWhile_length_le (p : UInt8 → Bool) (bytes : Bytes) :
    (bytes.dropWhile p).length ≤ bytes.length :=
  (List.dropWhile_sublist p).length_le

theorem runUntil_leaves (isPart : UInt8 → Bool) (delimiter : UInt8) (fault : SyntaxFault)
    (bytes : Bytes) : (runUntil isPart delimiter fault bytes).Leaves (bytes.length - 1) := by
  have hlength := dropWhile_length_le isPart bytes
  unfold runUntil
  cases h : bytes.dropWhile isPart with
  | nil => exact Scan.leaves_incomplete _
  | cons b rest =>
      rw [h] at hlength
      simp only [List.length_cons] at hlength
      dsimp only
      split
      · exact Scan.leaves_complete (by omega)
      · exact Scan.leaves_invalid _ _

theorem check_leaves (value? : Option α) (fault : SyntaxFault) (bytes : Bytes) :
    (check value? fault bytes).Leaves bytes.length := by
  unfold check
  split
  · exact Scan.leaves_complete (Nat.le_refl _)
  · exact Scan.leaves_invalid _ _

theorem byte_leaves (f : UInt8 → Option α) (fault : SyntaxFault) (bytes : Bytes) :
    (byte f fault bytes).Leaves bytes.length := by
  unfold byte
  split
  · exact Scan.leaves_incomplete _
  · split
    · exact Scan.leaves_complete (by simp)
    · exact Scan.leaves_invalid _ _

theorem version_leaves (bytes : Bytes) : (version bytes).Leaves bytes.length := by
  unfold version
  dsimp only
  split
  · exact Scan.leaves_complete (by simp)
  · split
    · exact Scan.leaves_complete (by simp)
    · split
      · exact Scan.leaves_incomplete _
      · exact Scan.leaves_invalid _ _

theorem reason_leaves (bytes : Bytes) : (reason bytes).Leaves (bytes.length - 1) := by
  unfold reason
  split
  · exact Scan.leaves_incomplete _
  · rename_i b rest
    split
    · have hlength := dropWhile_length_le isFieldByte rest
      exact (lineEnd_leaves _ _).mono (by simp; omega)
    · exact lineEnd_leaves _ _

theorem fieldLine_leaves (bytes : Bytes) : (fieldLine bytes).Leaves (bytes.length - 1) := by
  apply Scan.Leaves.andThen (m := bytes.length - 1)
  · exact (runUntil_leaves _ _ _ _).andThen fun run rest h => (check_leaves _ _ _).mono h
  · intro name rest h
    have hlength := dropWhile_length_le isFieldByte rest
    exact (((lineEnd_leaves _ _).mono (by omega)).map _).map _

theorem fieldLines_leaves (room : Nat) (bytes : Bytes) :
    (fieldLines room bytes).Leaves (bytes.length - 1) := by
  induction room generalizing bytes with
  | zero =>
      unfold fieldLines
      split
      · exact (lineEnd_leaves _ _).map _
      · exact (fieldLine_leaves bytes).andThen fun _ _ _ => Scan.leaves_invalid _ _
  | succ room ih =>
      unfold fieldLines
      split
      · exact (lineEnd_leaves _ _).map _
      · exact (fieldLine_leaves bytes).andThen fun field rest h =>
          ((ih rest).mono (by omega)).map _

theorem requestLine_leaves (bytes : Bytes) : (requestLine bytes).Leaves (bytes.length - 1) := by
  refine (skipEmptyLines_leaves bytes).andThen fun _ rest h1 => ?_
  refine Scan.Leaves.andThen (m := bytes.length - 1) ?_ fun method rest h2 => ?_
  · exact (runUntil_leaves _ _ _ _).andThen fun run rest h => (check_leaves _ _ _).mono (by omega)
  refine Scan.Leaves.andThen (m := bytes.length - 1) ?_ fun target rest h3 => ?_
  · exact (runUntil_leaves _ _ _ _).andThen fun run rest h => (check_leaves _ _ _).mono (by omega)
  refine (version_leaves rest).andThen fun version rest h4 => ?_
  exact ((lineEnd_leaves _ _).mono (by omega)).map _

theorem statusLine_leaves (bytes : Bytes) : (statusLine bytes).Leaves (bytes.length - 1) := by
  refine (skipEmptyLines_leaves bytes).andThen fun _ rest h1 => ?_
  refine (version_leaves rest).andThen fun version rest h2 => ?_
  refine (byte_leaves _ _ _).andThen fun _ rest h3 => ?_
  refine (byte_leaves _ _ _).andThen fun hundreds rest h4 => ?_
  refine (byte_leaves _ _ _).andThen fun tens rest h5 => ?_
  refine (byte_leaves _ _ _).andThen fun units rest h6 => ?_
  exact ((reason_leaves _).mono (by omega)).map _

end Grammar

end HttpFraming
