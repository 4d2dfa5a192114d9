import HttpFraming.Head.Grammar

/-!
# Reading heads

A head is taken off the front of the received bytes as soon as it is there as a
whole and within the limits. A head that is refused for its size, target or status
stays in the bytes; one with a field name that cannot be stored does not.
-/

namespace HttpFraming

/-! ## Limits -/

def fieldCeiling : Nat :=
  256

/-- Limits on a head. `repeatedLengths` accepts a Content-Length that is given more
than once, as long as it is the same each time. -/
structure Limits where
  maxHeadBytes : Nat := 8192
  maxFields : Nat := 64
  repeatedLengths : Bool := false
  maxFields_le : maxFields ≤ fieldCeiling := by decide
deriving DecidableEq

def Limits.withMaxFields (limits : Limits) (count : Nat) : Limits :=
  { limits with
    maxFields := min count fieldCeiling
    maxFields_le := Nat.min_le_right .. }

/-- Limits on a trailer section, which are not subject to choice. -/
def maxTrailerFields : Nat :=
  32

def maxTrailerBytes : Nat :=
  8192

/-! ## Heads -/

abbrev Kind.RawLine : Kind → Type
  | .request => Method × Bytes
  | .response => Nat

structure RawHead (k : Kind) where
  line : k.RawLine
  version : Version
  fields : List RawField

namespace Kind

def scanLine : (k : Kind) → Grammar.Scanner (k.RawLine × Version)
  | .request, bytes =>
      (Grammar.requestLine bytes).map fun (method, target, version) => ((method, target), version)
  | .response, bytes => Grammar.statusLine bytes

def line : (k : Kind) → k.RawLine → Except ReadError k.Line
  | .request, (method, target) =>
      match Target.read? target with
      | some target => .ok ⟨method, target⟩
      | none => .error .invalidTarget
  | .response, code =>
      match Status.ofNat? code with
      | some status => .ok status
      | none => .error (.invalidStatus (some code))

theorem scanLine_leaves (k : Kind) (bytes : Bytes) :
    (k.scanLine bytes).Leaves (bytes.length - 1) := by
  cases k
  · exact (Grammar.requestLine_leaves bytes).map _
  · exact Grammar.statusLine_leaves bytes

end Kind

namespace RawHead

def scan (k : Kind) (room : Nat) : Grammar.Scanner (RawHead k) := fun bytes =>
  (k.scanLine bytes).andThen fun (line, version) rest =>
    (Grammar.fieldLines room rest).map fun fields => ⟨line, version, fields⟩

theorem scan_leaves (k : Kind) (room : Nat) (bytes : Bytes) :
    (scan k room bytes).Leaves (bytes.length - 1) :=
  (k.scanLine_leaves bytes).andThen fun _ rest h =>
    ((Grammar.fieldLines_leaves room rest).mono (by omega)).map _

end RawHead

def Fields.ofRaw (raw : List RawField) : Except ReadError Fields :=
  raw.foldlM (fun fields field =>
    match FieldName.ofBytes? field.name with
    | some name => .ok (fields.append name field.value)
    | none => .error (.invalidField .nameTooLong)) ∅

/-- What the wording of a fault is in a section of so many fields. -/
def SyntaxFault.toReadError (fault : SyntaxFault) (maxFields : Nat) : ReadError :=
  match fault with
  | tooManyFields => .tooManyFields maxFields
  | fault => .invalidField (.grammar fault)

/-- A version or a status that cannot be read has causes of its own in a start line. -/
def SyntaxFault.toHeadError (fault : SyntaxFault) (maxFields : Nat) : ReadError :=
  match fault with
  | version => .invalidVersion none
  | status => .invalidStatus none
  | fault => fault.toReadError maxFields

/-- The result of a reading step: an answer, if there is one already, and the bytes
that are left. -/
structure Reading (α : Type) where
  answer : Except ReadError (Option α)
  rest : Bytes

def Head.read (k : Kind) (limits : Limits) (bytes : Bytes) : Reading (Head k) :=
  match RawHead.scan k limits.maxFields bytes with
  | .invalid fault => ⟨.error (fault.toHeadError limits.maxFields), bytes⟩
  | .incomplete =>
      if limits.maxHeadBytes < bytes.length then
        ⟨.error (.headTooLarge bytes.length limits.maxHeadBytes), bytes⟩
      else ⟨.ok none, bytes⟩
  | .complete raw rest =>
      let size := bytes.length - rest.length
      if limits.maxHeadBytes < size then
        ⟨.error (.headTooLarge size limits.maxHeadBytes), bytes⟩
      else
        match k.line raw.line with
        | .error error => ⟨.error error, bytes⟩
        | .ok line =>
            match Fields.ofRaw raw.fields with
            | .error error => ⟨.error error, rest⟩
            | .ok fields => ⟨.ok (some ⟨line, raw.version, fields⟩), rest⟩

theorem Head.read_rest_le (k : Kind) (limits : Limits) (bytes : Bytes) :
    (Head.read k limits bytes).rest.length ≤ bytes.length := by
  unfold Head.read
  have hleaves := RawHead.scan_leaves k limits.maxFields bytes
  split
  · exact Nat.le_refl _
  · split <;> exact Nat.le_refl _
  · rename_i raw rest hscan
    have hrest := hleaves _ _ hscan
    dsimp only
    split
    · exact Nat.le_refl _
    · split
      · exact Nat.le_refl _
      · split <;> (dsimp only; omega)

theorem Head.read_rest_lt {k : Kind} {limits : Limits} {bytes : Bytes} {h : Head k}
    (hread : (Head.read k limits bytes).answer = .ok (some h)) :
    (Head.read k limits bytes).rest.length < bytes.length := by
  have hleaves := RawHead.scan_leaves k limits.maxFields bytes
  cases bytes with
  | nil =>
      cases k <;> simp [Head.read, RawHead.scan, Kind.scanLine, Grammar.requestLine,
        Grammar.statusLine, Grammar.skipEmptyLines, Scan.andThen, Scan.map] at hread
  | cons b rest =>
      revert hread
      unfold Head.read
      split
      · simp
      · split <;> simp
      · rename_i raw rest' hscan
        have hrest := hleaves _ _ hscan
        simp only [List.length_cons] at hrest ⊢
        split
        · simp
        · split
          · simp
          · split
            · simp
            · intro _
              dsimp only
              omega

end HttpFraming
