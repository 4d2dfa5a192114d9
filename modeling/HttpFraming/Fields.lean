import HttpFraming.Bytes

/-!
# Fields of a message

An ordered map from field names to one or more values. A repeated name keeps the
place of its first field. Removing a name moves the last one into its place, so
the order of the remaining names is not kept. The view is `find?`: each operation
is described by what it does to it.
-/

namespace HttpFraming

open Bytes

/-! ## Names and values

A field name is a token in small letters, so that equality of names is equality
of bytes. A field value is any run of field bytes, the empty one included. -/

def maxFieldName : Nat :=
  65535

def isFieldName (bytes : Bytes) : Bool :=
  !bytes.isEmpty && bytes.length ≤ maxFieldName && bytes.all fun b => isToken b && lower b == b

structure FieldName where
  bytes : Bytes
  valid : isFieldName bytes = true
deriving DecidableEq

namespace FieldName

/-- The name in small letters, unless the bytes are no token or too long. -/
def ofBytes? (raw : Bytes) : Option FieldName :=
  if h : isFieldName (raw.map lower) = true then some ⟨raw.map lower, h⟩ else none

def contentLength : FieldName :=
  ⟨ascii "content-length", by decide⟩

def transferEncoding : FieldName :=
  ⟨ascii "transfer-encoding", by decide⟩

def connection : FieldName :=
  ⟨ascii "connection", by decide⟩

def expect : FieldName :=
  ⟨ascii "expect", by decide⟩

theorem ofBytes?_bytes (name : FieldName) : ofBytes? name.bytes = some name := by
  have hall := name.valid
  simp only [isFieldName, Bool.and_eq_true, List.all_eq_true] at hall
  have hmap : name.bytes.map lower = name.bytes := by
    conv => rhs; rw [← List.map_id name.bytes]
    exact List.map_congr_left fun b hb => by simpa using (hall.2 b hb).2
  unfold ofBytes?
  simp only [hmap, name.valid, dite_true]

end FieldName

structure FieldValue where
  bytes : Bytes
  valid : bytes.all isFieldByte = true
deriving DecidableEq

namespace FieldValue

def ofBytes? (raw : Bytes) : Option FieldValue :=
  if h : raw.all isFieldByte = true then some ⟨raw, h⟩ else none

def chunked : FieldValue :=
  ⟨ascii "chunked", by decide⟩

def close : FieldValue :=
  ⟨ascii "close", by decide⟩

def ofNat (n : Nat) : FieldValue :=
  ⟨Numeral.write 10 n, Numeral.write_all (by decide) (by decide) n⟩

def text? (value : FieldValue) : Option Bytes :=
  if value.bytes.all isPlain then some value.bytes else none

end FieldValue

/-! ## The map -/

/-- The values of one name, in the order of their fields. -/
structure Values where
  first : FieldValue
  more : List FieldValue
deriving DecidableEq

namespace Values

def single (value : FieldValue) : Values :=
  ⟨value, []⟩

def push (values : Values) (value : FieldValue) : Values :=
  ⟨values.first, values.more ++ [value]⟩

def toList (values : Values) : List FieldValue :=
  values.first :: values.more

@[simp] theorem toList_single (value : FieldValue) : (single value).toList = [value] :=
  rfl

end Values

structure Field where
  name : FieldName
  values : Values
deriving DecidableEq

structure Fields where
  entries : List Field
  distinct : (entries.map Field.name).Nodup
deriving DecidableEq

namespace Fields

/-- Takes out the first element that satisfies `p`; the last one fills the gap. -/
def swapErase (p : α → Bool) : List α → List α
  | [] => []
  | a :: rest =>
      if p a then
        match rest.getLast? with
        | none => []
        | some last => last :: rest.dropLast
      else a :: swapErase p rest

theorem swapErase_perm (p : α → Bool) (l : List α) : (swapErase p l).Perm (l.eraseP p) := by
  induction l with
  | nil => exact List.Perm.refl _
  | cons a rest ih =>
      by_cases ha : p a = true
      · simp only [swapErase, ha, if_true, List.eraseP_cons_of_pos]
        rcases List.eq_nil_or_concat rest with rfl | ⟨init, last, rfl⟩
        · simp
        · simpa using (List.perm_append_singleton last init).symm
      · simpa [swapErase, ha] using ih

/-- Changes the values of a name in place, or adds the name at the end. -/
def updateEntries (name : FieldName) (f : Option Values → Values) : List Field → List Field
  | [] => [⟨name, f none⟩]
  | entry :: rest =>
      if entry.name = name then ⟨name, f (some entry.values)⟩ :: rest
      else entry :: updateEntries name f rest

theorem names_updateEntries (name : FieldName) (f : Option Values → Values) (l : List Field) :
    (updateEntries name f l).map Field.name = l.map Field.name ∨
      (updateEntries name f l).map Field.name = l.map Field.name ++ [name] ∧
        name ∉ l.map Field.name := by
  induction l with
  | nil => exact Or.inr ⟨rfl, by simp⟩
  | cons entry rest ih =>
      by_cases he : entry.name = name
      · exact Or.inl (by simp [updateEntries, he])
      · rcases ih with ih | ⟨ih, hnot⟩
        · exact Or.inl (by simp [updateEntries, he, ih])
        · exact Or.inr ⟨by simp [updateEntries, he, ih], by
            simpa [Ne.symm (show entry.name ≠ name from he)] using hnot⟩

def empty : Fields :=
  ⟨[], List.nodup_nil⟩

instance : EmptyCollection Fields :=
  ⟨empty⟩

instance : Inhabited Fields :=
  ⟨empty⟩

def update (fields : Fields) (name : FieldName) (f : Option Values → Values) : Fields where
  entries := updateEntries name f fields.entries
  distinct := by
    rcases names_updateEntries name f fields.entries with h | ⟨h, hnot⟩
    · exact h ▸ fields.distinct
    · rw [h]
      exact List.nodup_append.mpr ⟨fields.distinct, by simp, by
        intro a ha b hb hab
        simp only [List.mem_singleton] at hb
        exact hnot (hb ▸ hab ▸ ha)⟩

def append (fields : Fields) (name : FieldName) (value : FieldValue) : Fields :=
  fields.update name fun
    | none => .single value
    | some values => values.push value

/-- Makes a value the only one of its name. -/
def insert (fields : Fields) (name : FieldName) (value : FieldValue) : Fields :=
  fields.update name fun _ => .single value

def remove (fields : Fields) (name : FieldName) : Fields where
  entries := swapErase (fun entry => entry.name == name) fields.entries
  distinct := by
    have hperm := (swapErase_perm (fun entry => entry.name == name) fields.entries).map Field.name
    exact hperm.nodup_iff.mpr (fields.distinct.sublist (List.eraseP_sublist.map Field.name))

def extend (fields other : Fields) : Fields :=
  other.entries.foldl (fun acc entry => acc.update entry.name fun _ => entry.values) fields

/-- The fields in order, one pair for each value. -/
def toList (fields : Fields) : List (FieldName × FieldValue) :=
  fields.entries.flatMap fun entry => entry.values.toList.map fun value => (entry.name, value)

def ofList (pairs : List (FieldName × FieldValue)) : Fields :=
  pairs.foldl (fun acc pair => acc.append pair.1 pair.2) ∅

def find? (fields : Fields) (name : FieldName) : Option Values :=
  (fields.entries.find? fun entry => entry.name == name).map Field.values

def values (fields : Fields) (name : FieldName) : List FieldValue :=
  (fields.find? name).elim [] Values.toList

def get? (fields : Fields) (name : FieldName) : Option FieldValue :=
  (fields.find? name).map Values.first

def contains (fields : Fields) (name : FieldName) : Bool :=
  (fields.find? name).isSome

theorem find?_eq_some_iff {fields : Fields} {name : FieldName} {values : Values} :
    fields.find? name = some values ↔ ⟨name, values⟩ ∈ fields.entries := by
  have hlookup : ∀ l : List Field, (l.map Field.name).Nodup →
      ((l.find? fun entry => entry.name == name).map Field.values = some values ↔
        ⟨name, values⟩ ∈ l) := by
    intro l hl
    induction l with
    | nil => simp
    | cons entry rest ih =>
        simp only [List.map_cons, List.nodup_cons] at hl
        by_cases he : entry.name = name
        · simp only [List.find?_cons, he, beq_self_eq_true, Option.map_some, List.mem_cons,
            Option.some.injEq]
          constructor
          · rintro rfl
            exact Or.inl (by cases entry; simp_all)
          · rintro (h | h)
            · rw [← h]
            · exact absurd (List.mem_map.mpr ⟨_, h, rfl⟩) (he ▸ hl.1)
        · have hb : (entry.name == name) = false := by simpa using he
          simp only [List.find?_cons, hb, List.mem_cons]
          rw [ih hl.2]
          constructor
          · exact Or.inr
          · rintro (h | h)
            · exact absurd (congrArg Field.name h).symm he
            · exact h
  exact hlookup fields.entries fields.distinct

theorem find?_update_self (fields : Fields) (name : FieldName) (f : Option Values → Values) :
    (fields.update name f).find? name = some (f (fields.find? name)) := by
  show ((updateEntries name f fields.entries).find? _).map _ =
    some (f ((fields.entries.find? _).map _))
  induction fields.entries with
  | nil => simp [updateEntries]
  | cons entry rest ih =>
      by_cases he : entry.name = name
      · simp [updateEntries, he]
      · have hb : (entry.name == name) = false := by simpa using he
        simpa [updateEntries, he, List.find?_cons, hb] using ih

theorem find?_update_of_ne (fields : Fields) {name other : FieldName}
    (f : Option Values → Values) (h : other ≠ name) :
    (fields.update name f).find? other = fields.find? other := by
  show ((updateEntries name f fields.entries).find? _).map _ =
    (fields.entries.find? _).map _
  have hn : (name == other) = false := by simpa using h.symm
  induction fields.entries with
  | nil => simp [updateEntries, hn]
  | cons entry rest ih =>
      by_cases he : entry.name = name
      · simp [updateEntries, he, hn]
      · by_cases ho : entry.name = other
        · rw [updateEntries, if_neg he]
          simp [ho]
        · have hb : (entry.name == other) = false := by simpa using ho
          simpa [updateEntries, he, List.find?_cons, hb] using ih

@[simp] theorem find?_insert_self (fields : Fields) (name : FieldName) (value : FieldValue) :
    (fields.insert name value).find? name = some (.single value) :=
  find?_update_self ..

theorem find?_insert_of_ne (fields : Fields) {name other : FieldName} (value : FieldValue)
    (h : other ≠ name) : (fields.insert name value).find? other = fields.find? other :=
  find?_update_of_ne _ _ h

theorem mem_remove_iff {fields : Fields} {name : FieldName} {entry : Field} :
    entry ∈ (fields.remove name).entries ↔ entry ∈ fields.entries ∧ entry.name ≠ name := by
  have herase : ∀ l : List Field, (l.map Field.name).Nodup →
      (entry ∈ l.eraseP (fun e => e.name == name) ↔ entry ∈ l ∧ entry.name ≠ name) := by
    intro l hl
    induction l with
    | nil => simp
    | cons e rest ih =>
        simp only [List.map_cons, List.nodup_cons] at hl
        by_cases he : e.name = name
        · simp only [List.eraseP_cons, he, beq_self_eq_true, cond_true, List.mem_cons]
          constructor
          · intro h
            exact ⟨Or.inr h, fun hn => hl.1 (he ▸ hn ▸ List.mem_map.mpr ⟨_, h, rfl⟩)⟩
          · rintro ⟨h | h, hn⟩
            · exact absurd (h ▸ he) hn
            · exact h
        · have hb : (e.name == name) = false := by simpa using he
          simp only [List.eraseP_cons, hb, List.mem_cons, cond_false]
          rw [ih hl.2]
          constructor
          · rintro (h | h)
            · exact ⟨Or.inl h, h ▸ he⟩
            · exact ⟨Or.inr h.1, h.2⟩
          · rintro ⟨h | h, hn⟩
            · exact Or.inl h
            · exact Or.inr ⟨h, hn⟩
  rw [← herase fields.entries fields.distinct]
  exact (swapErase_perm _ _).mem_iff

@[simp] theorem find?_remove_self (fields : Fields) (name : FieldName) :
    (fields.remove name).find? name = none := by
  cases h : (fields.remove name).find? name with
  | none => rfl
  | some values => exact absurd rfl (mem_remove_iff.mp (find?_eq_some_iff.mp h)).2

theorem find?_remove_of_ne (fields : Fields) {name other : FieldName} (h : other ≠ name) :
    (fields.remove name).find? other = fields.find? other := by
  apply Option.ext
  intro values
  rw [find?_eq_some_iff, find?_eq_some_iff, mem_remove_iff]
  exact and_iff_left h

end Fields

end HttpFraming
