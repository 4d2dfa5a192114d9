import HttpFraming.Framing
import HttpFraming.Proofs.RoundTrip.Blanks
import Mathlib.Data.Nat.Digits.Defs

/-!
# Lengths that cannot be misread

All Content-Length fields of a head together are one list of elements.
`ContentLength.Announces` says which lists announce a length. Exactly these are accepted, a
head without such a field has no length, and of the fields nothing is changed but that a length
that was given more than once is written once: `Head.normalize_iff`.
-/

namespace HttpFraming

open Bytes

/-! ## Decimal numbers -/

namespace Numeral

def ofDecimal (digits : Bytes) : Nat :=
  Nat.ofDigits 10 (digits.reverse.map fun b => b.toNat - 48)

theorem ofDecimal_cons (b : UInt8) (rest : Bytes) :
    ofDecimal (b :: rest) = (b.toNat - 48) * 10 ^ rest.length + ofDecimal rest := by
  rw [ofDecimal, List.reverse_cons, List.map_append, Nat.ofDigits_append, List.length_map,
    List.length_reverse, List.map_singleton, Nat.ofDigits_singleton, ofDecimal, Nat.add_comm,
    Nat.mul_comm]

theorem digit?_ten : ∀ b, digit? 10 b = if isDigit b then some (b.toNat - 48) else none := by
  apply forall_byte
  decide +kernel

theorem foldlM_ten {bytes : Bytes} {acc n : Nat} :
    bytes.foldlM (push? 10) acc = some n ↔
      (∀ b ∈ bytes, isDigit b = true) ∧ acc * 10 ^ bytes.length + ofDecimal bytes = n := by
  induction bytes generalizing acc with
  | nil => simp [ofDecimal]
  | cons b rest ih =>
      rw [List.foldlM_cons, List.forall_mem_cons, push?, digit?_ten]
      by_cases hdigit : isDigit b = true
      · have hvalue : (acc * 10 + (b.toNat - 48)) * 10 ^ rest.length + ofDecimal rest =
            acc * 10 ^ (b :: rest).length + ofDecimal (b :: rest) := by
          rw [ofDecimal_cons, List.length_cons, Nat.pow_succ']
          ring
        simp only [hdigit, if_true, Option.map_some, Option.bind_eq_bind, Option.bind_some,
          true_and]
        rw [ih, hvalue]
      · simp [hdigit]

theorem read?_ten {bytes : Bytes} {n : Nat} :
    read? 10 bytes = some n ↔
      bytes ≠ [] ∧ (∀ b ∈ bytes, isDigit b = true) ∧ ofDecimal bytes = n := by
  cases bytes with
  | nil => simp [read?]
  | cons b rest =>
      have hpush : (b :: rest).foldlM (push? 10) 0 = some n ↔ _ := foldlM_ten
      simpa [read?] using hpush

end Numeral

/-! ## The list of lengths -/

namespace ContentLength

def listed (fields : Fields) : List Bytes :=
  (fields.values .contentLength).flatMap fun value => elements value.bytes

/-- Digits alone, at least one, of a number below the word bound. -/
structure Denotes (value : Bytes) (n : Nat) : Prop where
  nonempty : value ≠ []
  digits : ∀ b ∈ value, isDigit b = true
  number : Numeral.ofDecimal value = n
  word : n < Numeral.wordBound

/-- All fields are plain text, and what they list is a length: one element, or, where a length
may be repeated, the same one again and again. -/
structure Announces (fields : Fields) (repeated : Bool) (n : Nat) : Prop where
  plain : ∀ value ∈ fields.values .contentLength, value.bytes.all isPlain = true
  list : ∃ first more, listed fields = first :: more ∧ Denotes first n ∧
    (more = [] ∨ repeated = true ∧ ∀ element ∈ more, element = first)

theorem number_eq_ok_iff {value : Bytes} {n : Nat} : number value = .ok n ↔ Denotes value n := by
  have hread : number value = .ok n ↔
      Numeral.read? 10 value = some n ∧ n < Numeral.wordBound := by
    unfold number
    cases hfilter : (Numeral.read? 10 value).filter (· < Numeral.wordBound) with
    | none =>
        have hnone : ¬ (Numeral.read? 10 value = some n ∧ n < Numeral.wordBound) := by
          rintro ⟨hread, hword⟩
          simp [hread, Option.filter, hword] at hfilter
        simpa using hnone
    | some m =>
        have hsome := Option.filter_eq_some_iff.mp hfilter
        simp only [decide_eq_true_eq] at hsome
        simp only [hsome.1, Except.ok.injEq, Option.some.injEq]
        constructor
        · rintro rfl
          exact ⟨rfl, hsome.2⟩
        · exact And.left
  rw [hread, Numeral.read?_ten]
  exact ⟨fun h => ⟨h.1.1, h.1.2.1, h.1.2.2, h.2⟩, fun h => ⟨⟨h.1, h.2, h.3⟩, h.4⟩⟩

theorem mapM_text? (values : List FieldValue) :
    values.mapM FieldValue.text? =
      if values.all (fun value => value.bytes.all isPlain) then
        some (values.map FieldValue.bytes)
      else none := by
  induction values with
  | nil => rfl
  | cons value values ih =>
      rw [List.mapM_cons, ih, FieldValue.text?]
      by_cases hvalue : value.bytes.all isPlain = true
      · by_cases hvalues : values.all (fun value => value.bytes.all isPlain) = true
        · simp [hvalue, hvalues]
        · simp [hvalue, hvalues]
      · simp [hvalue]

theorem elements?_eq (fields : Fields) :
    elements? fields =
      if (fields.values .contentLength).all (fun value => value.bytes.all isPlain) then
        some (listed fields)
      else none := by
  rw [elements?, mapM_text?]
  split
  · rw [Option.map_some, listed, List.flatMap_map]
  · rfl

/-- Every field has an element. -/
theorem listed_eq_nil_iff {fields : Fields} :
    listed fields = [] ↔ fields.contains .contentLength = false := by
  cases hfind : fields.find? .contentLength with
  | none => simp [listed, Fields.values, Fields.contains, hfind]
  | some values =>
      simp [listed, Fields.values, Fields.contains, hfind, Values.toList, elements_ne_nil]

theorem announces_iff {fields : Fields} {repeated : Bool} {first : Bytes} {more : List Bytes}
    (hplain : ∀ value ∈ fields.values .contentLength, value.bytes.all isPlain = true)
    (hlisted : listed fields = first :: more) (n : Nat) :
    Announces fields repeated n ↔ number first = .ok n ∧
      (more = [] ∨ repeated = true ∧ ∀ element ∈ more, element = first) := by
  rw [number_eq_ok_iff]
  constructor
  · rintro ⟨-, first', more', hlisted', hannounced⟩
    rw [hlisted] at hlisted'
    cases hlisted'
    exact hannounced
  · intro hannounced
    exact ⟨hplain, first, more, hlisted, hannounced⟩

theorem Announces.contains {fields : Fields} {repeated : Bool} {n : Nat}
    (h : Announces fields repeated n) : fields.contains .contentLength = true := by
  obtain ⟨first, more, hlisted, -⟩ := h.list
  rw [← Bool.not_eq_false, ← listed_eq_nil_iff, hlisted]
  exact List.cons_ne_nil first more

theorem Announces.unique {fields : Fields} {repeated : Bool} {m n : Nat}
    (hm : Announces fields repeated m) (hn : Announces fields repeated n) : m = n := by
  obtain ⟨first, more, hlisted, hdenotes, -⟩ := hm.list
  have hfirst := ((announces_iff hn.plain hlisted n).mp hn).1
  exact hdenotes.number.symm.trans (number_eq_ok_iff.mp hfirst).number

/-! ## Normalizing -/

/-- What normalizing gives: no length, the length of one element with the fields as they are, the
length of several with one field in their place, or a refusal. -/
inductive Normalized (fields : Fields) (repeated : Bool) :
    Except ReadError (Option Nat × Fields) → Prop
  | absent (habsent : fields.contains .contentLength = false) :
      Normalized fields repeated (.ok (none, fields))
  | single (n : Nat) (hannounces : Announces fields repeated n)
      (hone : (listed fields).length = 1) : Normalized fields repeated (.ok (some n, fields))
  | several (n : Nat) (hannounces : Announces fields repeated n)
      (hmany : 1 < (listed fields).length) :
      Normalized fields repeated (.ok (some n, fields.insert .contentLength (.ofNat n)))
  | refused (cause : ReadError) (hcontains : fields.contains .contentLength = true)
      (hnone : ∀ n, ¬ Announces fields repeated n) : Normalized fields repeated (.error cause)

theorem normalized_of_listed {fields : Fields} {first : Bytes} {more : List Bytes}
    (hplain : ∀ value ∈ fields.values .contentLength, value.bytes.all isPlain = true)
    (hlisted : listed fields = first :: more) (repeated : Bool) :
    Normalized fields repeated (normalize fields repeated) := by
  have hcontains : fields.contains .contentLength = true := by
    rw [← Bool.not_eq_false, ← listed_eq_nil_iff, hlisted]
    exact List.cons_ne_nil first more
  have hannounces : ∀ n, Announces fields repeated n ↔ _ := announces_iff hplain hlisted
  have helements : elements? fields = some (first :: more) := by
    rw [elements?_eq, if_pos (List.all_eq_true.mpr hplain), hlisted]
  cases more with
  | nil =>
      simp only [normalize, helements]
      cases hnumber : number first with
      | error cause =>
          refine .refused cause hcontains fun n h => ?_
          rw [hannounces, hnumber] at h
          cases h.1
      | ok n => exact .single n ((hannounces n).mpr ⟨hnumber, .inl rfl⟩) (by rw [hlisted]; rfl)
  | cons second more =>
      simp only [normalize, helements]
      split
      · rename_i hrepeated
        simp only [Bool.and_eq_true, List.all_eq_true, beq_iff_eq] at hrepeated
        cases hnumber : number first with
        | error cause =>
            refine .refused cause hcontains fun n h => ?_
            rw [hannounces, hnumber] at h
            cases h.1
        | ok n =>
            have hsame := (hannounces n).mpr ⟨hnumber, .inr ⟨hrepeated.1.1, hrepeated.2⟩⟩
            exact .several n hsame (by rw [hlisted]; simp)
      · rename_i hrepeated
        refine .refused _ hcontains fun n h => hrepeated ?_
        obtain ⟨hnumber, hnil | ⟨hallowed, hsame⟩⟩ := (hannounces n).mp h
        · cases hnil
        · have hnonempty := (number_eq_ok_iff.mp hnumber).nonempty
          simp only [Bool.and_eq_true, List.all_eq_true, beq_iff_eq]
          exact ⟨⟨hallowed, by simpa using hnonempty⟩, hsame⟩

theorem normalized (fields : Fields) (repeated : Bool) :
    Normalized fields repeated (normalize fields repeated) := by
  by_cases hplain : ∀ value ∈ fields.values .contentLength, value.bytes.all isPlain = true
  · cases hlisted : listed fields with
    | nil =>
        have helements : elements? fields = some [] := by
          rw [elements?_eq, if_pos (List.all_eq_true.mpr hplain), hlisted]
        simp only [normalize, helements]
        exact .absent (listed_eq_nil_iff.mp hlisted)
    | cons first more => exact normalized_of_listed hplain hlisted repeated
  · have helements : elements? fields = none := by
      rw [elements?_eq, if_neg (mt List.all_eq_true.mp hplain)]
    simp only [normalize, helements]
    refine .refused _ ?_ fun n hannounces => hplain hannounces.plain
    rw [← Bool.not_eq_false]
    intro habsent
    rw [(Fields.values_of_not_contains habsent).1] at hplain
    exact hplain fun value hvalue => absurd hvalue List.not_mem_nil

namespace Normalized

variable {fields : Fields} {repeated : Bool} {result : Except ReadError (Option Nat × Fields)}

theorem absent_iff (h : Normalized fields repeated result) :
    result.map Prod.fst = .ok none ↔ fields.contains .contentLength = false := by
  cases h with
  | absent habsent => simp [Except.map, habsent]
  | single n hannounces hone => simp [Except.map, hannounces.contains]
  | several n hannounces hmany => simp [Except.map, hannounces.contains]
  | refused cause hcontains hnone => simp [Except.map, hcontains]

theorem announces_iff (h : Normalized fields repeated result) (n : Nat) :
    result.map Prod.fst = .ok (some n) ↔ Announces fields repeated n := by
  have hsame : ∀ {m}, Announces fields repeated m → (m = n ↔ Announces fields repeated n) := by
    intro m hm
    constructor
    · rintro rfl
      exact hm
    · exact hm.unique
  cases h with
  | absent habsent =>
      have hnot : ¬ Announces fields repeated n := by
        intro hannounces
        simp [hannounces.contains] at habsent
      simpa [Except.map] using hnot
  | single m hannounces hone => simpa [Except.map] using hsame hannounces
  | several m hannounces hmany => simpa [Except.map] using hsame hannounces
  | refused cause hcontains hnone => simpa [Except.map] using hnone n

end Normalized

end ContentLength

namespace Head

variable {k : Kind}

/-- Framing a head leaves its fields as normalizing does, also where it is refused. -/
theorem fields_of_frame (h : Head k) (limits : Limits) :
    (h.frame limits false).1.fields =
      match ContentLength.normalize h.fields limits.repeatedLengths with
      | .ok (_, fields) => fields
      | .error _ => h.fields := by
  unfold frame
  rw [if_neg nofun]
  split <;> rename_i hnormalize <;> simp [hnormalize]

/-- A reader finds no length exactly where there is no Content-Length field, finds a length
exactly where the fields announce it, and refuses all else. A length that is given in several
elements is left in one field. In every other case, a refusal among them, the fields are left as
they are, and the values of another name always are. -/
theorem normalize_iff (h : Head k) (limits : Limits) :
    let length := (ContentLength.normalize h.fields limits.repeatedLengths).map Prod.fst
    let left := (h.frame limits false).1.fields
    (length = .ok none ↔ h.fields.contains .contentLength = false) ∧
      (∀ n, length = .ok (some n) ↔
        ContentLength.Announces h.fields limits.repeatedLengths n) ∧
      (∀ n, length = .ok (some n) → 1 < (ContentLength.listed h.fields).length →
        left.values .contentLength = [.ofNat n]) ∧
      ((∀ n, length ≠ .ok (some n)) ∨ (ContentLength.listed h.fields).length ≤ 1 →
        left = h.fields) ∧
      ∀ name, name ≠ .contentLength → left.values name = h.fields.values name := by
  intro length left
  have hleft : left = _ := fields_of_frame h limits
  have hnormalized := ContentLength.normalized h.fields limits.repeatedLengths
  have hlength : length = (ContentLength.normalize h.fields limits.repeatedLengths).map Prod.fst :=
    rfl
  clear_value length left
  subst hlength hleft
  refine ⟨hnormalized.absent_iff, hnormalized.announces_iff, ?_⟩
  generalize ContentLength.normalize h.fields limits.repeatedLengths = result at hnormalized
  cases hnormalized with
  | absent habsent => exact ⟨by simp [Except.map], fun _ => rfl, fun _ _ => rfl⟩
  | single n hannounces hone =>
      exact ⟨fun _ _ hmany => absurd hmany (by omega), fun _ => rfl, fun _ _ => rfl⟩
  | refused cause hcontains hnone => exact ⟨by simp [Except.map], fun _ => rfl, fun _ _ => rfl⟩
  | several n hannounces hmany =>
      refine ⟨fun m hm _ => ?_, fun hnot => ?_, fun name hname => ?_⟩
      · obtain rfl : n = m := Option.some.inj (Except.ok.inj hm)
        simp [Fields.values]
      · rcases hnot with hnone | hfew
        · exact absurd rfl (hnone n)
        · omega
      · rw [Fields.values, Fields.find?_insert_of_ne _ _ hname, Fields.values]

end Head

end HttpFraming
