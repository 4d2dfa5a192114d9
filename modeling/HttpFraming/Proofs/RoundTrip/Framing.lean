import HttpFraming.Framing
import HttpFraming.Proofs.RoundTrip.Target

/-!
# Framings on which both ends agree

The framing under which a head is sent and the framing that a reader finds are two
decisions, made from the same fields. `Head.Announces` collects the heads on which they
agree: see `Head.Announces.frame` and `Head.Announces.announcedFraming`.
-/

namespace HttpFraming

open Bytes

/-! ## Lengths in digits -/

namespace Numeral

theorem isDigit_of_digit? {b : UInt8} {d : Nat} (h : digit? 10 b = some d) :
    isDigit b = true := by
  have hall : ∀ b, (digit? 10 b).isSome = true → isDigit b = true := by
    apply forall_byte
    decide +kernel
  exact hall b (by simp [h])

theorem isDigit_of_foldlM {bytes : Bytes} {acc n : Nat}
    (h : bytes.foldlM (push? 10) acc = some n) : ∀ b ∈ bytes, isDigit b = true := by
  induction bytes generalizing acc with
  | nil => simp
  | cons b rest ih =>
      rw [List.foldlM_cons] at h
      cases hdigit : digit? 10 b with
      | none => simp [push?, hdigit] at h
      | some d =>
          simp only [push?, hdigit, Option.map_some] at h
          intro c hc
          rcases List.mem_cons.mp hc with rfl | hc
          · exact isDigit_of_digit? hdigit
          · exact ih h c hc

theorem digits_of_read? {bytes : Bytes} {n : Nat} (h : read? 10 bytes = some n) :
    bytes ≠ [] ∧ ∀ b ∈ bytes, isDigit b = true := by
  unfold read? at h
  split at h
  · cases h
  · rename_i hempty
    exact ⟨by simpa using hempty, isDigit_of_foldlM h⟩

end Numeral

namespace Bytes

theorem digit_class : ∀ b, isDigit b = true →
    isPlain b = true ∧ isBlank b = false ∧ (b == comma) = false ∧ b ≠ 43 := by
  apply forall_byte
  decide +kernel

theorem trim_of_digits {bytes : Bytes} (h : ∀ b ∈ bytes, isDigit b = true) :
    trim bytes = bytes := by
  have hdrop : ∀ {l : Bytes}, (∀ b ∈ l, isDigit b = true) → l.dropWhile isBlank = l := by
    intro l hl
    cases l with
    | nil => rfl
    | cons b rest =>
        have hblank := (digit_class b (hl b (by simp))).2.1
        simp [hblank]
  rw [trim, hdrop h, hdrop (by simpa using h), List.reverse_reverse]

theorem elements_of_digits {bytes : Bytes} (h : ∀ b ∈ bytes, isDigit b = true) :
    elements bytes = [bytes] := by
  have hsplit : bytes.splitOn comma = [bytes] :=
    List.splitOnP_eq_singleton fun b hb => (digit_class b (h b hb)).2.2.1
  rw [elements, hsplit, List.map_singleton, trim_of_digits h]

end Bytes

theorem FieldValue.text?_of_digits {value : FieldValue}
    (h : ∀ b ∈ value.bytes, isDigit b = true) : value.text? = some value.bytes := by
  have hplain : value.bytes.all isPlain = true := by
    rw [List.all_eq_true]
    exact fun b hb => (digit_class b (h b hb)).1
  simp [FieldValue.text?, hplain]

/-! ## Consistent heads -/

/-- The fields of a head announce a framing in a way that cannot be misread: one length in
digits, or a coding that ends in chunked, or, in a request, neither. -/
inductive Head.Announces (h : Head k) : Framing → Prop
  | length (value : FieldValue) (n : Nat) (hvalues : h.fields.values .contentLength = [value])
      (hread : Numeral.read? 10 value.bytes = some n) (hword : n < Numeral.wordBound)
      (hcoding : h.fields.contains .transferEncoding = false) : Announces h (.length n)
  | chunked (hchunked : h.isChunked = true)
      (hlength : h.fields.contains .contentLength = false) : Announces h .chunked
  | empty (hrequest : k = .request) (hcoding : h.fields.contains .transferEncoding = false)
      (hlength : h.fields.contains .contentLength = false) : Announces h .empty

namespace Fields

theorem values_of_not_contains {fields : Fields} {name : FieldName}
    (h : fields.contains name = false) : fields.values name = [] ∧ fields.get? name = none := by
  have hnone : fields.find? name = none := by simpa [contains] using h
  simp [values, get?, hnone]

theorem get?_of_values {fields : Fields} {name : FieldName} {value : FieldValue}
    {more : List FieldValue} (h : fields.values name = value :: more) :
    fields.get? name = some value := by
  cases hfind : fields.find? name with
  | none => simp [values, hfind] at h
  | some found =>
      simp only [values, hfind, Option.elim_some, Values.toList, List.cons.injEq] at h
      simp [get?, hfind, h.1]

end Fields

namespace Head

variable {k : Kind} {h : Head k}

theorem isChunked_of_not_contains (hcoding : h.fields.contains .transferEncoding = false) :
    h.isChunked = false := by
  simp [isChunked, (Fields.values_of_not_contains hcoding).2]

theorem contains_of_isChunked (hchunked : h.isChunked = true) :
    h.fields.contains .transferEncoding = true := by
  cases hcontains : h.fields.contains .transferEncoding with
  | true => rfl
  | false => rw [isChunked_of_not_contains hcontains] at hchunked; exact hchunked

theorem contentLength?_of_not_contains (hlength : h.fields.contains .contentLength = false) :
    h.contentLength? = none := by
  simp [contentLength?, (Fields.values_of_not_contains hlength).2]

theorem normalize_of_not_contains (hlength : h.fields.contains .contentLength = false)
    (repeated : Bool) : ContentLength.normalize h.fields repeated = .ok (none, h.fields) := by
  have helements : ContentLength.elements? h.fields = some [] := by
    simp [ContentLength.elements?, (Fields.values_of_not_contains hlength).1]
  simp only [ContentLength.normalize, helements]

section Length

variable {value : FieldValue} {n : Nat} (hvalues : h.fields.values .contentLength = [value])
  (hread : Numeral.read? 10 value.bytes = some n) (hword : n < Numeral.wordBound)

include hvalues hread hword

theorem contentLength?_of_digits : h.contentLength? = some n := by
  obtain ⟨hne, hdigits⟩ := Numeral.digits_of_read? hread
  obtain ⟨b, rest, hb⟩ := List.exists_cons_of_ne_nil hne
  have hplus : b ≠ 43 := (digit_class b (hdigits b (by simp [hb]))).2.2.2
  have hhead : value.bytes.head? ≠ some 43 := by simpa [hb] using hplus
  have hget : h.fields.get? .contentLength = some value := Fields.get?_of_values hvalues
  simp [contentLength?, hget, FieldValue.text?_of_digits hdigits, trim_of_digits hdigits, hhead,
    hread, hword]

theorem normalize_of_digits (repeated : Bool) :
    ContentLength.normalize h.fields repeated = .ok (some n, h.fields) := by
  have hdigits := (Numeral.digits_of_read? hread).2
  have helements : ContentLength.elements? h.fields = some [value.bytes] := by
    simp [ContentLength.elements?, hvalues, FieldValue.text?_of_digits hdigits,
      elements_of_digits hdigits]
  have hbound : (Numeral.read? 10 value.bytes).filter (· < Numeral.wordBound) = some n := by
    simp [hread, Option.filter, hword]
  have hnumber : ContentLength.number value.bytes = .ok n := by
    simp only [ContentLength.number, hbound]
  simp only [ContentLength.normalize, helements, hnumber, Except.map]

end Length

namespace Announces

theorem frame {framing : Framing} (hannounces : h.Announces framing) (limits : Limits) :
    h.frame limits false = (h, .ok framing) := by
  cases hannounces with
  | length value n hvalues hread hword hcoding =>
      simp [Head.frame, normalize_of_digits hvalues hread hword, framingWith, hcoding]
  | chunked hchunked hlength =>
      simp [Head.frame, normalize_of_not_contains hlength, framingWith,
        contains_of_isChunked hchunked, hchunked]
  | empty hrequest hcoding hlength =>
      simp [Head.frame, normalize_of_not_contains hlength, framingWith, hcoding, hrequest]

/-- A head is sent under the framing that it announces; where it announces that there is
nothing, the nothing is written as it is. -/
theorem announcedFraming {framing : Framing} (hannounces : h.Announces framing) :
    h.announcedFraming = if framing.isEmpty then .untilClose else framing := by
  cases hannounces with
  | length value n hvalues hread hword hcoding =>
      simp [Head.announcedFraming, isChunked_of_not_contains hcoding,
        contentLength?_of_digits hvalues hread hword, Framing.isEmpty]
  | chunked hchunked hlength => simp [Head.announcedFraming, hchunked, Framing.isEmpty]
  | empty hrequest hcoding hlength =>
      simp [Head.announcedFraming, isChunked_of_not_contains hcoding,
        contentLength?_of_not_contains hlength, Framing.isEmpty]

end Announces

end Head

end HttpFraming
