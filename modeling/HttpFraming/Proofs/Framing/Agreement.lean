import HttpFraming.Proofs.Framing.Lengths

/-!
# One framing for all readers of a head

Three functions read the framing of a head: the one that frames a received head, the one that
looks for the framing under which a head is sent, and the one that reads the length alone. The
first is strict and the others are lenient. On a head that the first has accepted they agree, and
framing it once more changes nothing: `Head.readers_agree`.
-/

namespace HttpFraming

open Bytes

/-! ## A length that is given once -/

namespace ContentLength

variable {fields : Fields} {n : Nat}

theorem Announces.mono (h : Announces fields false n) (repeated : Bool) :
    Announces fields repeated n := by
  obtain ⟨first, more, hlisted, hdenotes, hnil | ⟨hfalse, -⟩⟩ := h.list
  · exact ⟨h.plain, first, more, hlisted, hdenotes, .inl hnil⟩
  · cases hfalse

/-- A length that is given once stands in the only field, with nothing but blanks around it. -/
theorem Announces.once (h : Announces fields false n) :
    ∃ value, fields.values .contentLength = [value] ∧ value.text? = some value.bytes ∧
      listed fields = [trim value.bytes] ∧ number (trim value.bytes) = .ok n := by
  obtain ⟨first, more, hlisted, hdenotes, hnil | ⟨hfalse, -⟩⟩ := h.list
  case inr => cases hfalse
  subst hnil
  cases hvalues : fields.values .contentLength with
  | nil => simp [listed, hvalues] at hlisted
  | cons value others =>
      have hplain : value.bytes.all isPlain = true := h.plain value (by simp [hvalues])
      have hsplit := hlisted
      rw [listed, hvalues, List.flatMap_cons, List.append_eq_singleton_iff] at hsplit
      -- Each field has an element, so there is no other field.
      rcases hsplit with ⟨hnone, -⟩ | ⟨hone, hothers⟩
      · exact absurd hnone (elements_ne_nil value.bytes)
      · have hothers : others = [] := by
          cases others with
          | nil => rfl
          | cons other others => simp [elements_ne_nil] at hothers
        have hfirst : first = trim value.bytes := by
          rcases elements_cases value.bytes with ⟨-, htrim⟩ | ⟨front, rest, -, -, hmore⟩
          · rw [hone] at htrim
            exact (List.cons.inj htrim).1
          · rw [hone] at hmore
            exact absurd (List.cons.inj hmore).2.symm (elements_ne_nil rest)
        subst hothers hfirst
        exact ⟨value, rfl, by simp [FieldValue.text?, hplain], hlisted,
          number_eq_ok_iff.mpr hdenotes⟩

theorem normalize_of_announces (h : Announces fields false n) (repeated : Bool) :
    normalize fields repeated = .ok (some n, fields) := by
  obtain ⟨value, -, -, hlisted, -⟩ := h.once
  have hnormalized := normalized fields repeated
  generalize normalize fields repeated = result at hnormalized
  cases hnormalized with
  | absent habsent => simp [h.contains] at habsent
  | single m hannounces hone => rw [hannounces.unique (h.mono repeated)]
  | several m hannounces hmany => simp [hlisted] at hmany
  | refused cause hcontains hnone => exact absurd (h.mono repeated) (hnone n)

theorem number_write {n : Nat} (hword : n < Numeral.wordBound) :
    number (Numeral.write 10 n) = .ok n := by
  have hread : Numeral.read? 10 (Numeral.write 10 n) = some n :=
    Numeral.read?_write (by decide) (by decide) n
  have hbound : (Numeral.read? 10 (Numeral.write 10 n)).filter (· < Numeral.wordBound) = some n :=
    Option.filter_eq_some_iff.mpr ⟨hread, by simpa using hword⟩
  simp only [number, hbound]

theorem announces_insert (fields : Fields) {n : Nat} (hword : n < Numeral.wordBound) :
    Announces (fields.insert .contentLength (.ofNat n)) false n := by
  have hvalues : (fields.insert .contentLength (.ofNat n)).values .contentLength = [.ofNat n] := by
    simp [Fields.values]
  have hdenotes := number_eq_ok_iff.mp (number_write hword)
  have hplain : (FieldValue.ofNat n).bytes.all isPlain = true :=
    List.all_eq_true.mpr fun b hb => (digit_class b (hdenotes.digits b hb)).1
  refine ⟨by simpa [hvalues] using hplain, Numeral.write 10 n, [], ?_, hdenotes, .inl rfl⟩
  rw [listed, hvalues, List.flatMap_singleton]
  exact elements_of_digits hdenotes.digits

end ContentLength

/-! ## Heads with one framing -/

namespace Head

variable {k : Kind} {h : Head k} {framing : Framing}

/-- The fields say in one way how the body is framed: by one length, by a coding that ends in
chunked, or by nothing that is understood. A request that says nothing has no body, and a response
is read until the connection closes. -/
inductive Settled (h : Head k) : Framing → Prop
  | length (n : Nat) (hannounces : ContentLength.Announces h.fields false n)
      (hcoding : h.fields.contains .transferEncoding = false) : Settled h (.length n)
  | chunked (hlength : h.fields.contains .contentLength = false)
      (hchunked : h.isChunked = true) : Settled h .chunked
  | empty (hrequest : k = .request) (hlength : h.fields.contains .contentLength = false)
      (hcoding : h.fields.contains .transferEncoding = false) : Settled h .empty
  | untilClose (hresponse : k = .response) (hlength : h.fields.contains .contentLength = false)
      (hchunked : h.isChunked = false) : Settled h .untilClose

theorem settled_of_framingWith_none (hlength : h.fields.contains .contentLength = false)
    (hframing : h.framingWith none = .ok framing) : h.Settled framing := by
  unfold framingWith at hframing
  split at hframing
  · cases hframing
  · rename_i hcoding hnone
    split at hframing
    · rename_i hchunked
      cases hframing
      exact .chunked hlength hchunked
    · rename_i hchunked
      split at hframing
      · cases hframing
      · rename_i hkind
        cases hframing
        cases k with
        | request => exact absurd rfl hkind
        | response => exact .untilClose rfl hlength (by simpa using hchunked)
  · rename_i hcoding hsome
    cases hsome
  · rename_i hcoding hnone
    cases hframing
    cases k with
    | request => exact .empty rfl hlength hcoding
    | response => exact .untilClose rfl hlength (isChunked_of_not_contains hcoding)

theorem settled_of_framingWith_some {n : Nat}
    (hannounces : ContentLength.Announces h.fields false n)
    (hframing : h.framingWith (some n) = .ok framing) : h.Settled framing := by
  obtain ⟨hcoding, rfl⟩ := framingWith_some hframing
  exact .length n hannounces hcoding

/-- An accepted head is left with one framing. -/
theorem settled_of_frame {left : Head k} {limits : Limits}
    (hframe : h.frame limits false = (left, .ok framing)) : left.Settled framing := by
  have hnormalized := ContentLength.normalized h.fields limits.repeatedLengths
  unfold frame at hframe
  rw [if_neg nofun] at hframe
  generalize ContentLength.normalize h.fields limits.repeatedLengths = result at *
  cases hnormalized with
  | absent habsent =>
      obtain ⟨rfl, hframing⟩ := Prod.mk.inj hframe
      exact settled_of_framingWith_none habsent hframing
  | single n hannounces hone =>
      obtain ⟨rfl, hframing⟩ := Prod.mk.inj hframe
      refine settled_of_framingWith_some ?_ hframing
      obtain ⟨first, more, hlisted, hdenotes, -⟩ := hannounces.list
      have hnil : more = [] := by simpa [hlisted] using hone
      exact ⟨hannounces.plain, first, more, hlisted, hdenotes, .inl hnil⟩
  | several n hannounces hmany =>
      obtain ⟨rfl, hframing⟩ := Prod.mk.inj hframe
      obtain ⟨first, more, hlisted, hdenotes, -⟩ := hannounces.list
      exact settled_of_framingWith_some (ContentLength.announces_insert _ hdenotes.word) hframing
  | refused cause hcontains hnone => cases hframe

namespace Settled

theorem frame (hsettled : h.Settled framing) (limits : Limits) :
    h.frame limits false = (h, .ok framing) := by
  cases hsettled with
  | length n hannounces hcoding =>
      simp [Head.frame, ContentLength.normalize_of_announces hannounces, framingWith, hcoding]
  | chunked hlength hchunked =>
      simp [Head.frame, normalize_of_not_contains hlength, framingWith,
        contains_of_isChunked hchunked, hchunked]
  | empty hrequest hlength hcoding =>
      simp [Head.frame, normalize_of_not_contains hlength, framingWith, hcoding, hrequest]
  | untilClose hresponse hlength hchunked =>
      subst hresponse
      cases hcoding : h.fields.contains .transferEncoding with
      | true =>
          simp [Head.frame, normalize_of_not_contains hlength, framingWith, hcoding, hchunked]
      | false => simp [Head.frame, normalize_of_not_contains hlength, framingWith, hcoding]

theorem contentLength? (hsettled : h.Settled framing) (n : Nat) :
    h.contentLength? = some n ↔ framing = .length n := by
  cases hsettled with
  | length m hannounces hcoding =>
      obtain ⟨value, hvalues, htext, -, hnumber⟩ := hannounces.once
      have hread := contentLength?_of_text (Fields.get?_of_values hvalues) htext hnumber
      simp [hread]
  | chunked hlength hchunked => simp [contentLength?_of_not_contains hlength]
  | empty hrequest hlength hcoding => simp [contentLength?_of_not_contains hlength]
  | untilClose hresponse hlength hchunked => simp [contentLength?_of_not_contains hlength]

theorem announcedFraming (hsettled : h.Settled framing) :
    h.announcedFraming = if framing.isEmpty then .untilClose else framing := by
  have hlength := hsettled.contentLength?
  cases hsettled with
  | length n hannounces hcoding =>
      simp [Head.announcedFraming, isChunked_of_not_contains hcoding, (hlength n).mpr rfl,
        Framing.isEmpty]
  | chunked hnone hchunked => simp [Head.announcedFraming, hchunked, Framing.isEmpty]
  | empty hrequest hnone hcoding =>
      simp [Head.announcedFraming, isChunked_of_not_contains hcoding,
        contentLength?_of_not_contains hnone, Framing.isEmpty]
  | untilClose hresponse hnone hchunked =>
      simp [Head.announcedFraming, hchunked, contentLength?_of_not_contains hnone,
        Framing.isEmpty]

theorem length_values_le (hsettled : h.Settled framing) :
    (h.fields.values .contentLength).length ≤ 1 := by
  have hnone : h.fields.contains .contentLength = false →
      (h.fields.values .contentLength).length ≤ 1 := by
    intro hlength
    simp [(Fields.values_of_not_contains hlength).1]
  cases hsettled with
  | length n hannounces hcoding =>
      obtain ⟨value, hvalues, -⟩ := hannounces.once
      simp [hvalues]
  | chunked hlength hchunked => exact hnone hlength
  | empty hrequest hlength hcoding => exact hnone hlength
  | untilClose hresponse hlength hchunked => exact hnone hlength

theorem request_of_empty (hsettled : h.Settled .empty) : k = .request := by
  cases hsettled with
  | empty hrequest hlength hcoding => exact hrequest

end Settled

/-- On a head that was accepted all readers find the framing with which it was accepted. It is
sent under this framing, except that a request without a body has it written as it is. The length
that is read is the length of the framing, from at most one field, and under any limits the head
is accepted once more with this framing and left as it is. -/
theorem readers_agree {left : Head k} {limits : Limits}
    (hframe : h.frame limits false = (left, .ok framing)) :
    left.announcedFraming = (if framing.isEmpty then .untilClose else framing) ∧
      (framing = .empty → k = .request) ∧
      (∀ n, left.contentLength? = some n ↔ framing = .length n) ∧
      (left.fields.values .contentLength).length ≤ 1 ∧
      ∀ limits' : Limits, left.frame limits' false = (left, .ok framing) := by
  have hsettled := settled_of_frame hframe
  refine ⟨hsettled.announcedFraming, ?_, hsettled.contentLength?, hsettled.length_values_le,
    hsettled.frame⟩
  rintro rfl
  exact hsettled.request_of_empty

/-- A response that gives its length three times, in two fields and with blanks, is left with one
field and is then accepted also where a length may not be repeated. -/
theorem readers_agree_of_repeated_length :
    let h : Response := {
      line := .ok
      fields := .ofList [(.contentLength, ⟨ascii "05 ,05", by decide⟩),
        (.contentLength, ⟨ascii " 05", by decide⟩)] }
    let left : Response := { h with fields := .ofList [(.contentLength, .ofNat 5)] }
    h.frame { repeatedLengths := true } false = (left, .ok (.length 5)) ∧
      left.announcedFraming = .length 5 ∧ left.contentLength? = some 5 ∧
      left.frame {} false = (left, .ok (.length 5)) := by
  intro h left
  have hframe : h.frame { repeatedLengths := true } false = (left, .ok (.length 5)) := by
    decide +kernel
  obtain ⟨hsent, -, hlength, -, hagain⟩ := readers_agree hframe
  exact ⟨hframe, hsent, (hlength 5).mpr rfl, hagain {}⟩

end Head

end HttpFraming
