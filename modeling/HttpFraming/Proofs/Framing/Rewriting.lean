import HttpFraming.Proofs.Framing.Agreement

/-!
# Announcing a framing

Announcing a framing leaves one field for it at most, whatever stood there before, and touches no
other name: `Framing.find?_announce`. So all readers find the framing that was announced last,
however many were announced before it: `Head.framing_of_announce`.
-/

namespace HttpFraming

open Bytes

theorem FieldName.transferEncoding_ne_contentLength : transferEncoding ≠ contentLength := by
  decide

namespace Framing

def coding? : Framing → Option FieldValue
  | chunked => some .chunked
  | _ => none

/-- The framing under which a head is sent that announces this one. -/
def sent : Framing → Framing
  | empty => length 0
  | framing => framing

/-- The framing that a reader finds where this one is announced. No body is announced as one of no
bytes, and a request that announces nothing has none. -/
def received (k : Kind) : Framing → Framing
  | empty => length 0
  | untilClose => if k = .request then empty else untilClose
  | framing => framing

/-! ## The fields of an announced framing -/

theorem find?_announce (framing : Framing) (fields : Fields) (name : FieldName) :
    (framing.announce fields).find? name =
      if name = .contentLength then framing.declared?.map fun n => .single (.ofNat n)
      else if name = .transferEncoding then framing.coding?.map .single
      else fields.find? name := by
  have hne := FieldName.transferEncoding_ne_contentLength
  by_cases hlength : name = .contentLength
  · subst hlength
    rw [if_pos rfl]
    cases framing with
    | length n => exact Fields.find?_insert_self _ _ _
    | chunked =>
        rw [announce, Fields.find?_insert_of_ne _ _ hne.symm, Fields.find?_remove_self]
        rfl
    | empty => exact Fields.find?_insert_self _ _ _
    | untilClose => exact Fields.find?_remove_self _ _
  · rw [if_neg hlength]
    by_cases hcoding : name = .transferEncoding
    · subst hcoding
      rw [if_pos rfl]
      cases framing with
      | length n =>
          rw [announce, Fields.find?_insert_of_ne _ _ hne, Fields.find?_remove_self]
          rfl
      | chunked => exact Fields.find?_insert_self _ _ _
      | empty =>
          rw [announce, Fields.find?_insert_of_ne _ _ hne, Fields.find?_remove_self]
          rfl
      | untilClose =>
          rw [announce, Fields.find?_remove_of_ne _ hne, Fields.find?_remove_self]
          rfl
    · rw [if_neg hcoding]
      exact framing.announce_find?_of_ne fields hlength hcoding

end Framing

namespace Head

variable {k : Kind} (h : Head k)

theorem values_announce_of_ne (framing : Framing) {name : FieldName}
    (hlength : name ≠ .contentLength) (hcoding : name ≠ .transferEncoding) :
    (h.announce framing).fields.values name = h.fields.values name := by
  rw [Fields.values, announce, framing.announce_find?_of_ne h.fields hlength hcoding, Fields.values]

theorem find?_announce_last (before : List Framing) (framing : Framing) (name : FieldName) :
    ((before.foldl announce h).announce framing).fields.find? name =
      (h.announce framing).fields.find? name := by
  induction before generalizing h with
  | nil => rfl
  | cons first before ih =>
      -- What the first one wrote is either overwritten or what stood there before.
      rw [List.foldl_cons, ih]
      simp only [announce, Framing.find?_announce]
      split
      · rfl
      · split
        · rfl
        · rfl

/-! ## What readers find -/

theorem contains_announce (framing : Framing) :
    (h.announce framing).fields.contains .contentLength = framing.declared?.isSome ∧
      (h.announce framing).fields.contains .transferEncoding = framing.coding?.isSome := by
  have hne := FieldName.transferEncoding_ne_contentLength
  simp [Fields.contains, announce, Framing.find?_announce, hne]

theorem isChunked_announce (framing : Framing) :
    (h.announce framing).isChunked = framing.isChunked := by
  have hne := FieldName.transferEncoding_ne_contentLength
  have hget : (h.announce framing).fields.get? .transferEncoding = framing.coding? := by
    simp only [Fields.get?, announce, Framing.find?_announce, hne, if_false, if_true,
      Option.map_map]
    cases framing.coding? <;> rfl
  rw [isChunked, hget]
  cases framing with
  | chunked => decide +kernel
  | length n => rfl
  | empty => rfl
  | untilClose => rfl

/-- A head that announces a framing says in one way how its body is framed. -/
theorem announce_settled {framing : Framing}
    (hword : ∀ n ∈ framing.declared?, n < Numeral.wordBound) :
    (h.announce framing).Settled (framing.received k) := by
  obtain ⟨hlength, hcoding⟩ := h.contains_announce framing
  have hchunked := h.isChunked_announce framing
  cases framing with
  | length n =>
      have hannounces := ContentLength.announces_insert (h.fields.remove .transferEncoding)
        (hword n rfl)
      exact .length n hannounces hcoding
  | chunked => exact .chunked hlength hchunked
  | empty =>
      have hannounces := ContentLength.announces_insert (h.fields.remove .transferEncoding)
        (hword 0 rfl)
      exact .length 0 hannounces hcoding
  | untilClose =>
      cases k with
      | request => exact .empty rfl hlength hcoding
      | response => exact .untilClose rfl hlength hchunked

/-- A head is sent under the framing that it was made to announce and is read with it, under any
limits and left as it is, except that no body is announced as one of no bytes, and that a request
which announces nothing has no body. No other name is touched, and of several framings the one
that is announced last decides. -/
theorem framing_of_announce (framing : Framing)
    (hword : ∀ n ∈ framing.declared?, n < Numeral.wordBound) :
    (h.announce framing).announcedFraming = framing.sent ∧
      (∀ limits : Limits, (h.announce framing).frame limits false =
        (h.announce framing, .ok (framing.received k))) ∧
      (∀ name, name ≠ .contentLength → name ≠ .transferEncoding →
        (h.announce framing).fields.values name = h.fields.values name) ∧
      ∀ (before : List Framing) (name : FieldName),
        ((before.foldl announce h).announce framing).fields.values name =
          (h.announce framing).fields.values name := by
  have hsettled := h.announce_settled hword
  refine ⟨?_, hsettled.frame, ?_, ?_⟩
  · rw [hsettled.announcedFraming]
    cases framing with
    | untilClose => cases k <;> rfl
    | length n => rfl
    | chunked => rfl
    | empty => rfl
  · intro name hlength hcoding
    exact h.values_announce_of_ne framing hlength hcoding
  · intro before name
    rw [Fields.values, h.find?_announce_last before framing name, Fields.values]

/-- A request with two lengths that contradict each other and codings that do not end in chunked,
which is refused as it is. -/
theorem framing_of_announce_of_conflict :
    let h : Request := {
      line := ⟨⟨ascii "POST", by decide⟩, .root⟩
      fields := .ofList [(.contentLength, ⟨ascii "5, 6", by decide⟩), (.connection, .close),
        (.transferEncoding, .chunked), (.transferEncoding, ⟨ascii "gzip", by decide⟩),
        (.contentLength, ⟨ascii "x", by decide⟩)] }
    let announced := h.announce (.length 7)
    (h.frame {} false).2 ≠ .ok (.length 7) ∧ announced.announcedFraming = .length 7 ∧
      (announced.frame {} false).2 = .ok (.length 7) ∧
      announced.fields.values .connection = [.close] ∧
      (((h.announce .untilClose).announce .chunked).announce (.length 7)).fields.values
        .contentLength = [.ofNat 7] := by
  intro h announced
  obtain ⟨hsent, hread, hothers, hlast⟩ := h.framing_of_announce (.length 7) (by decide +kernel)
  refine ⟨by decide +kernel, hsent, congrArg Prod.snd (hread {}), ?_, ?_⟩
  · exact (hothers .connection (by decide) (by decide)).trans (by decide +kernel)
  · exact (hlast [.untilClose, .chunked] .contentLength).trans (by decide +kernel)

end Head

end HttpFraming
