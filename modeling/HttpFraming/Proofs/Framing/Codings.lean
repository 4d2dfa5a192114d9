import HttpFraming.Message.Decoder
import HttpFraming.Proofs.RoundTrip.Blanks

/-!
# Transfer codings in several fields

Fields of one name are one list, whose elements are those of the fields in order. What closes the
list of transfer codings is then the last coding of the last field. A reader goes by the first
field instead, so the framing it finds is that of the joined list if and only if these two agree:
`Head.frame_eq_joined_iff`. `Head.frame_ne_joined` is a request on which they do not.
-/

namespace HttpFraming

open Bytes

/-! ## Lists joined with commas -/

namespace Bytes

/-- The elements of a list are those of its front and of its rest, wherever it is parted. -/
theorem elements_append_comma (first rest : Bytes) :
    elements (first ++ comma :: rest) = elements first ++ elements rest := by
  rw [elements, List.splitOn_append_cons_self, List.map_append, elements, elements]

theorem elements_intercalate (first : Bytes) (more : List Bytes) :
    elements ([comma].intercalate (first :: more)) = (first :: more).flatMap elements := by
  induction more generalizing first with
  | nil => simp
  | cons next more ih =>
      rw [List.intercalate_cons_cons, List.append_assoc, List.singleton_append,
        elements_append_comma, ih, ← List.flatMap_cons]

theorem all_intercalate {p : UInt8 → Bool} {lists : List Bytes} (hcomma : p comma = true)
    (hall : ∀ bytes ∈ lists, bytes.all p = true) :
    ([comma].intercalate lists).all p = true := by
  induction lists with
  | nil => rfl
  | cons first more ih =>
      have hfirst : first.all p = true := hall first List.mem_cons_self
      have hmore : ([comma].intercalate more).all p = true :=
        ih fun bytes hbytes => hall bytes (List.mem_cons_of_mem first hbytes)
      cases more with
      | nil => simpa using hfirst
      | cons next more =>
          rw [List.intercalate_cons_cons, List.all_append, List.all_append, hfirst, hmore]
          simp [hcomma]

end Bytes

def FieldValue.endsInChunked (value : FieldValue) : Bool :=
  (elements value.bytes).getLast?.any (sameLetters · (ascii "chunked"))

namespace Values

def joined (values : Values) : FieldValue where
  bytes := [comma].intercalate (values.toList.map FieldValue.bytes)
  valid := all_intercalate (by decide) fun _ hbytes => by
    obtain ⟨value, -, rfl⟩ := List.mem_map.mp hbytes
    exact value.valid

def last (values : Values) : FieldValue :=
  values.more.getLast?.getD values.first

theorem toList_eq_append_last (values : Values) :
    ∃ front, values.toList = front ++ [values.last] := by
  rcases List.eq_nil_or_concat values.more with hnil | ⟨init, final, hmore⟩
  · exact ⟨[], by simp [toList, last, hnil]⟩
  · exact ⟨values.first :: init, by simp [toList, last, hmore]⟩

theorem elements_joined (values : Values) :
    elements values.joined.bytes = values.toList.flatMap fun value => elements value.bytes := by
  have hall := elements_intercalate values.first.bytes (values.more.map FieldValue.bytes)
  rw [← List.map_cons, List.flatMap_map] at hall
  exact hall

/-- A joined list ends as the last of the lists ends. -/
theorem endsInChunked_joined (values : Values) :
    values.joined.endsInChunked = values.last.endsInChunked := by
  obtain ⟨front, hfront⟩ := values.toList_eq_append_last
  obtain ⟨coding, hcoding⟩ := Option.ne_none_iff_exists'.mp
    (mt List.getLast?_eq_none_iff.mp (elements_ne_nil values.last.bytes))
  rw [FieldValue.endsInChunked, elements_joined, hfront, List.flatMap_append,
    List.flatMap_singleton, List.getLast?_append, hcoding, Option.some_or,
    FieldValue.endsInChunked, hcoding]

end Values

/-! ## The framing found in coded heads -/

/-- The framing of a coded body, by what its list of codings ends in. -/
def Kind.codedFraming (k : Kind) (bodiless chunked : Bool) : Except ReadError Framing :=
  if bodiless then .ok .empty
  else if chunked then .ok .chunked
  else if k = .request then .error (.invalidField .lastCodingNotChunked)
  else .ok .untilClose

theorem Kind.codedFraming_inj {k : Kind} {bodiless one other : Bool} :
    k.codedFraming bodiless one = k.codedFraming bodiless other ↔
      bodiless = true ∨ one = other := by
  cases k <;> cases bodiless <;> cases one <;> cases other <;> simp [codedFraming]

namespace Head

variable {k : Kind} {h : Head k} {values : Values}

/-- The head with its transfer codings in one field, if it has any. -/
def joinCodings (h : Head k) : Head k :=
  match h.fields.find? .transferEncoding with
  | none => h
  | some values => { h with fields := h.fields.insert .transferEncoding values.joined }

theorem frame_of_codings (hlength : h.fields.contains .contentLength = false)
    (hcodings : h.fields.find? .transferEncoding = some values) (limits : Limits)
    (bodiless : Bool) :
    h.frame limits bodiless = (h, k.codedFraming bodiless values.first.endsInChunked) := by
  have hcoded : h.fields.contains .transferEncoding = true := by
    simp [Fields.contains, hcodings]
  have hchunked : h.isChunked = values.first.endsInChunked := by
    simp [isChunked, Fields.get?, hcodings, FieldValue.endsInChunked]
  cases bodiless with
  | true => rfl
  | false =>
      simp [frame, normalize_of_not_contains hlength, framingWith, hcoded, hchunked,
        Kind.codedFraming]

/-- Joining the codings does not touch the length, and leaves one field of codings. -/
theorem frame_joinCodings (hlength : h.fields.contains .contentLength = false)
    (hcodings : h.fields.find? .transferEncoding = some values) (limits : Limits)
    (bodiless : Bool) :
    h.joinCodings.frame limits bodiless =
      (h.joinCodings, k.codedFraming bodiless values.last.endsInChunked) := by
  have hfields : h.joinCodings.fields = h.fields.insert .transferEncoding values.joined := by
    simp [joinCodings, hcodings]
  have hlength' : h.joinCodings.fields.contains .contentLength = false := by
    rw [Fields.contains, hfields, Fields.find?_insert_of_ne _ _ (by decide)]
    exact hlength
  have hcodings' : h.joinCodings.fields.find? .transferEncoding = some (.single values.joined) := by
    rw [hfields, Fields.find?_insert_self]
  rw [frame_of_codings hlength' hcodings', Values.single, values.endsInChunked_joined]

/-- A head with transfer codings and no length is framed by its first field of codings, the same
head with all of them in one field by the last. Neither head is changed, and the framings are the
same if and only if the head has no body or both fields end in the chunked coding or neither. -/
theorem frame_eq_joined_iff (hlength : h.fields.contains .contentLength = false)
    (hcodings : h.fields.find? .transferEncoding = some values) (limits : Limits)
    (bodiless : Bool) :
    h.frame limits bodiless = (h, k.codedFraming bodiless values.first.endsInChunked) ∧
      h.joinCodings.frame limits bodiless =
        (h.joinCodings, k.codedFraming bodiless values.last.endsInChunked) ∧
      ((h.frame limits bodiless).2 = (h.joinCodings.frame limits bodiless).2 ↔
        bodiless = true ∨ values.first.endsInChunked = values.last.endsInChunked) := by
  have hfirst := frame_of_codings hlength hcodings limits bodiless
  have hlast := frame_joinCodings hlength hcodings limits bodiless
  refine ⟨hfirst, hlast, ?_⟩
  rw [hfirst, hlast]
  exact Kind.codedFraming_inj

/-- A request with two fields of codings that both end in chunked is framed as its joined list
is. -/
theorem frame_eq_joined_of_chunked :
    let values : Values := ⟨⟨ascii "gzip, chunked", by decide⟩, [.chunked]⟩
    let h : Request := {
      line := ⟨⟨ascii "POST", by decide⟩, .root⟩
      fields := .ofList [(.transferEncoding, values.first), (.transferEncoding, .chunked)] }
    h.fields.contains .contentLength = false ∧
      h.fields.find? .transferEncoding = some values ∧
      (h.frame {} false).2 = (h.joinCodings.frame {} false).2 := by
  intro values h
  have hlength : h.fields.contains .contentLength = false := by decide
  have hcodings : h.fields.find? .transferEncoding = some values := by decide
  exact ⟨hlength, hcodings,
    (frame_eq_joined_iff hlength hcodings {} false).2.2.mpr (.inr (by decide))⟩

/-- A request whose last coding is not chunked. With its codings in one field it is refused, in
two fields it is accepted and its body read in chunks. -/
theorem frame_ne_joined :
    let received (codings : String) :=
      ((Decoder.source (statusRule .request)).drain false (⟨{}, .head⟩, ())
        (ascii ("POST / HTTP/1.1\r\n" ++ codings ++ "\r\n3\r\nabc\r\n0\r\n\r\n"))).values
    let h : Request := {
      line := ⟨⟨ascii "POST", by decide⟩, .root⟩
      fields := .ofList [(.transferEncoding, .chunked),
        (.transferEncoding, ⟨ascii "gzip", by decide⟩)] }
    h.fields.contains .contentLength = false ∧
      h.joinCodings.fields.values .transferEncoding = [⟨ascii "chunked,gzip", by decide⟩] ∧
      (h.frame {} false).2 = .ok .chunked ∧
      (h.joinCodings.frame {} false).2 = .error (.invalidField .lastCodingNotChunked) ∧
      received "Transfer-Encoding: chunked\r\nTransfer-Encoding: gzip\r\n" =
        [.header h, .payload (.chunk (ascii "abc")), .payload (.last [] ∅)] ∧
      received "Transfer-Encoding: chunked,gzip\r\n" =
        [.failure ⟨some h.joinCodings, .invalidField .lastCodingNotChunked, true⟩] := by
  intro received h
  refine ⟨by decide, by decide, ?_, ?_, ?_, ?_⟩
  · exact congrArg Prod.snd (frame_of_codings (h := h) (by decide) rfl {} false)
  · exact congrArg Prod.snd (frame_joinCodings (h := h) (by decide) rfl {} false)
  · decide +kernel
  · decide +kernel

end Head

end HttpFraming
