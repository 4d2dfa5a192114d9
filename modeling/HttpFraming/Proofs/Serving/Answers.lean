import HttpFraming.Proofs.Serving.Turns

/-!
# Turns on which both ends agree

`Answer.IsProper` says what a handler owes: a final status, a body as large as it was announced
to be, and fields that the client can read back. The framing that the server then announces is
the one under which it writes the body, so the turn is sound: `Turn.IsSound`.
-/

namespace HttpFraming

open Bytes

/-! ## Announced framings -/

namespace FieldValue

theorem ofNat_digits (n : Nat) : ∀ b ∈ (ofNat n).bytes, isDigit b = true :=
  (Numeral.digits_of_read? (Numeral.read?_write (by decide) (by decide) n)).2

theorem ofNat_isTrimmed (n : Nat) : (ofNat n).IsTrimmed :=
  trim_of_digits (ofNat_digits n)

end FieldValue

namespace Fields

variable {fields : Fields}

theorem mem_toList_iff {name : FieldName} {value : FieldValue} :
    (name, value) ∈ fields.toList ↔
      ∃ values, fields.find? name = some values ∧ value ∈ values.toList := by
  simp only [find?_eq_some_iff, toList, List.mem_flatMap, List.mem_map, Prod.mk.injEq]
  constructor
  · rintro ⟨⟨_, values⟩, hentry, _, hvalue, rfl, rfl⟩
    exact ⟨values, hentry, hvalue⟩
  · rintro ⟨values, hentry, hvalue⟩
    exact ⟨_, hentry, value, hvalue, rfl, rfl⟩

namespace AreTrimmed

theorem remove (h : fields.AreTrimmed) (name : FieldName) : (fields.remove name).AreTrimmed := by
  rintro ⟨other, value⟩ hmem
  obtain ⟨values, hfind, hvalue⟩ := mem_toList_iff.mp hmem
  by_cases hsame : other = name
  · rw [hsame, find?_remove_self] at hfind
    cases hfind
  · rw [find?_remove_of_ne fields hsame] at hfind
    exact h (other, value) (mem_toList_iff.mpr ⟨values, hfind, hvalue⟩)

theorem insert (h : fields.AreTrimmed) (name : FieldName) {value : FieldValue}
    (hvalue : value.IsTrimmed) : (fields.insert name value).AreTrimmed := by
  rintro ⟨other, found⟩ hmem
  obtain ⟨values, hfind, hfound⟩ := mem_toList_iff.mp hmem
  by_cases hsame : other = name
  · rw [hsame, find?_insert_self] at hfind
    cases hfind
    rw [Values.toList_single, List.mem_singleton] at hfound
    exact hfound ▸ hvalue
  · rw [find?_insert_of_ne fields value hsame] at hfind
    exact h (other, found) (mem_toList_iff.mpr ⟨values, hfind, hfound⟩)

theorem announce (h : fields.AreTrimmed) (framing : Framing) :
    (framing.announce fields).AreTrimmed := by
  cases framing with
  | length n => exact (h.remove _).insert _ (FieldValue.ofNat_isTrimmed n)
  | chunked => exact (h.remove _).insert _ (by decide)
  | empty => exact (h.remove _).insert _ (FieldValue.ofNat_isTrimmed 0)
  | untilClose => exact (h.remove _).remove _

end AreTrimmed

end Fields

namespace Head

variable {k : Kind} (h : Head k)

theorem announces_length {n : Nat} (hword : n < Numeral.wordBound) :
    (h.announce (.length n)).Announces (.length n) := by
  have hne : FieldName.transferEncoding ≠ .contentLength := by decide
  have hread : Numeral.read? 10 (FieldValue.ofNat n).bytes = some n :=
    Numeral.read?_write (by decide) (by decide) n
  refine .length (.ofNat n) n ?_ hread hword ?_
  · simp [announce, Framing.announce, Fields.values]
  · simp [announce, Framing.announce, Fields.contains, Fields.find?_insert_of_ne, hne]

theorem announces_chunked : (h.announce .chunked).Announces .chunked := by
  have hne : FieldName.contentLength ≠ .transferEncoding := by decide
  have hlast : ((elements FieldValue.chunked.bytes).getLast?.any
      (sameLetters · (ascii "chunked"))) = true := by
    decide +kernel
  refine .chunked ?_ ?_
  · simpa [isChunked, announce, Framing.announce, Fields.get?, Values.single] using hlast
  · simp [announce, Framing.announce, Fields.contains, Fields.find?_insert_of_ne, hne]

end Head

theorem Head.sanitize_areTrimmed {response : Response} (h : response.fields.AreTrimmed) :
    response.sanitize.fields.AreTrimmed := by
  simp only [Head.sanitize]
  split
  · exact (h.remove _).remove _
  · split
    · exact h.announce .empty
    · exact h

/-! ## Hints -/

namespace SizeHint

def Covers (hint : SizeHint) (size : Nat) : Prop :=
  hint.lower ≤ size ∧ ∀ upper, hint.upper? = some upper → size ≤ upper

instance (hint : SizeHint) (size : Nat) : Decidable (hint.Covers size) :=
  match hupper : hint.upper? with
  | none => decidable_of_iff (hint.lower ≤ size) (by simp [Covers, hupper])
  | some upper => decidable_of_iff (hint.lower ≤ size ∧ size ≤ upper) (by simp [Covers, hupper])

theorem Covers.known {hint : SizeHint} {size n : Nat} (h : hint.Covers size)
    (hknown : hint.known? = some n) : n = size ∧ n = hint.lower := by
  obtain ⟨hupper, heq⟩ := Option.filter_eq_some_iff.mp hknown
  have hlower : n = hint.lower := by simpa using heq
  have hle := h.2 n hupper
  have hge := h.1
  omega

end SizeHint

/-! ## Proper answers and sound turns -/

def Head.Fits (limits : Limits) (h : Head k) : Prop :=
  h.fields.toList.length ≤ limits.maxFields ∧
    ∃ written, h.write = .ok written ∧ written.length ≤ limits.maxHeadBytes

instance (limits : Limits) (h : Head k) : Decidable (h.Fits limits) :=
  match hwrite : h.write with
  | .ok written => decidable_of_iff (h.fields.toList.length ≤ limits.maxFields ∧
      written.length ≤ limits.maxHeadBytes) (by simp [Head.Fits, hwrite])
  | .error _ => .isFalse (by simp [Head.Fits, hwrite])

theorem Head.Fits.isReadable {limits : Limits} {response : Response} (h : response.Fits limits)
    (htrimmed : response.fields.AreTrimmed) : ∃ written, response.IsReadable limits written := by
  obtain ⟨hcount, written, hwrite, hsize⟩ := h
  exact ⟨written, hwrite, trivial, htrimmed, hcount, hsize⟩

namespace Answer

def data (answer : Answer) : Bytes :=
  (ResponseBody.pieces answer.body.frames).flatten

/-- The answer to a request of this method, for a client with these limits, that a handler owes:
a final status that opens no tunnel, and a body without an error, of a size that was announced
truthfully, with a Reset Content status none. -/
structure IsProper (limits : Limits) (method : Method) (answer : Answer) : Prop where
  final : 200 ≤ answer.status.code
  tunnel : answer.status.opensTunnel (some method) = false
  errorless : ResponseBody.IsErrorless answer.body.frames
  truthful : answer.body.hint.Covers answer.data.length
  word : answer.body.hint.lower < Numeral.wordBound
  words : ∀ data ∈ ResponseBody.pieces answer.body.frames, data.length < Numeral.wordBound
  reset : answer.status = .resetContent → answer.data = []
  trimmed : answer.fields.AreTrimmed
  trailers : answer.parts.trailers.AreTrailers
  fits : answer.parts.head.Fits limits

instance (limits : Limits) (method : Method) (answer : Answer) :
    Decidable (answer.IsProper limits method) :=
  decidable_of_iff (200 ≤ answer.status.code ∧
      answer.status.opensTunnel (some method) = false ∧
      ResponseBody.IsErrorless answer.body.frames ∧
      answer.body.hint.Covers answer.data.length ∧
      answer.body.hint.lower < Numeral.wordBound ∧
      (∀ data ∈ ResponseBody.pieces answer.body.frames, data.length < Numeral.wordBound) ∧
      (answer.status = .resetContent → answer.data = []) ∧ answer.fields.AreTrimmed ∧
      answer.parts.trailers.AreTrailers ∧ answer.parts.head.Fits limits)
    ⟨fun ⟨h1, h2, h3, h4, h5, h6, h7, h8, h9, h10⟩ => ⟨h1, h2, h3, h4, h5, h6, h7, h8, h9, h10⟩,
      fun h => ⟨h.final, h.tunnel, h.errorless, h.truthful, h.word, h.words, h.reset, h.trimmed,
        h.trailers, h.fits⟩⟩

end Answer

/-- A reply as the server makes them up: it does not end the connection, and it has no body. -/
structure Reply.IsPlain (reply : Reply) : Prop where
  close : reply.close = false
  sanitized : reply.head.sanitize = reply.head
  failure : reply.head.status.isSuccess = false
  trimmed : reply.head.fields.AreTrimmed
  framing : reply.head.status.isBodiless = true ∨ reply.head.Announces (.length 0)

namespace Turn

/-- The server's end of a turn and the client's end of it go together. -/
structure IsSound (limits : Limits) (turn : Turn) : Prop where
  tunnel : turn.status.opensTunnel (some turn.method) = false
  encoded : turn.encoded = ⟨turn.encoded.output, {}, none⟩
  head : ∃ written, turn.parts.head.IsReadable limits written
  readable : turn.isBodiless = false → turn.parts.IsReadable limits

/-- What is required of a turn: of the handler, to answer properly, and of every head, to be
within the limits of the client. -/
def IsProper (limits : Limits) : Turn → Prop
  | reply _ given => given.head.Fits limits
  | answered request _ answer => answer.IsProper limits request.method

instance (limits : Limits) : (turn : Turn) → Decidable (turn.IsProper limits)
  | reply _ given => inferInstanceAs (Decidable (given.head.Fits limits))
  | answered request _ answer => inferInstanceAs (Decidable (answer.IsProper limits request.method))

end Turn

theorem Head.isBodiless_of_isBodilessFor {response : Response} {method : Method}
    (h : response.status.isBodilessFor (some method) = false) : response.isBodiless = false := by
  simp only [Status.isBodilessFor, Bool.or_eq_false_iff] at h
  exact h.1.1

namespace Parts

variable {limits : Limits} {parts : Parts .response} {written : Bytes}

theorem encodeFor_bodiless (hwrite : parts.head.write = .ok written) :
    parts.encodeFor true = ⟨written, {}, none⟩ := by
  have hbody := @Encoder.encodeAll_nothing .response parts.chunks parts.tail parts.trailers
  refine encodeFor_ok.mpr ⟨written, [], hwrite, hbody, ?_⟩
  rw [List.append_nil]

theorem encodeFor_bodied {framing : Framing} (hwrite : parts.head.write = .ok written)
    (hannounces : parts.head.Announces framing)
    (hframing : framing = .chunked ∨ framing = .length parts.body.length) :
    ∃ bytes, parts.encodeFor false = ⟨bytes, {}, none⟩ := by
  have hsent := hannounces.announcedFraming
  rcases hframing with rfl | rfl
  · have hwriter : BodyWriter.ofFraming (parts.framingFor false) = .chunked := by
      rw [framingFor, hsent]
      rfl
    have hbody := @Encoder.encodeAll_chunked .response parts.chunks parts.tail parts.trailers
    rw [← hwriter] at hbody
    exact ⟨_, encodeFor_ok.mpr ⟨written, _, hwrite, hbody, rfl⟩⟩
  · have hwriter : BodyWriter.ofFraming (parts.framingFor false) =
        .length (parts.chunks.flatten ++ parts.tail).length := by
      rw [framingFor, hsent]
      rfl
    have hbody := @Encoder.encodeAll_length .response parts.chunks parts.tail parts.trailers
    rw [← hwriter] at hbody
    exact ⟨_, encodeFor_ok.mpr ⟨written, _, hwrite, hbody, rfl⟩⟩

end Parts

namespace Turn

variable {limits : Limits}

/-- A turn is sound if its head fits and announces its body, unless there is none. -/
theorem IsSound.of_framing {turn : Turn} (htunnel : turn.status.opensTunnel (some turn.method) = false)
    (hfits : turn.parts.head.Fits limits) (htrimmed : turn.parts.head.fields.AreTrimmed)
    (hwords : ∀ data ∈ turn.parts.chunks ++ [turn.parts.tail], data.length < Numeral.wordBound)
    (htrailers : turn.parts.trailers.AreTrailers)
    (hframing : turn.isBodiless = false → ∃ framing, turn.parts.head.Announces framing ∧
      (framing = .chunked ∨ framing = .length turn.parts.body.length)) :
    turn.IsSound limits := by
  obtain ⟨written, hreadable⟩ := hfits.isReadable htrimmed
  have hencoded : ∃ bytes, turn.encoded = ⟨bytes, {}, none⟩ := by
    rw [Turn.encoded]
    cases hbodiless : turn.isBodiless with
    | true => exact ⟨written, Parts.encodeFor_bodiless hreadable.write_eq⟩
    | false =>
        obtain ⟨framing, hannounces, hkind⟩ := hframing hbodiless
        exact Parts.encodeFor_bodied hreadable.write_eq hannounces hkind
  refine ⟨htunnel, ?_, ⟨written, hreadable⟩, fun hbodied => ?_⟩
  · obtain ⟨bytes, hbytes⟩ := hencoded
    rw [hbytes]
  · obtain ⟨framing, hannounces, _⟩ := hframing hbodied
    refine ⟨⟨written, hreadable⟩, Head.isBodiless_of_isBodilessFor hbodied,
      ⟨framing, hannounces⟩, fun hempty => ?_, hwords, htrailers⟩
    cases hempty with
    | empty hrequest _ _ => cases hrequest

end Turn

theorem Fields.empty_areTrailers : (∅ : Fields).AreTrailers := by
  decide +kernel

theorem Reply.IsPlain.isSound {limits : Limits} {reply : Reply} (h : reply.IsPlain)
    (hfits : reply.head.Fits limits) (method : Method) :
    (Turn.reply method reply).IsSound limits := by
  have htunnel : reply.head.status.opensTunnel (some method) = false := by
    rw [Status.opensTunnel, h.failure, Bool.and_false]
  refine .of_framing htunnel hfits h.trimmed ?_ Fields.empty_areTrailers fun hbodied => ?_
  · intro data hdata
    have hnil : data = [] := by simpa [Turn.parts] using hdata
    rw [hnil]
    decide
  · have hstatus : reply.head.status.isBodiless = false := Head.isBodiless_of_isBodilessFor hbodied
    rcases h.framing with hbodiless | hannounces
    · rw [hbodiless] at hstatus
      cases hstatus
    · exact ⟨_, hannounces, .inr rfl⟩

namespace Answer

variable {limits : Limits} {method : Method} {answer : Answer}

theorem response_eq (answer : Answer) :
    answer.response = Head.announce (k := .response) ⟨answer.status, .http11, answer.fields⟩
      (answer.body.hint.framing .http11) :=
  rfl

theorem announces_response (h : answer.IsProper limits method) :
    ∃ framing, answer.response.Announces framing ∧
      (framing = .chunked ∨ framing = .length answer.data.length) := by
  rw [response_eq, SizeHint.framing]
  cases hknown : answer.body.hint.known? with
  | none => exact ⟨.chunked, Head.announces_chunked _, .inl rfl⟩
  | some n =>
      obtain ⟨hsize, hlower⟩ := h.truthful.known hknown
      have hlength := Head.announces_length (k := .response)
        ⟨answer.status, .http11, answer.fields⟩ (show n < Numeral.wordBound from hlower ▸ h.word)
      refine ⟨.length n, ?_, .inr (by rw [hsize])⟩
      cases n <;> exact hlength

/-- A response that has a body announces it, unless its status rules that out. -/
theorem announces (h : answer.IsProper limits method)
    (hbodied : answer.status.isBodilessFor (some method) = false) :
    ∃ framing, answer.parts.head.Announces framing ∧
      (framing = .chunked ∨ framing = .length answer.data.length) := by
  have hstatus : answer.status.isBodiless = false :=
    @Head.isBodiless_of_isBodilessFor answer.response method hbodied
  have hremoved : (answer.status.isInformational || answer.status == .noContent) = false := by
    simp only [Status.isBodiless, Bool.or_eq_false_iff] at hstatus ⊢
    exact hstatus.1
  show ∃ framing, answer.response.sanitize.Announces framing ∧ _
  rw [Head.sanitize, if_neg (by rw [Bool.not_eq_true]; exact hremoved)]
  by_cases hreset : (answer.response.status == .resetContent) = true
  · rw [if_pos hreset]
    refine ⟨.length 0, Head.announces_length answer.response (by decide), .inr ?_⟩
    rw [h.reset (beq_iff_eq.mp hreset)]
    rfl
  · rw [if_neg hreset]
    exact announces_response h

theorem IsProper.isFinal (h : answer.IsProper limits method) :
    answer.parts.head.status.isInterim = false := by
  have hfinal := h.final
  rw [show answer.parts.head.status = answer.status from Head.sanitize_status _]
  simp only [Status.isInterim, Status.isInformational, Bool.and_eq_false_iff,
    decide_eq_false_iff_not]
  omega

/-- A proper answer is sound. -/
theorem IsProper.isSound {request : Request} (h : answer.IsProper limits request.method)
    (body : Bytes) : (Turn.answered request body answer).IsSound limits := by
  have hstatus : answer.parts.head.status = answer.status := Head.sanitize_status _
  have hdata : answer.parts.body = answer.data := List.append_nil _
  refine .of_framing ?_ h.fits ?_ ?_ h.trailers fun hbodied => ?_
  · show answer.parts.head.status.opensTunnel (some request.method) = false
    rw [hstatus]
    exact h.tunnel
  · apply Head.sanitize_areTrimmed
    rw [response_eq]
    exact h.trimmed.announce _
  · intro data hmem
    rcases List.mem_append.mp hmem with hmem | hmem
    · exact h.words data hmem
    · have hnil : data = [] := by simpa [Turn.parts, parts] using hmem
      rw [hnil]
      decide
  · have hneeds : answer.status.isBodilessFor (some request.method) = false := by
      rw [← hstatus]
      exact hbodied
    show ∃ framing, answer.parts.head.Announces framing ∧
      (framing = .chunked ∨ framing = .length answer.parts.body.length)
    rw [hdata]
    exact announces h hneeds

end Answer

/-! ## Replies -/

theorem Reply.proceed_isPlain : Reply.proceed.IsPlain :=
  ⟨rfl, by decide +kernel, rfl, by decide, .inl rfl⟩

theorem Reply.refusal_isPlain {status : Status} (hfailure : 400 ≤ status.code) :
    (Reply.refusal status false).IsPlain := by
  have hsuccess : status.isSuccess = false := by
    simp only [Status.isSuccess, Bool.and_eq_false_iff, decide_eq_false_iff_not]
    omega
  have hremoved : (status.isInformational || status == .noContent) = false := by
    simp only [Status.isInformational, Bool.or_eq_false_iff, decide_eq_false_iff_not, beq_eq_false_iff_ne]
    refine ⟨by omega, ?_⟩
    rintro rfl
    exact absurd hfailure (by decide)
  have hreset : (status == .resetContent) = false := by
    rw [beq_eq_false_iff_ne]
    rintro rfl
    exact absurd hfailure (by decide)
  have hsanitized : (Reply.refusal status false).head.sanitize = (Reply.refusal status false).head := by
    show Head.sanitize ⟨status, .http11, _⟩ = _
    rw [Head.sanitize]
    simp only [Head.status, hremoved, hreset]
    rfl
  have hannounces : (Head.announce (k := .response) ⟨status, .http11, ∅⟩ (.length 0)).Announces
      (.length 0) := Head.announces_length _ (by decide)
  have htrimmed : (∅ : Fields).AreTrimmed := by decide
  exact ⟨rfl, hsanitized, hsuccess, htrimmed.insert _ (FieldValue.ofNat_isTrimmed 0),
    .inr hannounces⟩

theorem CollectSettings.refusal?_isPlain {settings : CollectSettings} {request : Request}
    {length : Nat} {reply : Reply} (h : settings.refusal? request length = some reply) :
    reply.IsPlain ∧ reply.head.status.isInterim = false := by
  unfold refusal? at h
  split at h
  · cases h
    exact ⟨Reply.refusal_isPlain (by decide), rfl⟩
  · split at h
    · cases h
      exact ⟨Reply.refusal_isPlain (by decide), rfl⟩
    · cases h

/-! ## The turns for one request -/

theorem asking_isSound {settings : CollectSettings} {limits : Limits} {request : Request}
    (hproper : ∀ turn ∈ asking settings request, turn.IsProper limits) :
    ∀ turn ∈ asking settings request,
      turn.IsSound limits ∧ turn.method = request.method ∧ turn.status.isInterim = true := by
  unfold asking at hproper ⊢
  split
  · rename_i hasks
    rw [if_pos hasks] at hproper
    intro turn hturn
    have hfits := hproper turn hturn
    rw [List.mem_singleton.mp hturn] at hfits ⊢
    exact ⟨Reply.proceed_isPlain.isSound hfits request.method, rfl, rfl⟩
  · simp

/-- Behind the turn in which the body is asked for, there is one with a final response. -/
theorem turnsFor_isSound {settings : CollectSettings} {handle : Handler η} {limits : Limits}
    {parts : Parts .request} {handler : η}
    (hproper : ∀ turn ∈ (turnsFor settings handle parts handler).1, turn.IsProper limits) :
    ∃ final, (turnsFor settings handle parts handler).1 = asking settings parts.head ++ [final] ∧
      final.IsSound limits ∧ final.method = parts.head.method ∧
      final.status.isInterim = false := by
  cases hrefusal : settings.refusal? parts.head parts.body.length with
  | some reply =>
      rw [turnsFor_refused hrefusal] at hproper ⊢
      rw [List.forall_mem_append, List.forall_mem_singleton] at hproper
      obtain ⟨hplain, hfinal⟩ := CollectSettings.refusal?_isPlain hrefusal
      exact ⟨_, rfl, hplain.isSound hproper.2 _, rfl, hfinal⟩
  | none =>
      rw [turnsFor_answered hrefusal rfl rfl] at hproper ⊢
      rw [List.forall_mem_append, List.forall_mem_singleton] at hproper
      have hmethod := congrArg RequestLine.method
        (CollectSettings.collectedHead_line parts.head parts.body.length).1
      exact ⟨_, rfl, Answer.IsProper.isSound hproper.2 _, hmethod,
        Answer.IsProper.isFinal hproper.2⟩

end HttpFraming
