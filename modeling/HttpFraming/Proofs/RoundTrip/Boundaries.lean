import HttpFraming.Proofs.Arrival.Fronts
import HttpFraming.Proofs.RoundTrip.Blanks
import HttpFraming.Proofs.RoundTrip.Messages

/-!
# Where a written request ends

A request with any fields and any body, written without an error, is never read as more than
one request: `Decoder.arrive_written`. The reader may refuse it, as its rules on lengths and
codings are stricter than those of the writer. There are two exceptions, `Parts.IsDelimited`: a
body that is not announced at all, and a list of lengths that the reader takes. Such a body is read
as requests of its own: `Decoder.drain_of_unframed`.
-/

namespace HttpFraming

open Bytes

/-! ## The framing on both sides -/

/-- What a reader makes of Content-Length fields: nothing if there are none, and otherwise the
number in their first element, which is the only one or may be repeated. The codings stay. -/
theorem ContentLength.normalize_ok {fields fields' : Fields} {repeated : Bool}
    {length? : Option Nat} (h : normalize fields repeated = .ok (length?, fields')) :
    fields'.find? .transferEncoding = fields.find? .transferEncoding ∧
      (length? = none ∧ elements? fields = some [] ∨
        ∃ value more n, elements? fields = some (value :: more) ∧ number value = .ok n ∧
          length? = some n ∧ (more = [] ∨ repeated = true)) := by
  unfold normalize at h
  split at h
  · cases h
  · rename_i helements
    cases h
    exact ⟨rfl, .inl ⟨rfl, helements⟩⟩
  · rename_i value helements
    cases hnumber : number value with
    | error cause => simp [hnumber, Except.map] at h
    | ok n =>
        simp only [hnumber, Except.map, Except.ok.injEq, Prod.mk.injEq] at h
        obtain ⟨rfl, rfl⟩ := h
        exact ⟨rfl, .inr ⟨value, [], n, helements, hnumber, rfl, .inl rfl⟩⟩
  · rename_i value more hmore helements
    split at h
    · rename_i hrepeated
      simp only [Bool.and_eq_true] at hrepeated
      cases hnumber : number value with
      | error cause => simp [hnumber, Except.map] at h
      | ok n =>
          simp only [hnumber, Except.map, Except.ok.injEq, Prod.mk.injEq] at h
          obtain ⟨rfl, rfl⟩ := h
          exact ⟨Fields.find?_insert_of_ne fields _ (by decide),
            .inr ⟨value, more, n, helements, hnumber, rfl, .inr hrepeated.1.1⟩⟩
    · cases h

namespace Head

def IsUnframed (h : Head k) : Prop :=
  h.fields.contains .contentLength = false ∧ h.fields.contains .transferEncoding = false

theorem frame_congr {h h' : Head k} (hfields : h.fields = h'.fields) (limits : Limits) :
    (h.frame limits false).2 = (h'.frame limits false).2 := by
  simp only [frame, hfields, Bool.false_eq_true, if_false]
  cases ContentLength.normalize h'.fields limits.repeatedLengths with
  | error cause => rfl
  | ok result => rfl

section Written

variable {h h' : Request} {fields : Fields}

/-- A reader that finds no length goes by the coding, as the writer has done, or finds no framing
at all. -/
theorem framing_of_no_length (hfields : h'.fields = h.fields.trimmed)
    (helements : ContentLength.elements? h'.fields = some []) {framing : Framing}
    (hcoding : fields.find? .transferEncoding = h'.fields.find? .transferEncoding)
    (hframing : Head.framingWith { h' with fields } none = .ok framing) :
    framing = .empty ∧ h.IsUnframed ∨ framing = .chunked ∧ h.announcedFraming = .chunked := by
  have hsame : fields.contains .transferEncoding = h.fields.contains .transferEncoding := by
    rw [Fields.contains, hcoding, ← Fields.contains, hfields, Fields.contains_trimmed]
  have hchunked : ({ h' with fields } : Request).isChunked = h.isChunked := by
    rw [← isChunked_trimmed hfields]
    simp only [isChunked, Fields.get?, hcoding]
  simp only [framingWith, hsame, hchunked] at hframing
  cases hcoded : h.fields.contains .transferEncoding with
  | true =>
      cases hlast : h.isChunked with
      | true =>
          simp only [hcoded, hlast, if_true, Except.ok.injEq] at hframing
          exact .inr ⟨hframing.symm, by simp [announcedFraming, hlast]⟩
      | false => simp [hcoded, hlast] at hframing
  | false =>
      simp only [hcoded, if_true, Except.ok.injEq] at hframing
      rcases ContentLength.elements?_trimmed (hfields ▸ helements) with
        ⟨hnone, -⟩ | ⟨-, _, text, _, -, -, hnil⟩
      · exact .inl ⟨hframing.symm, hnone, hcoded⟩
      · exact absurd (List.append_eq_nil_iff.mp hnil.symm).1 (elements_ne_nil text)

/-- A length that a reader finds is that of the writer, unless the writer has found none in a list
of several. -/
theorem announcedFraming_of_length (hfields : h'.fields = h.fields.trimmed) {value : Bytes}
    {more : List Bytes} {n : Nat}
    (helements : ContentLength.elements? h'.fields = some (value :: more))
    (hnumber : ContentLength.number value = .ok n)
    (hcoded : h.fields.contains .transferEncoding = false)
    (hmany : more = [] ∨ h.announcedFraming ≠ .untilClose) :
    h.announcedFraming = .length n := by
  have hplain : h.isChunked = false := isChunked_of_not_contains hcoded
  have hread : h.contentLength? = some n := by
    cases hlength : h.contentLength? with
    | some m => rw [contentLength?_eq hfields helements hnumber hlength]
    | none =>
        rcases hmany with rfl | hunderstood
        · rw [← contentLength?_of_single hfields helements hnumber, hlength]
        · exact absurd (by simp [announcedFraming, hplain, hlength]) hunderstood
  simp [announcedFraming, hplain, hread]

/-- A reader that accepts the fields of a written request finds the framing in which its body
was written, unless the request has no framing, or has a repeated length that the reader takes
and the writer does not understand. -/
theorem framing_of_frame {framed : Request} {limits : Limits} {framing : Framing}
    (hfields : h'.fields = h.fields.trimmed)
    (hframe : h'.frame limits false = (framed, .ok framing))
    (hrepeated : limits.repeatedLengths = true → ∀ n, framing = .length n →
      h.announcedFraming ≠ .untilClose) :
    framing = .empty ∧ h.IsUnframed ∨
      h.announcedFraming = framing ∧ (framing = .chunked ∨ ∃ n, framing = .length n) := by
  unfold frame at hframe
  cases hnormalize : ContentLength.normalize h'.fields limits.repeatedLengths with
  | error cause => simp [hnormalize] at hframe
  | ok result =>
      obtain ⟨length?, fields⟩ := result
      obtain ⟨hcoding, hlength⟩ := ContentLength.normalize_ok hnormalize
      simp only [hnormalize, Bool.false_eq_true, if_false, Prod.mk.injEq] at hframe
      obtain ⟨-, hframing⟩ := hframe
      rcases hlength with ⟨rfl, helements⟩ | ⟨value, more, n, helements, hnumber, rfl, hmore⟩
      · rcases framing_of_no_length hfields helements hcoding hframing with
          hempty | ⟨rfl, hannounced⟩
        · exact .inl hempty
        · exact .inr ⟨hannounced, .inl rfl⟩
      · obtain ⟨hcoded, rfl⟩ := framingWith_some hframing
        have hmany := hmore.imp id fun hallowed => hrepeated hallowed n rfl
        have huncoded : h.fields.contains .transferEncoding = false := by
          rw [← Fields.contains_trimmed, ← hfields, Fields.contains, ← hcoding]
          exact hcoded
        exact .inr ⟨announcedFraming_of_length hfields helements hnumber huncoded hmany,
          .inr ⟨n, rfl⟩⟩

end Written

end Head

/-! ## Bodies -/

/-- A size that does not fit a machine word is refused. -/
theorem ChunkLine.advance_oversize {n : Nat} (hword : Numeral.wordBound ≤ n) (rest : Bytes) :
    ∃ left, start.advance (Numeral.write 16 n ++ rest) = (.error .sizeTooLarge, left) := by
  induction n using Nat.strongRecOn generalizing rest with
  | _ n ih =>
      have hlarge : 16 ≤ n := Nat.le_trans (by decide) hword
      rw [Numeral.write, if_neg (by omega), List.append_assoc]
      by_cases hfront : Numeral.wordBound ≤ n / 16
      · exact ih (n / 16) (by omega) hfront _
      · -- The digit with which the size outgrows a word.
        have hread : (Numeral.write 16 (n / 16)).foldlM (Numeral.push? 16)
            ((none : Option Nat).getD 0) = some (n / 16) :=
          Numeral.foldlM_write (by decide) (by decide) (n / 16)
        have hpush : Numeral.push? 16 (n / 16) (Numeral.digit (n % 16)) = some n := by
          rw [Numeral.push?, Numeral.digit?_digit (by decide) (Nat.mod_lt n (by decide)),
            Option.map_some, Nat.div_add_mod']
        have hstep : (size (some (n / 16))).step (Numeral.digit (n % 16)) =
            .error .sizeTooLarge := by
          simp [step, hpush, Nat.not_lt.mpr hword]
        rw [start, advance_digits hread (Nat.not_le.mp hfront) fun hnil =>
          absurd hnil (Numeral.write_ne_nil 16 _)]
        exact ⟨rest, by rw [List.singleton_append, advance, hstep]⟩

theorem Message.heads_chunkOf (data : Bytes) : heads (chunkOf data : List (Message k)) = 0 := by
  unfold chunkOf
  split <;> rfl

theorem Message.any_completes_chunkOf (data : Bytes) :
    (chunkOf data : List (Message k)).any completes = false := by
  unfold chunkOf
  split <;> rfl

theorem Message.join_chunkOf_last (body : Bytes) (trailers : Fields) :
    join (chunkOf body ++ [.payload (.last [] trailers)] : List (Message k)) =
      chunkOf body ++ [.payload (.last [] trailers)] := by
  by_cases hbody : body = []
  · simp [chunkOf, hbody, join_cons, joinOne]
  · simp [chunkOf, hbody, join_cons, joinOne]

/-- A written trailer section is refused, or read back with its values trimmed. -/
theorem Trailers.read_trimmed (fields : Fields) :
    (∃ cause left, read fields.write = ⟨.error cause, left⟩) ∨
      read fields.write = ⟨.ok (some fields.trimmed), []⟩ := by
  have hscan := fields.scan_trimmed maxTrailerFields []
  rw [List.append_nil] at hscan
  split at hscan
  · exact .inr (by simp only [read, hscan, Fields.ofRaw_toList])
  · left
    simp only [read, hscan]
    exact ⟨_, _, rfl⟩

namespace Decoder

variable {k : Kind} {ρ : Type} {ask : HeadRule k ρ} {limits : Limits} {rule : ρ}

structure Fails (drained : Drained (Decoder k × ρ) (Message k)) : Prop where
  failure : drained.values.any Message.isFailure = true
  unfinished : drained.values.any Message.completes = false

/-- What becomes of a body: no head is read, and the reading fails, or it gives this body and
its last piece and leaves nothing. -/
structure EndsBody (limits : Limits) (rule : ρ) (body : Bytes)
    (drained : Drained (Decoder k × ρ) (Message k)) : Prop where
  heads : Message.heads drained.values = 0
  ends : Fails drained ∨ ∃ trailers, drained.joined =
    ⟨Message.chunkOf body ++ [.payload (.last [] trailers)], none, (⟨limits, .head⟩, rule), []⟩

namespace EndsBody

variable {body : Bytes} {drained drained' : Drained (Decoder k × ρ) (Message k)}

theorem after_chunkOf (h : EndsBody limits rule body drained) {data : Bytes}
    (hjoined : drained'.joined = (drained.after (Message.chunkOf data)).joined) :
    EndsBody limits rule (data ++ body) drained' := by
  obtain ⟨hvalues, herror, hstate, hrest⟩ := Drained.joined_ext hjoined
  constructor
  · rw [Message.heads_eq_of_join hvalues, Drained.after_values, Message.heads_append,
      Message.heads_chunkOf, h.heads]
  · rcases h.ends with ⟨hfailure, hunfinished⟩ | ⟨trailers, hends⟩
    · left
      constructor
      · rw [Message.any_eq_of_join (fun _ => rfl) hvalues, Drained.after_values, List.any_append,
          hfailure, Bool.or_true]
      · rw [Message.any_eq_of_join (fun _ => rfl) hvalues, Drained.after_values, List.any_append,
          hunfinished, Message.any_completes_chunkOf, Bool.or_false]
    · right
      refine ⟨trailers, ?_⟩
      have hsame : drained.joined = (⟨Message.chunkOf body ++ [.payload (.last [] trailers)], none,
          (⟨limits, .head⟩, rule), []⟩ : Drained (Decoder k × ρ) (Message k)).joined := by
        rw [hends, Drained.joined, Message.join_chunkOf_last]
      rw [hjoined, Drained.joined_after_congr hsame rfl, Drained.joined, Drained.after_values,
        Message.join_chunkOf_chunkOf, Message.join_chunkOf_last]
      rfl

theorem of_takes {reader : BodyReader} {bytes : Bytes} {trailers : Fields}
    (h : Takes ask (⟨limits, .body reader⟩, rule) bytes
      (Message.chunkOf body ++ [.payload (.last [] trailers)]) (⟨limits, .head⟩, rule)) :
    EndsBody limits rule body ((source ask).drain false (⟨limits, .body reader⟩, rule) bytes) := by
  have hwhole := h.whole []
  rw [List.append_nil, Source.drain_of_none (pull_nil ask false limits rule)] at hwhole
  constructor
  · rw [Message.heads_eq_of_join (Drained.joined_ext hwhole).1, Drained.after_values,
      List.append_nil, Message.heads_append, Message.heads_chunkOf]
    rfl
  · refine .inr ⟨trailers, ?_⟩
    rw [hwhole, Drained.joined, Drained.after_values, List.append_nil, Message.join_chunkOf_last]
    rfl

theorem of_cause {reader next : BodyReader} {bytes rest : Bytes} {cause : ReadError}
    (h : reader.readMore bytes = ⟨.error cause, next, rest⟩) :
    EndsBody limits rule body ((source ask).drain false (⟨limits, .body reader⟩, rule) bytes) := by
  have hfails : (⟨limits, .body reader⟩ : Decoder k).decode ask false rule bytes =
      (⟨limits, .body reader⟩ : Decoder k).fail none cause rule rest := by
    rw [decode_body rfl, readBody, read_false, h]
  rw [drain_of_fail hfails]
  exact ⟨rfl, .inl ⟨rfl, rfl⟩⟩

theorem chunkEnd (trailers : Fields) :
    EndsBody limits rule [] ((source ask).drain false
      (⟨limits, .body (.chunked (.line .start))⟩, rule) (Chunk.writeEnd trailers)) := by
  have hadvance : ChunkLine.start.advance (ascii "0" ++ crlf) = (.ok .trailers, []) := rfl
  have hline : Takes ask (⟨limits, .body (.chunked (.line .start))⟩, rule) (ascii "0" ++ crlf) []
      (⟨limits, .body (.chunked .trailers)⟩, rule) := .ofLine hadvance rfl
  show EndsBody limits rule ([] ++ []) _
  refine after_chunkOf ?_ (hline.whole trailers.write)
  have hmore : ∀ {answer left}, Trailers.read trailers.write = ⟨answer, left⟩ →
      (BodyReader.chunked .trailers).readMore trailers.write =
        ⟨answer.map (·.map fun fields => .last [] fields), .chunked .trailers, left⟩ := by
    intro answer left hread
    show ChunkPlace.readPiece .trailers _ = _
    simp only [ChunkPlace.readPiece, hread]
  rcases Trailers.read_trimmed trailers with ⟨cause, left, hread⟩ | hread
  · exact of_cause (hmore hread)
  · have hlast : (⟨limits, .body (.chunked .trailers)⟩ : Decoder k).decode ask false rule
        trailers.write = ⟨some (.payload (.last [] trailers.trimmed)), ⟨limits, .head⟩, rule, []⟩ :=
      decode_of_item (hmore hread)
    rw [drain_of_message hlast]
    show EndsBody limits rule [] (((source ask).drain false (⟨limits, .head⟩, rule) []).after _)
    rw [Source.drain_of_none (pull_nil ask false limits rule)]
    exact ⟨rfl, .inr ⟨trailers.trimmed, by simp [Drained.joined, Drained.after, Message.chunkOf,
      Message.join_cons, Message.joinOne]⟩⟩

theorem chunked (pieces : List Bytes) (trailers : Fields) :
    EndsBody limits rule pieces.flatten ((source ask).drain false
      (⟨limits, .body (.chunked (.line .start))⟩, rule)
      (pieces.flatMap Chunk.write ++ Chunk.writeEnd trailers)) := by
  induction pieces with
  | nil => exact chunkEnd trailers
  | cons data more ih =>
      rw [List.flatMap_cons, List.append_assoc, List.flatten_cons]
      by_cases hword : data.length < Numeral.wordBound
      · exact ih.after_chunkOf ((Takes.ofChunk hword).whole _)
      · obtain ⟨left, hleft⟩ := ChunkLine.advance_oversize (Nat.not_lt.mp hword)
          (crlf ++ data ++ crlf ++ (more.flatMap Chunk.write ++ Chunk.writeEnd trailers))
        have hne : data ≠ [] := by
          rintro rfl
          exact hword (by decide)
        have hmore : ∀ {bytes : Bytes}, ChunkLine.start.advance bytes = (.error .sizeTooLarge, left) →
            (BodyReader.chunked (.line .start)).readMore bytes =
              ⟨.error (.invalidBody .sizeTooLarge), .chunked (.line .start), left⟩ := by
          intro bytes hadvance
          show (ChunkPlace.line .start).read bytes = _
          rw [ChunkPlace.read_line, hadvance]
        refine of_cause (hmore (hleft ▸ congrArg ChunkLine.start.advance ?_))
        simp [Chunk.write, hne]

/-- The body of a request, as its head announces it and as a reader finds it. -/
theorem encodeAll {h : Request} {framing : Framing} {chunks : List Bytes} {tail : Bytes}
    {trailers : Fields}
    (hframing : framing = .empty ∧ h.IsUnframed ∨
      h.announcedFraming = framing ∧ (framing = .chunked ∨ ∃ n, framing = .length n))
    (hencoded : ((⟨some (.ofFraming h.announcedFraming)⟩ : Encoder).encodeAll
      (Message.payloads chunks tail trailers : List (Message k))).error? = none)
    (hunframed : h.IsUnframed → chunks.flatten ++ tail = []) :
    EndsBody limits rule (chunks.flatten ++ tail) ((source ask).drain false
      (⟨limits, .body (.ofFraming framing)⟩, rule)
      ((⟨some (.ofFraming h.announcedFraming)⟩ : Encoder).encodeAll
        (Message.payloads chunks tail trailers : List (Message k))).output) := by
  rcases hframing with ⟨rfl, hnone⟩ | ⟨hsame, rfl | ⟨n, rfl⟩⟩
  · have hplain : h.announcedFraming = .untilClose := by
      simp [Head.announcedFraming, Head.isChunked_of_not_contains hnone.2,
        Head.contentLength?_of_not_contains hnone.1]
    have hbody := hunframed hnone
    rw [hplain, BodyWriter.ofFraming, Encoder.encodeAll_plain, hbody]
    exact of_takes Takes.ofNothing
  · rw [hsame, BodyWriter.ofFraming, Encoder.encodeAll_chunked]
    have hchunked : EndsBody limits rule (chunks ++ [tail]).flatten ((source ask).drain false _ _) :=
      chunked (chunks ++ [tail]) trailers
    rw [List.flatten_append, List.flatten_singleton] at hchunked
    exact hchunked
  · rw [hsame, BodyWriter.ofFraming] at hencoded ⊢
    rw [Encoder.length_of_encodeAll chunks tail trailers hencoded, Encoder.encodeAll_length]
    exact of_takes (Takes.ofLength _)

end EndsBody

/-! ## Whole requests -/

/-- What becomes of a request: at most one head is read, and the reading fails, or it gives that
head, this body and its last piece and leaves nothing. -/
structure EndsRequest (limits : Limits) (body : Bytes)
    (drained : Drained (Decoder .request × Unit) (Message .request)) : Prop where
  heads : Message.heads drained.values ≤ 1
  ends : Fails drained ∨ ∃ head trailers, drained.joined =
    ⟨.header head :: (Message.chunkOf body ++ [.payload (.last [] trailers)]), none,
      (⟨limits, .head⟩, ()), []⟩

theorem EndsBody.behind {body : Bytes} {drained : Drained (Decoder .request × Unit) (Message .request)}
    (h : EndsBody limits () body drained) (head : Request) :
    EndsRequest limits body (drained.after [.header head]) := by
  constructor
  · rw [Drained.after_values, Message.heads_append, h.heads]
    exact Nat.le_refl 1
  · rcases h.ends with ⟨hfailure, hunfinished⟩ | ⟨trailers, hends⟩
    · exact .inl ⟨hfailure, hunfinished⟩
    · right
      refine ⟨head, trailers, ?_⟩
      simp only [Drained.joined, Drained.mk.injEq] at hends ⊢
      obtain ⟨hvalues, herror, hstate, hrest⟩ := hends
      refine ⟨?_, herror, hstate, hrest⟩
      rw [Drained.after_values, List.singleton_append, Message.join_cons, hvalues]
      rfl

end Decoder

/-- The bytes behind the head of a request are its body in the reader's eyes: they are there
only under a length or a coding, and a length that a reader of repeated lengths finds in what it
reads is one that the writer understands. -/
structure Parts.IsDelimited (limits : Limits) (parts : Parts .request) : Prop where
  absent : parts.head.IsUnframed → parts.body = []
  repeated : limits.repeatedLengths = true → ∀ read n,
    parts.head.trimmed.frame limits false = (read, .ok (.length n)) →
      parts.head.announcedFraming ≠ .untilClose

namespace Decoder

/-- A written request that arrives at once. -/
theorem drain_written {limits : Limits} {parts : Parts .request} (h : parts.IsDelimited limits)
    (hencoded : (({} : Encoder).encodeAll parts.messages).error? = none) :
    EndsRequest limits parts.body ((source (statusRule .request)).drain false
      (⟨limits, .head⟩, ()) (({} : Encoder).encodeAll parts.messages).output) := by
  cases hwrite : parts.head.write with
  | error error =>
      simp [Parts.messages, Encoder.encodeAll, Encoder.encode, Encoder.encodeHead, Encoder.isIdle,
        hwrite] at hencoded
  | ok written =>
      rw [Parts.encodeAll_messages hwrite] at hencoded ⊢
      show EndsRequest limits parts.body ((source (statusRule .request)).drain false
        (⟨limits, .head⟩, ()) (written ++ _))
      generalize hbytes : ((⟨some (.ofFraming parts.head.announcedFraming)⟩ : Encoder).encodeAll
        (Message.payloads parts.chunks parts.tail parts.trailers)).output = bytes
      have hdecode : (⟨limits, .head⟩ : Decoder .request).decode (statusRule .request) false ()
          (written ++ bytes) = readHead ⟨limits, .head⟩ (statusRule .request) false ()
            (written ++ bytes) := decode_head rfl _ _ _
      rcases Head.read_trimmed hwrite limits bytes with ⟨cause, left, hread⟩ | ⟨line, hread⟩
      · rw [readHead, hread] at hdecode
        rw [drain_of_fail hdecode]
        exact ⟨Nat.zero_le _, .inl ⟨rfl, rfl⟩⟩
      · rw [readHead, hread] at hdecode
        rcases hframe : Head.frame (⟨line, parts.head.version, parts.head.fields.trimmed⟩ : Request)
          limits false with ⟨framed, cause | framing⟩
        · have hfails := hdecode.trans (show _ = fail ⟨limits, .head⟩ (some framed) cause () bytes by
            simp [enter, statusRule, Head.isBodiless, hframe])
          rw [drain_of_fail hfails]
          exact ⟨Nat.zero_le _, .inl ⟨rfl, rfl⟩⟩
        · have hdone := hdecode.trans (show _ = (⟨some (.header framed),
            ⟨limits, .body (.ofFraming framing)⟩, (), bytes⟩ : Decoding .request Unit) by
              simp [enter, statusRule, Head.isBodiless, hframe])
          have hunderstood : limits.repeatedLengths = true → ∀ n, framing = .length n →
              parts.head.announcedFraming ≠ .untilClose := by
            rintro hallowed n rfl
            have hsame : (⟨line, parts.head.version, parts.head.fields.trimmed⟩ : Request).fields =
              parts.head.trimmed.fields := rfl
            have hfound : (parts.head.trimmed.frame limits false).2 = .ok (.length n) := by
              rw [← Head.frame_congr hsame limits, hframe]
            exact h.repeated hallowed _ n (Prod.ext rfl hfound)
          rw [drain_of_message hdone, ← hbytes]
          exact (EndsBody.encodeAll (Head.framing_of_frame rfl hframe hunderstood) hencoded
            h.absent).behind framed

theorem heads_of_join {messages : List (Message .request)} {head : Request} {body : Bytes}
    {trailers : Fields} (h : Message.join messages =
      .header head :: (Message.chunkOf body ++ [.payload (.last [] trailers)])) :
    Message.heads messages = 1 ∧ messages.any Message.isFailure = false := by
  rw [← Message.heads_join, ← Message.any_join (fun _ => rfl), h]
  unfold Message.chunkOf
  split <;> exact ⟨rfl, rfl⟩

theorem EndsRequest.front {limits : Limits} {body front back : Bytes}
    (h : EndsRequest limits body ((source (statusRule .request)).drain false (⟨limits, .head⟩, ())
      (front ++ back)))
    (hfront : back = [] ∨ ((source (statusRule .request)).drain false (⟨limits, .head⟩, ())
      front).values.any Message.isFailure = true) :
    EndsRequest limits body ((source (statusRule .request)).drain false (⟨limits, .head⟩, ())
      front) := by
  by_cases hback : back = []
  · rwa [hback, List.append_nil] at h
  have hheads := Nat.le_trans (drain_heads_le (⟨limits, .head⟩, ()) front back) h.heads
  refine ⟨hheads, .inl ⟨hfront.resolve_left hback, ?_⟩⟩
  rw [Bool.eq_false_iff]
  intro hdone
  obtain ⟨before, last, rule, rest, hlast, hshort, hlong⟩ := drain_of_completes hdone
  dsimp only at hshort hlong
  obtain ⟨hvalues, -, -, hrest⟩ := Drained.joined_ext (hlong back)
  rcases h.ends with ⟨-, hunfinished⟩ | ⟨head, trailers, hends⟩
  · rw [Message.any_eq_of_join (fun _ => rfl) hvalues, Drained.after_values, List.any_append,
      List.any_append, List.any_cons, hlast] at hunfinished
    simp at hunfinished
  · -- What is read behind the message begins with a second head, or nothing is behind it.
    have hall := hvalues.symm.trans (congrArg Drained.values hends)
    obtain ⟨hone, hsound⟩ := heads_of_join hall
    rw [Drained.after_values, Message.heads_append] at hone
    rw [Drained.after_values, List.any_append, Bool.or_eq_false_iff] at hsound
    have hsecond : 0 < Message.heads ((source (statusRule .request)).drain false
        (⟨limits, .head⟩, rule) (rest ++ back)).values := by
      rcases drain_head_cases limits rule (rest ++ back) with
        hidle | ⟨message, more, hmore, hstart⟩
      · have hnone : ([] : Bytes) = rest ++ back := by
          rw [Drained.after_rest, hidle] at hrest
          exact (congrArg Drained.rest hends).symm.trans hrest
        exact absurd (List.append_eq_nil_iff.mp hnone.symm).2 hback
      · rw [hmore, List.any_cons, Bool.or_eq_false_iff] at hsound
        rw [hmore, Message.heads, List.countP_cons_of_pos (by simpa [hsound.2.1] using hstart)]
        exact Nat.succ_pos _
    -- So no head is in front of it, with which the message must have begun.
    obtain ⟨first, tail, hfirst⟩ := List.exists_cons_of_ne_nil (List.concat_ne_nil last before)
    rcases drain_head_cases limits () front with hidle | ⟨message, more, hmore, hstart⟩
    · rw [hidle] at hdone
      cases hdone
    · rw [hshort, Drained.after_values, hfirst] at hmore
      cases hmore
      rw [hfirst] at hone hsound
      rw [List.any_cons, Bool.or_eq_false_iff] at hsound
      rw [Message.heads, List.countP_cons_of_pos (by simpa [hsound.1.1] using hstart)] at hone
      omega

theorem EndsRequest.congr {limits : Limits} {body : Bytes}
    {first second : Drained (Decoder .request × Unit) (Message .request)}
    (h : EndsRequest limits body first) (hjoined : second.joined = first.joined) :
    EndsRequest limits body second := by
  have hvalues := (Drained.joined_ext hjoined).1
  constructor
  · rw [Message.heads_eq_of_join hvalues]
    exact h.heads
  · refine h.ends.imp (fun hfails => ⟨?_, ?_⟩) fun ⟨head, trailers, hends⟩ =>
      ⟨head, trailers, hjoined.trans hends⟩
    · rw [Message.any_eq_of_join (fun _ => rfl) hvalues]
      exact hfails.failure
    · rw [Message.any_eq_of_join (fun _ => rfl) hvalues]
      exact hfails.unfinished

theorem EndsRequest.ended {limits : Limits} {body bytes : Bytes}
    (h : EndsRequest limits body ((source (statusRule .request)).drain false (⟨limits, .head⟩, ())
      bytes)) :
    (source (statusRule .request)).drain true
        ((source (statusRule .request)).drain false (⟨limits, .head⟩, ()) bytes).state
        ((source (statusRule .request)).drain false (⟨limits, .head⟩, ()) bytes).rest =
      ⟨[], none, ((source (statusRule .request)).drain false (⟨limits, .head⟩, ()) bytes).state,
        ((source (statusRule .request)).drain false (⟨limits, .head⟩, ()) bytes).rest⟩ := by
  rcases h.ends with hfails | ⟨head, trailers, hends⟩
  · obtain ⟨hfailed, hrest⟩ := failed_of_drain hfails.failure
    rw [drain_of_failed hfailed, hrest]
  · have hstate := congrArg Drained.state hends
    have hrest := congrArg Drained.rest hends
    simp only [Drained.joined] at hstate hrest
    rw [hstate, hrest, Source.drain_of_none (pull_nil _ true limits ())]

/-- A written request is never read as more than one, in whatever pieces it arrives, with the
end of the input behind it or not. Either the reader fails before the request is complete, or
it hands out the body that was written and stands between messages at the end of the bytes. -/
theorem arrive_written (limits : Limits) (parts : Parts .request) (h : parts.IsDelimited limits)
    (hencoded : (({} : Encoder).encodeAll parts.messages).error? = none) (pieces : List Bytes)
    (hpieces : pieces.flatten = (({} : Encoder).encodeAll parts.messages).output) (ended : Bool) :
    EndsRequest limits parts.body
      ((source (statusRule .request)).arrive (⟨limits, .head⟩, ()) pieces ended) := by
  obtain ⟨front, back, hsplit, hjoined, hfront⟩ :=
    deliver_front (pull_nil (statusRule .request) false limits ()) pieces
  have hwhole := drain_written h hencoded
  rw [← hpieces, hsplit] at hwhole
  have hends := hwhole.front hfront
  obtain ⟨hvalues, -, hstate, hrest⟩ := Drained.joined_ext hjoined
  rw [arrive_eq]
  split
  · rw [hstate, hrest, List.nil_append, hends.ended]
    refine hends.congr ?_
    simp only [Drained.joined, Drained.after, List.append_nil, hvalues, List.nil_append,
      drain_error?]
  · exact hends.congr hjoined

/-- A request whose length is given twice, to a reader that takes repeated lengths. The cut is
inside the body. -/
theorem arrive_written_of_repeated_length :
    let parts : Parts .request := {
      head := { line := ⟨⟨ascii "POST", by decide⟩, .root⟩
                fields := .ofList [(.contentLength, .ofNat 5), (.contentLength, .ofNat 5)] }
      chunks := [ascii "he"]
      tail := ascii "llo" }
    let limits : Limits := { repeatedLengths := true }
    let written := ({} : Encoder).encodeAll parts.messages
    parts.IsDelimited limits ∧ written.error? = none ∧
      EndsRequest limits parts.body ((source (statusRule .request)).arrive (⟨limits, .head⟩, ())
        [written.output.take 60, written.output.drop 60] true) := by
  intro parts limits written
  have hdelimited : parts.IsDelimited limits :=
    ⟨fun hunframed => absurd hunframed.1 (by decide +kernel), fun _ _ _ _ => by decide +kernel⟩
  have hencoded : written.error? = none := by decide +kernel
  exact ⟨hdelimited, hencoded,
    arrive_written limits parts hdelimited hencoded _ (by decide +kernel) true⟩

/-- Behind the head of a request without a length or a coding the body is read as requests of
its own. -/
theorem drain_of_unframed {limits : Limits} {parts : Parts .request} {written : Bytes}
    (hreadable : parts.head.IsReadable limits written) (hunframed : parts.head.IsUnframed) :
    ((source (statusRule .request)).drain false (⟨limits, .head⟩, ())
        (({} : Encoder).encodeAll parts.messages).output).joined =
      (((source (statusRule .request)).drain false (⟨limits, .head⟩, ()) parts.body).after
        [.header parts.head, .payload .done]).joined := by
  have hannounces : parts.head.Announces .empty := .empty rfl hunframed.2 hunframed.1
  rw [Parts.encodeAll_messages hreadable.write_eq, hannounces.announcedFraming]
  show ((source (statusRule .request)).drain false (⟨limits, .head⟩, ())
    (written ++ ((⟨some .plain⟩ : Encoder).encodeAll _).output)).joined = _
  rw [Encoder.encodeAll_plain]
  have hasked : statusRule .request parts.head () = (false, ()) := rfl
  have htaken := (Takes.ofHead hreadable hasked (hannounces.frame limits)).trans Takes.ofNothing
  rw [List.append_nil] at htaken
  exact htaken.whole parts.body

/-- Two written requests that are read as two requests each, without a failure: one has a body
and announces none, the other gives its length in a list. -/
theorem heads_of_hidden_request :
    let post : RequestLine := ⟨⟨ascii "POST", by decide⟩, .root⟩
    let unframed : Parts .request := {
      head := { line := post }
      tail := ascii "GET /b HTTP/1.1\r\n\r\n" }
    let listed : Parts .request := {
      head := { line := post, fields := .ofList [(.contentLength, ⟨ascii "5, 5", by decide⟩)] }
      tail := ascii "helloGET /b HTTP/1.1\r\n\r\n" }
    let drained := fun (limits : Limits) (parts : Parts .request) =>
      (source (statusRule .request)).drain false (⟨limits, .head⟩, ())
        (({} : Encoder).encodeAll parts.messages).output
    let lenient : Limits := { repeatedLengths := true }
    (({} : Encoder).encodeAll unframed.messages).error? = none ∧
      ¬ EndsRequest {} unframed.body (drained {} unframed) ∧
      Message.heads (drained {} unframed).values = 2 ∧
      (drained {} unframed).values.any Message.isFailure = false ∧
      (({} : Encoder).encodeAll listed.messages).error? = none ∧
      ¬ EndsRequest lenient listed.body (drained lenient listed) ∧
      Message.heads (drained lenient listed).values = 2 ∧
      (drained lenient listed).values.any Message.isFailure = false := by
  intro post unframed listed drained lenient
  have hunframed : Message.heads (drained {} unframed).values = 2 := by decide +kernel
  have hlisted : Message.heads (drained lenient listed).values = 2 := by decide +kernel
  refine ⟨by decide +kernel, fun h => ?_, hunframed, by decide +kernel, by decide +kernel,
    fun h => ?_, hlisted, by decide +kernel⟩
  · exact absurd (hunframed ▸ h.heads) (by decide)
  · exact absurd (hlisted ▸ h.heads) (by decide)

end Decoder

end HttpFraming
