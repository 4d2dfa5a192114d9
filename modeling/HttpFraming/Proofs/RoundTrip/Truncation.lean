import HttpFraming.Proofs.Arrival.Fronts
import HttpFraming.Proofs.RoundTrip.Messages

/-!
# Messages that break off

The front of a written message is never taken for a whole one. Wherever it breaks off, in the
head, in the data, in a line between chunks or in the trailers, the decoder hands out the data that
has come and waits, and the end of the input is a failure: `Decoder.arrive_truncated`.
-/

namespace HttpFraming

open Bytes

/-! ## Fronts -/

/-- The data that the first bytes of written chunks hold. -/
def Chunk.inFront : List Bytes → Nat → Bytes
  | [], _ => []
  | data :: more, n =>
      data.take (n - (Numeral.write 16 data.length ++ crlf).length) ++
        inFront more (n - (write data).length)

namespace Chunk

theorem inFront_zero (chunks : List Bytes) : inFront chunks 0 = [] := by
  induction chunks with
  | nil => rfl
  | cons data more ih => simpa [inFront] using ih

theorem take_of_write_le {data : Bytes} {n : Nat} (h : (write data).length ≤ n) :
    data.take (n - (Numeral.write 16 data.length ++ crlf).length) = data := by
  refine List.take_of_length_le ?_
  by_cases hdata : data = []
  · simp [hdata]
  · simp only [write, List.isEmpty_iff, hdata, if_false, List.length_append] at h ⊢
    omega

theorem inFront_isPrefix (chunks : List Bytes) (n : Nat) : inFront chunks n <+: chunks.flatten := by
  induction chunks generalizing n with
  | nil => exact List.prefix_refl _
  | cons data more ih =>
      rw [inFront, List.flatten_cons]
      by_cases hwhole : (write data).length ≤ n
      · rw [take_of_write_le hwhole]
        exact (List.prefix_append_right_inj data).mpr (ih _)
      · rw [Nat.sub_eq_zero_of_le (Nat.le_of_not_le hwhole), inFront_zero, List.append_nil]
        exact (List.take_prefix _ _).trans (List.prefix_append _ _)

end Chunk

namespace Parts

variable {k : Kind}

def bodyIn (parts : Parts k) (n : Nat) : Bytes :=
  if parts.head.isChunked then Chunk.inFront (parts.chunks ++ [parts.tail]) n else parts.body.take n

theorem bodyIn_isPrefix (parts : Parts k) (n : Nat) : parts.bodyIn n <+: parts.body := by
  unfold bodyIn
  split
  · have hflat : (parts.chunks ++ [parts.tail]).flatten = parts.body := by simp [body]
    exact hflat ▸ Chunk.inFront_isPrefix _ n
  · exact List.take_prefix n _

/-- The parts that the first bytes hold, where the head has been written as so many bytes: the
head, once it is there as a whole, and data. -/
def inFront (parts : Parts k) (headLength n : Nat) : List (Message k) :=
  if n < headLength then []
  else .header parts.head :: Message.chunkOf (parts.bodyIn (n - headLength))

theorem join_inFront (parts : Parts k) (headLength n : Nat) :
    Message.join (parts.inFront headLength n) = parts.inFront headLength n := by
  unfold inFront Message.chunkOf
  split
  · rfl
  · split <;> rfl

theorem any_inFront {p : Message k → Bool} (hhead : ∀ h, p (.header h) = false)
    (hchunk : ∀ data, p (.payload (.chunk data)) = false) (parts : Parts k) (headLength n : Nat) :
    (parts.inFront headLength n).any p = false := by
  unfold inFront Message.chunkOf
  split
  · rfl
  · split <;> simp [hhead, hchunk]

end Parts

namespace Decoder

variable {k : Kind} {ρ : Type} {ask : HeadRule k ρ}

/-! ## The end of the input within a message -/

/-- A decoder that stands within a message, with these bytes left: at some of those of a head, or in
a body that has an end of its own. -/
def IsCut (decoder : Decoder k) (rest : Bytes) : Prop :=
  match decoder.phase with
  | .head => rest ≠ []
  | .body reader => reader ≠ .untilClose
  | .failed => False

theorem readHead_at_end {decoder : Decoder k} {rule : ρ} {bytes : Bytes}
    (hwaits : (decoder.readHead ask false rule bytes).message? = none) (hsome : bytes ≠ []) :
    ∃ rest, decoder.readHead ask true rule bytes = decoder.fail none .prematureEnd rule rest := by
  have hended : (true && !bytes.isEmpty) = true := by simpa using hsome
  unfold readHead at hwaits ⊢
  rcases hread : Head.read k decoder.limits bytes with ⟨answer, rest⟩
  rw [hread] at hwaits
  rcases answer with cause | _ | h
  · cases hwaits
  · exact ⟨rest, if_pos hended⟩
  · have hhands : (decoder.enter ask h rule rest).message? ≠ none := by
      unfold enter
      dsimp only
      split <;> exact nofun
    exact absurd hwaits hhands

theorem readBody_at_end {decoder : Decoder k} {reader : BodyReader} {rule : ρ} {bytes : Bytes}
    (hwaits : (decoder.readBody reader false rule bytes).message? = none)
    (hown : reader ≠ .untilClose) :
    ∃ rest, decoder.readBody reader true rule bytes =
      decoder.fail none .prematureEnd rule rest := by
  have hanswer := (readBody_of_none hwaits).1
  have hend : reader.atEnd = .error .prematureEnd := by
    cases reader with
    | untilClose => exact absurd rfl hown
    | _ => rfl
  rcases hread : reader.readMore bytes with ⟨answer, next, rest⟩
  rw [hread] at hanswer
  dsimp only at hanswer
  subst hanswer
  refine ⟨rest, ?_⟩
  simp only [readBody, BodyReader.read, hread, hend, if_true]

/-- The end of the input is a failure to a decoder that waits within a message. -/
theorem drain_of_isCut {state : Decoder k × ρ} {bytes : Bytes}
    (hwaits : (state.1.decode ask false state.2 bytes).message? = none)
    (hcut : state.1.IsCut bytes) :
    (source ask).drain true state bytes =
      ⟨[.failure ⟨none, .prematureEnd, true⟩], none, (⟨state.1.limits, .failed⟩, state.2), []⟩ := by
  suffices hfail : ∃ rest, state.1.decode ask true state.2 bytes =
      state.1.fail none .prematureEnd state.2 rest by
    obtain ⟨rest, hfail⟩ := hfail
    exact drain_of_fail hfail
  unfold IsCut at hcut
  cases hphase : state.1.phase with
  | failed =>
      rw [hphase] at hcut
      exact hcut.elim
  | head =>
      rw [hphase] at hcut
      rw [decode_head hphase] at hwaits
      have hsome : (true && bytes.isEmpty) = false := by simpa using hcut
      obtain ⟨rest, hfail⟩ := readHead_at_end hwaits hcut
      exact ⟨rest, by simp only [decode, hphase, hsome, Bool.false_eq_true, if_false, hfail]⟩
  | body reader =>
      rw [hphase] at hcut
      rw [decode_body hphase] at hwaits
      obtain ⟨rest, hfail⟩ := readBody_at_end hwaits hcut
      exact ⟨rest, by simp only [decode, hphase, hfail]⟩

/-- Of these bytes a decoder makes these parts, and it stands within a message behind them. -/
structure StopsShort (ask : HeadRule k ρ) (start : Decoder k × ρ) (bytes : Bytes)
    (messages : List (Message k)) : Prop where
  parts : Message.join ((source ask).drain false start bytes).values = Message.join messages
  cut : ((source ask).drain false start bytes).state.1.IsCut
    ((source ask).drain false start bytes).rest

theorem Takes.stopsShort {start middle : Decoder k × ρ} {bytes front : Bytes}
    {messages messages' : List (Message k)} (h : Takes ask start bytes messages middle)
    (h' : StopsShort ask middle front messages') :
    StopsShort ask start (bytes ++ front) (messages ++ messages') := by
  obtain ⟨hvalues, -, hstate, hrest⟩ := Drained.joined_ext (h.whole front)
  constructor
  · rw [hvalues, Drained.after_values]
    exact Message.join_append_congr rfl h'.parts
  · rw [hstate, hrest]
    exact h'.cut

namespace StopsShort

variable {limits : Limits} {rule : ρ}

theorem of_wait {start : Decoder k × ρ} {bytes rest : Bytes} {next : Decoder k} {rule : ρ}
    (h : start.1.decode ask false start.2 bytes = ⟨none, next, rule, rest⟩)
    (hcut : next.IsCut rest) : StopsShort ask start bytes [] := by
  constructor
  · rw [drain_of_wait h]
  · rw [drain_of_wait h]
    exact hcut

theorem of_message {start : Decoder k × ρ} {bytes rest : Bytes} {message : Message k}
    {messages : List (Message k)} {next : Decoder k} {rule : ρ}
    (h : start.1.decode ask false start.2 bytes = ⟨some message, next, rule, rest⟩)
    (hmore : StopsShort ask (next, rule) rest messages) :
    StopsShort ask start bytes (message :: messages) := by
  constructor
  · rw [drain_of_message h, Drained.after_values]
    exact Message.join_append_congr rfl hmore.parts
  · rw [drain_of_message h]
    exact hmore.cut

theorem congr {start : Decoder k × ρ} {bytes : Bytes} {messages messages' : List (Message k)}
    (h : StopsShort ask start bytes messages)
    (hjoin : Message.join messages = Message.join messages') :
    StopsShort ask start bytes messages' :=
  ⟨h.parts.trans hjoin, h.cut⟩

/-! ## Where a message may break off -/

theorem ofHead {h : Head k} {front back : Bytes} (hreadable : h.IsReadable limits (front ++ back))
    (hback : back ≠ []) (hfront : front ≠ []) :
    StopsShort ask (⟨limits, .head⟩, rule) front [] :=
  of_wait (decode_headFront hreadable.isReadFrom hback) hfront

theorem ofLine {line : ChunkLine} {place : ChunkPlace} {front back : Bytes}
    (hadvance : line.advance (front ++ back) = (.ok place, [])) (hback : back ≠ []) :
    StopsShort ask (⟨limits, .body (.chunked (.line line))⟩, rule) front [] := by
  obtain ⟨next, hnext⟩ := decode_lineFront hadvance hback
  exact of_wait hnext nofun

theorem ofTrailers {trailers : Fields} {front back : Bytes} (h : trailers.AreTrailers)
    (hsplit : trailers.write = front ++ back) (hback : back ≠ []) :
    StopsShort ask (⟨limits, .body (.chunked .trailers)⟩, rule) front [] :=
  of_wait (decode_trailersFront h hsplit hback) nofun

theorem ofData {reader : BodyReader} {data front back : Bytes} {behind : Bytes → BodyReader}
    (h : reader.HandsOut data behind) (hsplit : data = front ++ back) (hback : back ≠ [])
    (hreader : reader ≠ .untilClose) (hbehind : behind front ≠ .untilClose) :
    StopsShort ask (⟨limits, .body reader⟩, rule) front (Message.chunkOf front) := by
  by_cases hfront : front = []
  · subst hfront
    exact of_wait (decode_of_wait h.waits) hreader
  · have hchunk : Message.chunkOf front = [(.payload (.chunk front) : Message k)] := by
      simp [Message.chunkOf, hfront]
    rw [hchunk]
    exact of_message (decode_of_item (h.reads front back hsplit hfront))
      (of_wait (decode_of_wait (h.more front back hsplit hback)) hbehind)

theorem ofLength {body front back : Bytes} (hsplit : body = front ++ back) (hback : back ≠ []) :
    StopsShort ask (⟨limits, .body (.length body.length)⟩, rule) front (Message.chunkOf front) := by
  have hbody : body ≠ [] := by simp [hsplit, hback]
  exact ofData (BodyReader.handsOut_length hbody) hsplit hback nofun nofun

theorem ofChunkRest {data front back : Bytes} (hpos : 0 < data.length)
    (hsplit : data ++ crlf = front ++ back) (hback : back ≠ []) :
    StopsShort ask (⟨limits, .body (.chunked (.data data.length hpos))⟩, rule) front
      (Message.chunkOf (data.take front.length)) := by
  rcases cut_cases hsplit with ⟨behind, hbehind, hdata, -⟩ | ⟨front', rfl, hend⟩
  · have htake : data.take front.length = front := by simp [hdata]
    rw [htake]
    exact ofData (BodyReader.handsOut_chunk hpos) hdata hbehind nofun nofun
  · have htake : data.take (data ++ front').length = data :=
      List.take_of_length_le (by simp)
    have hchunk : Message.chunkOf data = [(.payload (.chunk data) : Message k)] := by
      simp [Message.chunkOf, List.length_pos_iff.mp hpos]
    have hadvance : ChunkLine.dataEnd.advance (front' ++ back) = (.ok (.line .start), []) :=
      hend ▸ rfl
    rw [htake, hchunk]
    exact (Takes.ofChunkData hpos).stopsShort (ofLine hadvance hback)

theorem ofChunk {data front back : Bytes} (hword : data.length < Numeral.wordBound)
    (hsplit : Chunk.write data = front ++ back) (hback : back ≠ []) :
    StopsShort ask (⟨limits, .body (.chunked (.line .start))⟩, rule) front
      (Message.chunkOf
        (data.take (front.length - (Numeral.write 16 data.length ++ crlf).length))) := by
  have hdata : data ≠ [] := by
    rintro rfl
    have hnothing : front ++ back = [] := hsplit.symm
    simp [hback] at hnothing
  have hpos : 0 < data.length := List.length_pos_iff.mpr hdata
  rw [Chunk.write, if_neg (by simpa using hdata), List.append_assoc] at hsplit
  rcases cut_cases hsplit with ⟨behind, hbehind, hline, -⟩ | ⟨front', rfl, hrest⟩
  · have hadvance := ChunkLine.advance_sizeLine hword []
    rw [List.append_nil, hline] at hadvance
    have hnone : front.length - (Numeral.write 16 data.length ++ crlf).length = 0 := by
      rw [hline, List.length_append]
      omega
    rw [hnone, List.take_zero]
    exact ofLine hadvance hbehind
  · rw [List.length_append, Nat.add_sub_cancel_left]
    exact (Takes.ofSizeLine hpos hword).stopsShort (ofChunkRest hpos hrest hback)

theorem ofChunkEnd {trailers : Fields} {front back : Bytes} (h : trailers.AreTrailers)
    (hsplit : Chunk.writeEnd trailers = front ++ back) (hback : back ≠ []) :
    StopsShort ask (⟨limits, .body (.chunked (.line .start))⟩, rule) front [] := by
  have hline : ChunkLine.start.advance (ascii "0" ++ crlf) = (.ok .trailers, []) := rfl
  rcases cut_cases hsplit with ⟨behind, hbehind, hzero, -⟩ | ⟨front', rfl, hrest⟩
  · rw [hzero] at hline
    exact ofLine hline hbehind
  · exact (Takes.ofLine hline rfl).stopsShort (ofTrailers h hrest hback)

/-- A chunked body, some of which is missing. -/
theorem ofChunked {chunks : List Bytes} {trailers : Fields} {front back : Bytes}
    (hword : ∀ data ∈ chunks, data.length < Numeral.wordBound) (h : trailers.AreTrailers)
    (hsplit : chunks.flatMap Chunk.write ++ Chunk.writeEnd trailers = front ++ back)
    (hback : back ≠ []) :
    StopsShort ask (⟨limits, .body (.chunked (.line .start))⟩, rule) front
      (Message.chunkOf (Chunk.inFront chunks front.length)) := by
  induction chunks generalizing front with
  | nil => exact ofChunkEnd h hsplit hback
  | cons data more ih =>
      rw [List.forall_mem_cons] at hword
      rw [List.flatMap_cons, List.append_assoc] at hsplit
      rcases cut_cases hsplit with ⟨behind, hbehind, hchunk, -⟩ | ⟨front', rfl, hrest⟩
      · have hnone : front.length - (Chunk.write data).length = 0 := by
          rw [hchunk, List.length_append]
          omega
        rw [Chunk.inFront, hnone, Chunk.inFront_zero, List.append_nil]
        exact ofChunk hword.1 hchunk hbehind
      · have hjoin : ∀ later : Bytes, Message.join (Message.chunkOf data ++ Message.chunkOf later) =
            Message.join (Message.chunkOf (data ++ later) : List (Message k)) := by
          intro later
          simpa using Message.join_chunkOf_chunkOf data later ([] : List (Message k))
        rw [Chunk.inFront, Chunk.take_of_write_le (by simp), List.length_append,
          Nat.add_sub_cancel_left]
        exact ((Takes.ofChunk hword.1).stopsShort (ih hword.2 hrest)).congr (hjoin _)

end StopsShort

end Decoder

/-! ## Whole messages -/

namespace Parts

variable {k : Kind} {limits : Limits} {parts : Parts k}

theorem stopsShort {ρ : Type} {ask : HeadRule k ρ} {rule rule' : ρ} {written front back : Bytes}
    (h : parts.IsReadable limits) (hwritten : parts.head.write = .ok written)
    (hencoded : (({} : Encoder).encodeAll parts.messages).error? = none)
    (hask : ask parts.head rule = (false, rule'))
    (hsplit : (({} : Encoder).encodeAll parts.messages).output = front ++ back)
    (hfront : front ≠ []) (hback : back ≠ []) :
    Decoder.StopsShort ask (⟨limits, .head⟩, rule) front
      (parts.inFront written.length front.length) := by
  obtain ⟨bytes, hreadable⟩ := h.head
  obtain rfl : bytes = written := Except.ok.inj (hreadable.write_eq.symm.trans hwritten)
  obtain ⟨framing, hannounces⟩ := h.framing
  have htakes := Decoder.Takes.ofHead hreadable hask (hannounces.frame limits)
  rw [encodeAll_messages hwritten, hannounces.announcedFraming] at hencoded hsplit
  rcases cut_cases hsplit with ⟨behind, hbehind, rfl, -⟩ | ⟨front', rfl, hrest⟩
  · have hshort : front.length < (front ++ behind).length := by
      rw [List.length_append]
      have := List.length_pos_iff.mpr hbehind
      omega
    rw [inFront, if_pos hshort]
    exact .ofHead hreadable hbehind hfront
  · rw [inFront, if_neg (by simp), List.length_append, Nat.add_sub_cancel_left]
    refine htakes.stopsShort ?_
    cases hannounces with
    | length value n hvalues hread hword hcoding =>
        have hn : n = parts.body.length :=
          Encoder.length_of_encodeAll parts.chunks parts.tail parts.trailers hencoded
        subst hn
        have hbody : parts.body = front' ++ back :=
          (congrArg Written.output (Encoder.encodeAll_length ..)).symm.trans hrest
        have hbodyIn : parts.bodyIn front'.length = front' := by
          rw [bodyIn, Head.isChunked_of_not_contains hcoding, if_neg nofun, hbody,
            List.take_left]
        rw [hbodyIn]
        exact .ofLength hbody hback
    | chunked hchunked hlength =>
        rw [bodyIn, if_pos hchunked]
        exact .ofChunked h.words h.trailers
          ((congrArg Written.output (Encoder.encodeAll_chunked ..)).symm.trans hrest) hback
    | empty hrequest hcoding hlength =>
        -- Nothing is written behind the head, so nothing can be missing.
        have hnothing : parts.body = front' ++ back :=
          (congrArg Written.output (Encoder.encodeAll_plain ..)).symm.trans hrest
        rw [h.absent (.empty hrequest hcoding hlength)] at hnothing
        simp [hback] at hnothing

end Parts

namespace Decoder

variable {k : Kind}

/-- A message that breaks off is never taken for a whole one. Of some of the bytes that an encoder
has written for a message, in whatever pieces they arrive, a decoder makes the head, if all of it
has come, and the data of the body that has come. No message is complete then, and at the end of
the input there is one failure, behind everything else. No byte is left. -/
theorem arrive_truncated (limits : Limits) (parts : Parts k) (hreadable : parts.IsReadable limits)
    (hencoded : (({} : Encoder).encodeAll parts.messages).error? = none)
    (pieces : List Bytes) (missing : Bytes)
    (hsplit : (({} : Encoder).encodeAll parts.messages).output = pieces.flatten ++ missing)
    (hsome : pieces.flatten ≠ []) (hmissing : missing ≠ []) :
    let arrived := (source (statusRule k)).arrive (⟨limits, .head⟩, ()) pieces true
    ∃ written shown, parts.head.write = .ok written ∧
      arrived.values = shown ++ [.failure ⟨none, .prematureEnd, true⟩] ∧
      Message.join shown = parts.inFront written.length pieces.flatten.length ∧
      arrived.values.any Message.completes = false ∧ shown.any Message.isFailure = false ∧
      parts.bodyIn (pieces.flatten.length - written.length) <+: parts.body ∧
      arrived.error? = none ∧ arrived.rest = [] := by
  intro arrived
  obtain ⟨written, hhead⟩ := hreadable.head
  have hwritten := hhead.write_eq
  have hask : statusRule k parts.head () = (false, ()) := by simp [statusRule, hreadable.bodied]
  have hshort := Parts.stopsShort hreadable hwritten hencoded hask hsplit hsome hmissing
  have htakes := (Parts.takes hreadable hencoded hask).1
  -- No front of the bytes is too large, so the pieces may be drained at once.
  have hdelivered : ((source (statusRule k)).deliver (⟨limits, .head⟩, ()) [] pieces).joined =
      ((source (statusRule k)).drain false (⟨limits, .head⟩, ()) pieces.flatten).joined := by
    refine deliver_joined (pull_nil _ false limits ()) pieces (deliver_isTooLarge pieces ?_)
    intro front back hpieces
    exact htakes.fronts front (back ++ missing) (by rw [hsplit, hpieces, List.append_assoc])
      (by simp [hmissing])
  obtain ⟨hvalues, -, hstate, hrest⟩ := Drained.joined_ext hdelivered
  have hwaits := pull_drained (statusRule k) (⟨limits, .head⟩, ()) pieces.flatten
  have hend := drain_of_isCut (Except.ok.inj (congrArg Pull.answer hwaits)) hshort.cut
  have harrived : arrived = _ := arrive_eq (statusRule k) (⟨limits, .head⟩, ()) pieces true
  rw [if_pos rfl, hstate, hrest, hend] at harrived
  have hshown := hvalues.trans hshort.parts
  rw [harrived]
  refine ⟨written, _, hwritten, rfl, hshown.trans (parts.join_inFront _ _), ?_, ?_,
    parts.bodyIn_isPrefix _, rfl, rfl⟩
  · rw [Drained.after_values, List.any_append, Message.any_eq_of_join (fun _ => rfl) hshown,
      Parts.any_inFront (fun _ => rfl) fun _ => rfl]
    rfl
  · rw [Message.any_eq_of_join (fun _ => rfl) hshown,
      Parts.any_inFront (fun _ => rfl) fun _ => rfl]

/-- A chunked request, in two pieces, that breaks off within its second chunk. -/
theorem arrive_truncated_of_upload :
    let upload := threeRequests[1]
    let written := ({} : Encoder).encodeAll upload.messages
    let pieces := [written.output.take 50, (written.output.take 56).drop 50]
    let arrived := (source (statusRule .request)).arrive (⟨{}, .head⟩, ()) pieces true
    upload.IsReadable {} ∧ written.error? = none ∧
      written.output = pieces.flatten ++ written.output.drop 56 ∧ pieces.flatten ≠ [] ∧
      written.output.drop 56 ≠ [] ∧
      ∃ shown, arrived.values = shown ++ [.failure ⟨none, .prematureEnd, true⟩] ∧
        Message.join shown = [.header upload.head, .payload (.chunk (ascii "ab"))] := by
  intro upload written pieces arrived
  have hreadable : upload.IsReadable {} := threeRequests_readable upload (List.getElem_mem _)
  have hencoded : written.error? = none := by decide +kernel
  have hsplit : written.output = pieces.flatten ++ written.output.drop 56 := by decide +kernel
  have hsome : pieces.flatten ≠ [] := by decide +kernel
  have hmissing : written.output.drop 56 ≠ [] := by decide +kernel
  obtain ⟨head, shown, hhead, hvalues, hshown, -⟩ :=
    arrive_truncated {} upload hreadable hencoded pieces _ hsplit hsome hmissing
  have hlength : head.length = 46 := by
    have hwritten : upload.head.write.toOption.map List.length = some 46 := by decide +kernel
    simpa [hhead, Except.toOption] using hwritten
  rw [hlength, show upload.inFront 46 pieces.flatten.length =
    [.header upload.head, .payload (.chunk (ascii "ab"))] by decide +kernel] at hshown
  exact ⟨hreadable, hencoded, hsplit, hsome, hmissing, shown, hvalues, hshown⟩

end Decoder

end HttpFraming
