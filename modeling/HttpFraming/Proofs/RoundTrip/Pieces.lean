import HttpFraming.Framing
import HttpFraming.Proofs.RoundTrip.Taking

/-!
# The written pieces of a message are taken

One lemma for each kind of piece that a writer writes, and from them one for each kind of
body: `Takes.ofLength`, `Takes.ofChunks` and `Takes.ofNothing`.
-/

namespace HttpFraming

open Bytes

/-! ## Size lines -/

namespace Numeral

theorem le_of_foldlM {base : Nat} (hbase : 0 < base) {digits : Bytes} {acc n : Nat}
    (h : digits.foldlM (push? base) acc = some n) : acc ≤ n := by
  induction digits generalizing acc with
  | nil =>
      simp only [List.foldlM_nil, Option.pure_def, Option.some.injEq] at h
      omega
  | cons b rest ih =>
      rw [List.foldlM_cons] at h
      cases hpush : push? base acc b with
      | none => simp [hpush] at h
      | some next =>
          simp only [hpush, Option.bind_eq_bind, Option.bind_some] at h
          have hnext := ih h
          cases hdigit : digit? base b with
          | none => simp [push?, hdigit] at hpush
          | some d =>
              simp only [push?, hdigit, Option.map_some, Option.some.injEq] at hpush
              have hgrows : acc ≤ acc * base := Nat.le_mul_of_pos_right acc hbase
              omega

end Numeral

namespace ChunkLine

/-- A size is read digit by digit, if it is one of a machine word. -/
theorem advance_digits {digits : Bytes} {n? : Option Nat} {n : Nat}
    (hread : digits.foldlM (Numeral.push? 16) (n?.getD 0) = some n) (hword : n < Numeral.wordBound)
    (hsome : digits = [] → n? = some n) (rest : Bytes) :
    (size n?).advance (digits ++ rest) = (size (some n)).advance rest := by
  induction digits generalizing n? with
  | nil => rw [hsome rfl, List.nil_append]
  | cons b digits ih =>
      rw [List.foldlM_cons] at hread
      cases hpush : Numeral.push? 16 (n?.getD 0) b with
      | none => simp [hpush] at hread
      | some next =>
          simp only [hpush, Option.bind_eq_bind, Option.bind_some] at hread
          have hnext : next < Numeral.wordBound :=
            Nat.lt_of_le_of_lt (Numeral.le_of_foldlM (by decide) hread) hword
          have hstep : (size n?).step b = .ok (.line (size (some next))) := by
            simp [step, hpush, hnext]
          rw [List.cons_append, advance, hstep]
          refine ih hread ?_
          rintro rfl
          simpa using hread

theorem advance_sizeLine {n : Nat} (hword : n < Numeral.wordBound) (rest : Bytes) :
    start.advance (Numeral.write 16 n ++ crlf ++ rest) = (.ok (enter n), rest) := by
  have hread : (Numeral.write 16 n).foldlM (Numeral.push? 16) ((none : Option Nat).getD 0) =
      some n := Numeral.foldlM_write (by decide) (by decide) n
  have hcr : (size (some n)).step cr = .ok (.line (sizeEnd n)) := rfl
  have hlf : (sizeEnd n).step lf = .ok (enter n) := rfl
  rw [List.append_assoc, start, advance_digits hread hword fun hnil =>
    absurd hnil (Numeral.write_ne_nil 16 n)]
  show (size (some n)).advance (cr :: lf :: rest) = _
  rw [advance, hcr]
  show (sizeEnd n).advance (lf :: rest) = _
  rw [advance, hlf]
  by_cases hpos : 0 < n <;> simp [enter, hpos]

theorem advance_dataEnd (rest : Bytes) :
    dataEnd.advance (crlf ++ rest) = start.advance rest :=
  rfl

theorem advance_front {line : ChunkLine} {front back : Bytes} {place : ChunkPlace}
    (h : line.advance (front ++ back) = (.ok place, [])) (hback : back ≠ []) :
    ∃ next, line.advance front = (.ok (.line next), []) := by
  rw [advance_append] at h
  rcases hfront : line.advance front with ⟨result, rest⟩
  rw [hfront] at h
  have hstopped : ∀ stopped : Except BodyFault ChunkPlace,
      (stopped, rest ++ back) ≠ (.ok place, []) := by
    intro stopped hsame
    simp [hback] at hsame
  cases result with
  | error fault => exact absurd h (hstopped _)
  | ok reached =>
      cases reached with
      | line next =>
          rw [advance_rest_of_line hfront]
          exact ⟨next, rfl⟩
      | data remaining pos => exact absurd h (hstopped _)
      | trailers => exact absurd h (hstopped _)

end ChunkLine

/-! ## Trailer sections -/

structure Fields.AreTrailers (fields : Fields) : Prop where
  trimmed : fields.AreTrimmed
  count : fields.toList.length ≤ maxTrailerFields
  size : fields.write.length ≤ maxTrailerBytes

instance (fields : Fields) : Decidable fields.AreTrailers :=
  decidable_of_iff (fields.AreTrimmed ∧ fields.toList.length ≤ maxTrailerFields ∧
      fields.write.length ≤ maxTrailerBytes)
    ⟨fun h => ⟨h.1, h.2.1, h.2.2⟩, fun h => ⟨h.trimmed, h.count, h.size⟩⟩

namespace Trailers

theorem scan_write {fields : Fields} (h : fields.AreTrailers) (rest : Bytes) :
    Grammar.fieldLines maxTrailerFields (fields.write ++ rest) =
      .complete (fields.toList.map .ofField) rest :=
  Grammar.fieldLines_write h.count h.trimmed rest

theorem read_write {fields : Fields} (h : fields.AreTrailers) (rest : Bytes) :
    read (fields.write ++ rest) = ⟨.ok (some fields), rest⟩ := by
  simp only [read, scan_write h, Fields.ofRaw_toList]

theorem read_front {fields : Fields} {front back : Bytes} (h : fields.AreTrailers)
    (hsplit : fields.write = front ++ back) (hback : back ≠ []) :
    read front = ⟨.ok none, front⟩ := by
  have hscan := scan_write h []
  rw [List.append_nil, hsplit] at hscan
  have hincomplete :=
    (Grammar.fieldLines_steady maxTrailerFields).incomplete_of_append hscan hback
  have hsize : ¬ maxTrailerBytes < front.length := by
    have hwhole := h.size
    rw [hsplit, List.length_append] at hwhole
    omega
  simp only [read, hincomplete, hsize, if_false]

end Trailers

/-! ## Heads -/

namespace Head

variable {k : Kind} {limits : Limits} {h : Head k}

def IsReadFrom (limits : Limits) (h : Head k) (bytes : Bytes) : Prop :=
  read k limits bytes = ⟨.ok (some h), []⟩

theorem IsReadable.isReadFrom {written : Bytes} (hreadable : h.IsReadable limits written) :
    h.IsReadFrom limits written := by
  have hread := read_write hreadable []
  rwa [List.append_nil] at hread

namespace IsReadFrom

theorem ne_nil {bytes : Bytes} (hread : h.IsReadFrom limits bytes) : bytes ≠ [] := by
  rintro rfl
  have hlt := read_rest_lt (congrArg Reading.answer hread)
  simp at hlt

theorem append {bytes : Bytes} (hread : h.IsReadFrom limits bytes) (more : Bytes) :
    read k limits (bytes ++ more) = ⟨.ok (some h), more⟩ := by
  have hsame : read k limits bytes = ⟨.ok (some h), []⟩ := hread
  rw [read_append (by simp [hsame]) (by simp [hsame]) more, hsame, List.nil_append]

theorem scan {bytes : Bytes} (hread : h.IsReadFrom limits bytes) :
    bytes.length ≤ limits.maxHeadBytes ∧
      ∃ raw, RawHead.scan k limits.maxFields bytes = .complete raw [] := by
  unfold IsReadFrom read at hread
  split at hread
  · simp at hread
  · split at hread <;> simp at hread
  · rename_i raw rest hscan
    dsimp only at hread
    split at hread
    · simp at hread
    · rename_i hsize
      have hrest : rest = [] := by
        split at hread
        · simp at hread
        · split at hread
          · simp at hread
          · exact (Reading.mk.inj hread).2
      subst hrest
      exact ⟨by simpa using hsize, raw, hscan⟩

theorem front {front back : Bytes} (hread : h.IsReadFrom limits (front ++ back))
    (hback : back ≠ []) : read k limits front = ⟨.ok none, front⟩ := by
  obtain ⟨hsize, raw, hscan⟩ := hread.scan
  have hincomplete := (RawHead.scan_steady k limits.maxFields).incomplete_of_append hscan hback
  have hsmall : ¬ limits.maxHeadBytes < front.length := by
    rw [List.length_append] at hsize
    omega
  simp only [read, hincomplete, hsmall, if_false]

end IsReadFrom

end Head

/-! ## Steps of a reader -/

namespace BodyReader

/-- A reader that hands this data out as it comes, whatever of it there is, and waits for as long
as some of it is missing. Behind some of the data it reads on as told. -/
structure HandsOut (reader : BodyReader) (data : Bytes) (behind : Bytes → BodyReader) : Prop where
  waits : reader.readMore [] = ⟨.ok none, reader, []⟩
  reads : ∀ front back, data = front ++ back → front ≠ [] →
    reader.readMore front = ⟨.ok (some (.chunk front)), behind front, []⟩
  more : ∀ front back, data = front ++ back → back ≠ [] →
    (behind front).readMore [] = ⟨.ok none, behind front, []⟩

theorem readMore_line {line : ChunkLine} {place : ChunkPlace} {bytes : Bytes}
    (hadvance : line.advance bytes = (.ok place, []))
    (hwaits : place.readPiece [] = ⟨.ok none, .chunked place, []⟩) :
    (chunked (.line line)).readMore bytes = ⟨.ok none, .chunked place, []⟩ := by
  show (ChunkPlace.line line).read bytes = _
  rw [ChunkPlace.read_line, hadvance]
  exact hwaits

theorem handsOut_length {body : Bytes} (hne : body ≠ []) :
    (length body.length).HandsOut body fun front => .length (body.length - front.length) := by
  have hwaits : ∀ {n : Nat}, 0 < n → (length n).readMore [] = ⟨.ok none, length n, []⟩ := by
    intro n hpos
    obtain ⟨m, rfl⟩ := Nat.exists_eq_succ_of_ne_zero (Nat.ne_of_gt hpos)
    rfl
  have hpos : 0 < body.length := List.length_pos_iff.mpr hne
  refine ⟨hwaits hpos, ?_, ?_⟩
  · intro front back hsplit hfront
    have hle : front.length ≤ body.length := by
      rw [hsplit, List.length_append]
      omega
    rw [readMore_length hpos hfront, List.take_of_length_le hle, List.drop_eq_nil_of_le hle]
  · intro front back hsplit hback
    have hback := List.length_pos_iff.mpr hback
    refine hwaits ?_
    rw [hsplit, List.length_append]
    omega

theorem handsOut_chunk {data : Bytes} (hpos : 0 < data.length) :
    (chunked (.data data.length hpos)).HandsOut data fun front =>
      .chunked (.behindData data.length front.length) := by
  refine ⟨rfl, ?_, ?_⟩
  · intro front back hsplit hfront
    have hle : front.length ≤ data.length := by
      rw [hsplit, List.length_append]
      omega
    show (ChunkPlace.data _ hpos).readPiece front = _
    rw [ChunkPlace.readPiece_data hpos hfront, List.take_of_length_le hle,
      List.drop_eq_nil_of_le hle]
  · intro front back hsplit hback
    have hlt : 0 < data.length - front.length := by
      have hback := List.length_pos_iff.mpr hback
      rw [hsplit, List.length_append]
      omega
    rw [ChunkPlace.behindData, dif_pos hlt]
    rfl

end BodyReader

namespace Decoder

variable {k : Kind} {ρ : Type} {ask : HeadRule k ρ} {limits : Limits} {rule : ρ}

/-! ## Steps in a body -/

theorem decode_of_wait {reader next : BodyReader} {bytes : Bytes}
    (h : reader.readMore bytes = ⟨.ok none, next, []⟩) :
    (⟨limits, .body reader⟩ : Decoder k).decode ask false rule bytes =
      ⟨none, ⟨limits, .body next⟩, rule, []⟩ := by
  rw [decode_body rfl]
  unfold readBody
  rw [read_false, h]

theorem decode_of_item {reader next : BodyReader} {bytes : Bytes} {item : Item}
    (h : reader.readMore bytes = ⟨.ok (some item), next, []⟩) :
    (⟨limits, .body reader⟩ : Decoder k).decode ask false rule bytes =
      ⟨some (.payload item), ⟨limits, if item.isLast then .head else .body next⟩, rule, []⟩ := by
  rw [decode_body rfl]
  unfold readBody
  rw [read_false, h]

/-! A piece of which the end is missing is waited for. -/

theorem decode_headFront {h : Head k} {front back : Bytes}
    (hread : h.IsReadFrom limits (front ++ back)) (hback : back ≠ []) :
    (⟨limits, .head⟩ : Decoder k).decode ask false rule front =
      ⟨none, ⟨limits, .head⟩, rule, front⟩ := by
  rw [decode_head rfl]
  simp [readHead, hread.front hback]

theorem decode_lineFront {line : ChunkLine} {place : ChunkPlace} {front back : Bytes}
    (hadvance : line.advance (front ++ back) = (.ok place, [])) (hback : back ≠ []) :
    ∃ next, (⟨limits, .body (.chunked (.line line))⟩ : Decoder k).decode ask false rule front =
      ⟨none, ⟨limits, .body (.chunked (.line next))⟩, rule, []⟩ := by
  obtain ⟨next, hnext⟩ := ChunkLine.advance_front hadvance hback
  exact ⟨next, decode_of_wait (BodyReader.readMore_line hnext rfl)⟩

theorem decode_trailersFront {trailers : Fields} {front back : Bytes} (h : trailers.AreTrailers)
    (hsplit : trailers.write = front ++ back) (hback : back ≠ []) :
    (⟨limits, .body (.chunked .trailers)⟩ : Decoder k).decode ask false rule front =
      ⟨none, ⟨limits, .body (.chunked .trailers)⟩, rule, front⟩ := by
  have hread := Trailers.read_front h hsplit hback
  rw [decode_body rfl]
  unfold readBody
  rw [read_false]
  simp [BodyReader.readMore, ChunkPlace.read, ChunkPlace.readPiece, hread, Except.map]

namespace Takes

/-- A head, under whatever the rule says about its body. -/
theorem ofReadHead {h framed : Head k} {bytes : Bytes} {rule' : ρ} {bodiless : Bool}
    {framing : Framing} (hread : h.IsReadFrom limits bytes) (hask : ask h rule = (bodiless, rule'))
    (hframe : h.frame limits bodiless = (framed, .ok framing)) :
    Takes ask (⟨limits, .head⟩, rule) bytes [.header framed]
      (⟨limits, .body (.ofFraming framing)⟩, rule') := by
  apply of_message
  · have hwhole : Head.read k limits bytes = ⟨.ok (some h), []⟩ := hread
    rw [decode_head rfl]
    simp only [readHead, hwhole, enter, hask, hframe]
  · rfl
  · rintro front back rfl hback
    rw [drain_of_wait (decode_headFront hread hback)]
    simp

theorem ofHead {h framed : Head k} {written : Bytes} {rule' : ρ} {bodiless : Bool}
    {framing : Framing} (hreadable : h.IsReadable limits written)
    (hask : ask h rule = (bodiless, rule'))
    (hframe : h.frame limits bodiless = (framed, .ok framing)) :
    Takes ask (⟨limits, .head⟩, rule) written [.header framed]
      (⟨limits, .body (.ofFraming framing)⟩, rule') :=
  ofReadHead hreadable.isReadFrom hask hframe

theorem ofLine {line : ChunkLine} {place : ChunkPlace} {bytes : Bytes}
    (hadvance : line.advance bytes = (.ok place, []))
    (hwaits : place.readPiece [] = ⟨.ok none, .chunked place, []⟩) :
    Takes ask (⟨limits, .body (.chunked (.line line))⟩, rule) bytes []
      (⟨limits, .body (.chunked place)⟩, rule) := by
  apply of_wait
  · exact decode_of_wait (BodyReader.readMore_line hadvance hwaits)
  · rintro front back rfl hback
    obtain ⟨next, hnext⟩ := decode_lineFront hadvance hback
    rw [drain_of_wait hnext]
    simp

theorem ofData {reader : BodyReader} {data : Bytes} {behind : Bytes → BodyReader}
    (hne : data ≠ []) (h : reader.HandsOut data behind) :
    Takes ask (⟨limits, .body reader⟩, rule) data [.payload (.chunk data)]
      (⟨limits, .body (behind data)⟩, rule) := by
  apply of_message
  · exact decode_of_item (h.reads data [] (by simp) hne)
  · rfl
  · intro front back hsplit hback
    by_cases hfront : front = []
    · subst hfront
      rw [drain_of_wait (decode_of_wait h.waits)]
      simp
    · rw [drain_of_message (decode_of_item (h.reads front back hsplit hfront))]
      show ∀ m ∈ [Message.payload (.chunk front)] ++ ((source ask).drain false
        (⟨limits, .body (behind front)⟩, rule) []).values, m.isTooLarge = false
      rw [drain_of_wait (decode_of_wait (h.more front back hsplit hback))]
      simp [Message.isTooLarge]

theorem ofDone {reader : BodyReader} (hdone : ∃ next,
    reader.readMore [] = ⟨.ok (some .done), next, []⟩) :
    Takes ask (⟨limits, .body reader⟩, rule) [] [.payload .done] (⟨limits, .head⟩, rule) := by
  obtain ⟨next, hdone⟩ := hdone
  apply of_message
  · exact decode_of_item hdone
  · rfl
  · intro front back hsplit hback
    simp only [List.nil_eq, List.append_eq_nil_iff] at hsplit
    exact absurd hsplit.2 hback

theorem ofTrailers {trailers : Fields} (h : trailers.AreTrailers) :
    Takes ask (⟨limits, .body (.chunked .trailers)⟩, rule) trailers.write
      [.payload (.last [] trailers)] (⟨limits, .head⟩, rule) := by
  apply of_message
  · have hread := Trailers.read_write h []
    rw [List.append_nil] at hread
    have hitem : (BodyReader.chunked .trailers).readMore trailers.write =
        ⟨.ok (some (.last [] trailers)), .chunked .trailers, []⟩ := by
      show ChunkPlace.readPiece .trailers _ = _
      simp only [ChunkPlace.readPiece, hread, Except.map, Option.map]
    exact decode_of_item hitem
  · rfl
  · intro front back hsplit hback
    rw [drain_of_wait (decode_trailersFront h hsplit hback)]
    simp

/-! ## Bodies -/

theorem ofLengthData {body : Bytes} (hne : body ≠ []) :
    Takes ask (⟨limits, .body (.length body.length)⟩, rule) body [.payload (.chunk body)]
      (⟨limits, .body (.length 0)⟩, rule) := by
  have hdata : Takes ask (⟨limits, .body (.length body.length)⟩, rule) body
      [.payload (.chunk body)] (⟨limits, .body (.length (body.length - body.length))⟩, rule) :=
    ofData hne (BodyReader.handsOut_length hne)
  rwa [Nat.sub_self] at hdata

theorem ofLength (body : Bytes) :
    Takes ask (⟨limits, .body (.length body.length)⟩, rule) body
      (Message.chunkOf body ++ [.payload .done]) (⟨limits, .head⟩, rule) := by
  by_cases hne : body = []
  · subst hne
    exact ofDone ⟨_, rfl⟩
  · have hdone : Takes ask (⟨limits, .body (.length 0)⟩, rule) [] [.payload .done]
        (⟨limits, .head⟩, rule) := ofDone ⟨_, rfl⟩
    simpa [Message.chunkOf, hne] using (ofLengthData hne).trans hdone

theorem ofNothing :
    Takes ask (⟨limits, .body .empty⟩, rule) [] [.payload .done] (⟨limits, .head⟩, rule) :=
  ofDone ⟨_, rfl⟩

theorem ofSizeLine {n : Nat} (hpos : 0 < n) (hword : n < Numeral.wordBound) :
    Takes ask (⟨limits, .body (.chunked (.line .start))⟩, rule) (Numeral.write 16 n ++ crlf) []
      (⟨limits, .body (.chunked (.data n hpos))⟩, rule) := by
  have hline := ChunkLine.advance_sizeLine hword []
  rw [List.append_nil, ChunkLine.enter, dif_pos hpos] at hline
  exact ofLine hline rfl

theorem ofChunkData {data : Bytes} (hpos : 0 < data.length) :
    Takes ask (⟨limits, .body (.chunked (.data data.length hpos))⟩, rule) data
      [.payload (.chunk data)] (⟨limits, .body (.chunked (.line .dataEnd))⟩, rule) := by
  have hdata : Takes ask (⟨limits, .body (.chunked (.data data.length hpos))⟩, rule) data
      [.payload (.chunk data)]
      (⟨limits, .body (.chunked (.behindData data.length data.length))⟩, rule) :=
    ofData (List.length_pos_iff.mp hpos) (BodyReader.handsOut_chunk hpos)
  rwa [show ChunkPlace.behindData data.length data.length = .line .dataEnd by
    simp [ChunkPlace.behindData]] at hdata

theorem ofDataEnd :
    Takes ask (⟨limits, .body (.chunked (.line .dataEnd))⟩, rule) crlf []
      (⟨limits, .body (.chunked (.line .start))⟩, rule) :=
  ofLine (ChunkLine.advance_dataEnd []) rfl

/-- One chunk, with its size line before it and its line end behind it. -/
theorem ofChunk {data : Bytes} (hword : data.length < Numeral.wordBound) :
    Takes ask (⟨limits, .body (.chunked (.line .start))⟩, rule) (Chunk.write data)
      (Message.chunkOf data) (⟨limits, .body (.chunked (.line .start))⟩, rule) := by
  by_cases hne : data = []
  · subst hne
    exact refl _
  · have hpos : 0 < data.length := List.length_pos_iff.mpr hne
    simpa [Chunk.write, Message.chunkOf, hne] using
      ((ofSizeLine hpos hword).trans (ofChunkData hpos)).trans ofDataEnd

theorem ofChunks {chunks : List Bytes} (hword : ∀ data ∈ chunks, data.length < Numeral.wordBound) :
    Takes ask (⟨limits, .body (.chunked (.line .start))⟩, rule) (chunks.flatMap Chunk.write)
      (chunks.flatMap Message.chunkOf) (⟨limits, .body (.chunked (.line .start))⟩, rule) := by
  induction chunks with
  | nil => exact refl _
  | cons data chunks ih =>
      rw [List.forall_mem_cons] at hword
      exact (ofChunk hword.1).trans (ih hword.2)

theorem ofChunkEnd {trailers : Fields} (h : trailers.AreTrailers) :
    Takes ask (⟨limits, .body (.chunked (.line .start))⟩, rule) (Chunk.writeEnd trailers)
      [.payload (.last [] trailers)] (⟨limits, .head⟩, rule) := by
  have hline : ChunkLine.start.advance (ascii "0" ++ crlf) = (.ok .trailers, []) := rfl
  exact (ofLine hline rfl).trans (ofTrailers h)

/-- A body in chunks, with trailers. -/
theorem ofChunked {chunks : List Bytes} {trailers : Fields}
    (hword : ∀ data ∈ chunks, data.length < Numeral.wordBound) (h : trailers.AreTrailers) :
    Takes ask (⟨limits, .body (.chunked (.line .start))⟩, rule)
      (chunks.flatMap Chunk.write ++ Chunk.writeEnd trailers)
      (Message.chunkOf chunks.flatten ++ [.payload (.last [] trailers)])
      (⟨limits, .head⟩, rule) :=
  ((ofChunks hword).trans (ofChunkEnd h)).congr (Message.join_flatMap_chunkOf _ _)

end Takes

end Decoder

end HttpFraming
