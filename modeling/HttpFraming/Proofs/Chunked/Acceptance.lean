import HttpFraming.Proofs.Arrival.Exactness
import HttpFraming.Proofs.Chunked.Grammar
import HttpFraming.Source

/-!
# Chunked bodies are accepted by their grammar

A chunked body that is drained on its own reaches its end exactly on the bytes of a chunked body,
with the data and the trailers of it, and leaves what stands behind. Before the trailers it fails
as soon as no chunked body begins with the bytes, and never earlier:
`BodyReader.drain_chunked_iff`. A drain that begins at any place either reaches the trailers
through what leads there, or waits where something still leads there, or fails where nothing
does: `ChunkPlace.follows`.
-/

namespace HttpFraming

open Bytes

/-! ## A body on its own -/

def BodyReading.pull (reading : BodyReading) : Pull (Option BodyReader) Item :=
  match reading with
  | ⟨.ok (some item), next, rest⟩ =>
      ⟨.ok (some item), if item.isLast then none else some next, rest⟩
  | ⟨.ok none, next, rest⟩ => ⟨.ok none, some next, rest⟩
  | ⟨.error cause, next, rest⟩ => ⟨.error (.read cause), some next, rest⟩

theorem BodyReading.pull_lt {reading : BodyReading} {item : Item} {size : Nat}
    (h : reading.pull.answer = .ok (some item)) (hle : reading.rest.length ≤ size)
    (hlt : ∀ data, reading.answer = .ok (some (.chunk data)) → reading.rest.length < size) :
    2 * reading.pull.rest.length + reading.pull.state.toList.length < 2 * size + 1 := by
  rcases reading with ⟨answer, next, rest⟩
  rcases answer with cause | _ | piece
  · cases h
  · cases h
  · cases piece with
    | chunk data =>
        have hlt := hlt data rfl
        simp only [pull, Item.isLast, Bool.false_eq_true, if_false, Option.toList_some,
          List.length_singleton] at hlt ⊢
        omega
    | last data trailers =>
        simp only [pull, Item.isLast, if_true, Option.toList_none, List.length_nil] at hle ⊢
        omega

namespace BodyReader

/-- A body as a source of its pieces. Behind the last piece there are none. -/
def source : Source (Option BodyReader) Item where
  pull ended reader? bytes :=
    match reader? with
    | none => ⟨.ok none, none, bytes⟩
    | some reader => (reader.read ended bytes).pull
  weight reader? := reader?.toList.length
  pull_lt ended reader? bytes item h := by
    cases reader? with
    | none => cases h
    | some reader =>
        exact BodyReading.pull_lt h (reader.read_rest_le ended bytes) fun _ => read_chunk_lt

variable {reader next : BodyReader} {bytes rest : Bytes}

theorem drain_of_item {item : Item}
    (h : reader.readMore bytes = ⟨.ok (some item), next, rest⟩) :
    source.drain false (some reader) bytes =
      (source.drain false (if item.isLast then none else some next) rest).after [item] := by
  refine Source.drain_of_value ?_
  simp [source, BodyReading.pull, Decoder.read_false, h]

theorem drain_of_wait (h : reader.readMore bytes = ⟨.ok none, next, rest⟩) :
    source.drain false (some reader) bytes = ⟨[], none, some next, rest⟩ := by
  refine Source.drain_of_none ?_
  simp [source, BodyReading.pull, Decoder.read_false, h]

theorem drain_of_error {cause : ReadError} (h : reader.readMore bytes = ⟨.error cause, next, rest⟩) :
    source.drain false (some reader) bytes = ⟨[], some (.read cause), some next, rest⟩ := by
  refine Source.drain_of_error ?_
  simp [source, BodyReading.pull, Decoder.read_false, h]

theorem drain_done (bytes : Bytes) : source.drain false none bytes = ⟨[], none, none, bytes⟩ :=
  Source.drain_of_none rfl

end BodyReader

namespace ChunkPlace

def drained (place : ChunkPlace) (bytes : Bytes) : Drained (Option BodyReader) Item :=
  BodyReader.source.drain false (some (.chunked place)) bytes

theorem drained_line {between : ChunkLine} {n : Nat} {bytes rest : Bytes}
    (h : between.advance bytes = (.ok (ChunkLine.enter n), rest)) :
    (line between).drained bytes = (ChunkLine.enter n).drained rest := by
  have hread : (BodyReader.chunked (line between)).readMore bytes =
      (BodyReader.chunked (ChunkLine.enter n)).readMore rest := by
    show (line between).read bytes = (ChunkLine.enter n).read rest
    rw [read_line, h, read_of_not_line (ChunkLine.enter_ne_line n)]
  refine Source.drain_congr ?_
  simp only [BodyReader.source, Decoder.read_false, hread]

theorem drained_data {remaining : Nat} (hpos : 0 < remaining) {bytes : Bytes} (hne : bytes ≠ []) :
    (data remaining hpos).drained bytes =
      ((behindData remaining (bytes.take remaining).length).drained (bytes.drop remaining)).after
        [.chunk (bytes.take remaining)] :=
  BodyReader.drain_of_item (readPiece_data hpos hne)

/-! ## What leads to the trailers is followed -/

theorem drained_of_leads {place : ChunkPlace} {front rest : Bytes} (h : place.Leads front rest)
    (behind : Bytes) :
    ∃ chunks : List Bytes, chunks.flatten = rest ∧
      place.drained (front ++ behind) = (trailers.drained behind).after (chunks.map .chunk) := by
  induction h with
  | trailers => exact ⟨[], rfl, rfl⟩
  | @line between n head more rest hhead hmore ih =>
      obtain ⟨chunks, hflatten, hdrained⟩ := ih
      have hline := ChunkLine.advance_iff.mpr ⟨head, (List.append_assoc head more behind), hhead⟩
      exact ⟨chunks, hflatten, (drained_line hline).trans hdrained⟩
  | @data piece more rest hpos hmore ih =>
      obtain ⟨chunks, hflatten, hdrained⟩ := ih
      refine ⟨piece :: chunks, by rw [List.flatten_cons, hflatten], ?_⟩
      have hne : piece ++ (more ++ behind) ≠ [] := by
        intro hnil
        simp [(List.append_eq_nil_iff.mp hnil).1] at hpos
      have hbehind : behindData piece.length piece.length = .line .dataEnd := by
        simp [behindData]
      rw [List.append_assoc, drained_data hpos hne, List.take_left, List.drop_left, hbehind,
        hdrained, Drained.after_after]
      rfl

theorem leads_piece_iff {remaining : Nat} {hpos : 0 < remaining} {piece : Bytes}
    (hpiece : piece.length ≤ remaining) {more rest : Bytes} :
    (data remaining hpos).Leads (piece ++ more) rest ↔
      ∃ rest', rest = piece ++ rest' ∧ (behindData remaining piece.length).Leads more rest' := by
  unfold behindData
  split
  · rename_i hleft
    simp only [data_leads_iff]
    constructor
    · rintro ⟨whole, behind, rest', hlength, hsplit, rfl, hmore⟩
      obtain ⟨left, rfl, rfl⟩ : ∃ left, whole = piece ++ left ∧ more = left ++ behind := by
        rcases List.append_eq_append_iff.mp hsplit with ⟨left, rfl, rfl⟩ | ⟨left, rfl, rfl⟩
        · exact ⟨left, rfl, rfl⟩
        · rw [List.length_append] at hpiece
          have hnil : left = [] := List.length_eq_zero_iff.mp (by omega)
          exact ⟨[], by simp [hnil], by simp [hnil]⟩
      refine ⟨left ++ rest', by simp, left, behind, rest', ?_, rfl, rfl, hmore⟩
      rw [List.length_append] at hlength
      omega
    · rintro ⟨_, rfl, left, behind, rest', hlength, rfl, rfl, hmore⟩
      refine ⟨piece ++ left, behind, rest', ?_, by simp, by simp, hmore⟩
      rw [List.length_append]
      omega
  · rename_i hleft
    have hlength : piece.length = remaining := by omega
    rw [data_leads_iff]
    constructor
    · rintro ⟨whole, behind, rest', hwhole, hsplit, rfl, hmore⟩
      obtain ⟨rfl, rfl⟩ := List.append_inj hsplit (hlength.trans hwhole.symm)
      exact ⟨rest', rfl, hmore⟩
    · rintro ⟨rest', rfl, hmore⟩
      exact ⟨piece, more, rest', hlength, rfl, rfl, hmore⟩

/-! ## Every drain -/

/-- What becomes of a chunked body that is drained from a place: the trailers are reached through
what leads there, or it waits where something still does, or fails where nothing does. -/
inductive Follows (place : ChunkPlace) (bytes : Bytes) : Drained (Option BodyReader) Item → Prop
  | reaches (chunks : List Bytes) {front rest : Bytes} (hsplit : bytes = front ++ rest)
      (hleads : place.Leads front chunks.flatten) :
      Follows place bytes ((trailers.drained rest).after (chunks.map .chunk))
  | waits (chunks : List Bytes) {next : ChunkPlace} (hnext : next ≠ trailers)
      (hmore : ∃ more rest, place.Leads (bytes ++ more) rest) :
      Follows place bytes ⟨chunks.map .chunk, none, some (.chunked next), []⟩
  | fails (chunks : List Bytes) {next : ChunkPlace} {rest : Bytes} {cause : ReadError}
      (hnext : next ≠ trailers) (hnone : ∀ more rest, ¬ place.Leads (bytes ++ more) rest) :
      Follows place bytes ⟨chunks.map .chunk, some (.read cause), some (.chunked next), rest⟩

namespace Follows

variable {place : ChunkPlace} {bytes : Bytes} {result : Drained (Option BodyReader) Item}

theorem line {between : ChunkLine} {n : Nat} {head : Bytes} (hhead : between.Leads n head)
    (h : Follows (ChunkLine.enter n) bytes result) :
    Follows (.line between) (head ++ bytes) result := by
  cases h with
  | @reaches chunks front rest hsplit hleads =>
      subst hsplit
      exact .reaches chunks (List.append_assoc ..).symm (.line hhead hleads)
  | waits chunks hnext hmore =>
      obtain ⟨more, rest, hmore⟩ := hmore
      refine .waits chunks hnext ⟨more, rest, ?_⟩
      rw [List.append_assoc]
      exact .line hhead hmore
  | fails chunks hnext hnone =>
      refine .fails chunks hnext fun more rest hleads => ?_
      obtain ⟨m, head', more', hsplit, hhead', hmore'⟩ := line_leads_iff.mp hleads
      rw [List.append_assoc] at hsplit
      have hfirst : between.advance (head ++ (bytes ++ more)) = _ :=
        ChunkLine.advance_iff.mpr ⟨head, rfl, hhead⟩
      have hsecond := ChunkLine.advance_iff.mpr ⟨head', hsplit, hhead'⟩
      rw [hfirst] at hsecond
      obtain ⟨hplace, rfl⟩ := Prod.mk.inj hsecond
      obtain rfl := ChunkLine.enter_inj (Except.ok.inj hplace)
      exact hnone more rest hmore'

theorem piece {remaining : Nat} {hpos : 0 < remaining} {piece : Bytes}
    (hpiece : piece.length ≤ remaining)
    (h : Follows (behindData remaining piece.length) bytes result) :
    Follows (.data remaining hpos) (piece ++ bytes) (result.after [.chunk piece]) := by
  have hchunks : ∀ (chunks : List Bytes) (drained : Drained (Option BodyReader) Item),
      (drained.after (chunks.map .chunk)).after [.chunk piece] =
        drained.after ((piece :: chunks).map .chunk) := by
    intro chunks drained
    rw [Drained.after_after]
    rfl
  cases h with
  | @reaches chunks front rest hsplit hleads =>
      subst hsplit
      rw [hchunks]
      refine .reaches _ (List.append_assoc ..).symm ?_
      exact (leads_piece_iff hpiece).mpr ⟨_, rfl, hleads⟩
  | waits chunks hnext hmore =>
      obtain ⟨more, rest, hmore⟩ := hmore
      refine .waits (piece :: chunks) hnext ⟨more, piece ++ rest, ?_⟩
      rw [List.append_assoc]
      exact (leads_piece_iff hpiece).mpr ⟨rest, rfl, hmore⟩
  | fails chunks hnext hnone =>
      refine .fails (piece :: chunks) hnext fun more rest hleads => ?_
      rw [List.append_assoc] at hleads
      obtain ⟨rest', -, hmore⟩ := (leads_piece_iff hpiece).mp hleads
      exact hnone more rest' hmore

end Follows

theorem follows_of_open {between next : ChunkLine} {bytes rest : Bytes}
    (h : between.advance bytes = (.ok (.line next), rest)) :
    (line between).Follows bytes ((line between).drained bytes) := by
  have hrest := ChunkLine.advance_rest_of_line h
  subst hrest
  have hdrained : (line between).drained bytes = ⟨[], none, some (.chunked (line next)), []⟩ :=
    BodyReader.drain_of_wait (BodyReader.readMore_line h rfl)
  obtain ⟨n, head, hhead⟩ := next.exists_leads
  obtain ⟨more, data, hmore⟩ := (ChunkLine.enter n).exists_leads
  have hline : between.advance (bytes ++ head) = (.ok (ChunkLine.enter n), []) := by
    rw [ChunkLine.advance_append, h]
    exact ChunkLine.advance_iff.mpr ⟨head, (List.append_nil head).symm, hhead⟩
  obtain ⟨whole, hwhole, hleads⟩ := ChunkLine.advance_iff.mp hline
  rw [List.append_nil] at hwhole
  rw [hdrained]
  refine .waits [] (by simp) ⟨head ++ more, data, ?_⟩
  rw [← List.append_assoc, hwhole]
  exact .line hleads hmore

theorem follows_of_fault {between : ChunkLine} {bytes rest : Bytes} {fault : BodyFault}
    (h : between.advance bytes = (.error fault, rest)) :
    (line between).Follows bytes ((line between).drained bytes) := by
  have hread : (BodyReader.chunked (line between)).readMore bytes =
      ⟨.error (.invalidBody fault), .chunked (line between), rest⟩ := by
    show (line between).read bytes = _
    rw [read_line, h]
  have hdrained : (line between).drained bytes = _ := BodyReader.drain_of_error hread
  rw [hdrained]
  refine .fails [] (by simp) fun more data hleads => ?_
  obtain ⟨n, head, behind, hsplit, hhead, -⟩ := line_leads_iff.mp hleads
  have hline := ChunkLine.advance_iff.mpr ⟨head, hsplit, hhead⟩
  rw [ChunkLine.advance_append, h] at hline
  cases hline

theorem follows (place : ChunkPlace) (bytes : Bytes) :
    place.Follows bytes (place.drained bytes) := by
  induction hlength : bytes.length using Nat.strongRecOn generalizing place bytes with
  | ind length ih =>
      cases place with
      | trailers => exact .reaches [] (List.nil_append bytes).symm .trailers
      | line between =>
          rcases hline : between.advance bytes with ⟨result, rest⟩
          cases result with
          | error fault => exact follows_of_fault hline
          | ok reached =>
              by_cases hopen : ∃ next, reached = .line next
              · obtain ⟨next, rfl⟩ := hopen
                exact follows_of_open hline
              · obtain ⟨n, rfl⟩ := eq_enter fun next h => hopen ⟨next, h⟩
                have hshorter := ChunkLine.advance_rest_lt (congrArg Prod.fst hline)
                  (ChunkLine.enter_ne_line n)
                rw [hline, hlength] at hshorter
                rw [drained_line hline]
                obtain ⟨head, rfl, hhead⟩ := ChunkLine.advance_iff.mp hline
                exact .line hhead (ih _ hshorter _ rest rfl)
      | data remaining hpos =>
          by_cases hne : bytes = []
          · subst hne
            obtain ⟨more, rest, hmore⟩ := (data remaining hpos).exists_leads
            have hdrained : (data remaining hpos).drained [] =
                ⟨[], none, some (.chunked (data remaining hpos)), []⟩ :=
              BodyReader.drain_of_wait rfl
            rw [hdrained]
            exact .waits [] (by simp) ⟨more, rest, hmore⟩
          · have hshorter : (bytes.drop remaining).length < length := by
              have hbytes := List.length_pos_iff.mpr hne
              rw [List.length_drop]
              omega
            rw [drained_data hpos hne]
            have hpiece : (bytes.take remaining).length ≤ remaining := by
              rw [List.length_take]
              omega
            have hmore : (data remaining hpos).Follows
                (bytes.take remaining ++ bytes.drop remaining) _ :=
              .piece hpiece
                (ih _ hshorter (behindData remaining (bytes.take remaining).length) _ rfl)
            rwa [List.take_append_drop] at hmore

/-! ## Trailers -/

theorem drained_trailers_of_section {lines : Bytes} {fields : Fields}
    (h : IsTrailerSection lines fields) (rest : Bytes) :
    trailers.drained (lines ++ rest) = ⟨[.last [] fields], none, none, rest⟩ := by
  obtain ⟨raw, hscan, hfields⟩ := h
  have hmore := (Grammar.fieldLines_steady maxTrailerFields).complete hscan rest
  rw [List.nil_append] at hmore
  have hitem : (BodyReader.chunked trailers).readMore (lines ++ rest) =
      ⟨.ok (some (.last [] fields)), .chunked trailers, rest⟩ := by
    show trailers.readPiece _ = _
    simp only [readPiece, Trailers.read, hmore, hfields, Except.map, Option.map]
  have hdrained : trailers.drained (lines ++ rest) = _ := BodyReader.drain_of_item hitem
  rw [hdrained, Item.isLast, if_pos rfl, BodyReader.drain_done]
  rfl

theorem drained_trailers_cases (bytes : Bytes) :
    (∃ lines fields rest, bytes = lines ++ rest ∧ IsTrailerSection lines fields) ∨
      (trailers.drained bytes).values = [] ∧
        (trailers.drained bytes).state = some (.chunked trailers) := by
  have hread : (BodyReader.chunked trailers).readMore bytes =
      ⟨(Trailers.read bytes).answer.map (·.map fun fields => .last [] fields), .chunked trailers,
        (Trailers.read bytes).rest⟩ := rfl
  cases hanswer : (Trailers.read bytes).answer with
  | error cause =>
      rw [hanswer] at hread
      have hdrained : trailers.drained bytes = _ := BodyReader.drain_of_error hread
      exact .inr (by simp [hdrained])
  | ok fields? =>
      rw [hanswer] at hread
      cases fields? with
      | none =>
          have hdrained : trailers.drained bytes = _ := BodyReader.drain_of_wait hread
          exact .inr (by simp [hdrained])
      | some fields =>
          unfold Trailers.read at hanswer
          split at hanswer
          · cases hanswer
          · split at hanswer <;> cases hanswer
          · rename_i raw rest hscan
            split at hanswer
            · cases hanswer
            · rename_i fields' hfields
              obtain ⟨lines, hsplit, hlines⟩ :=
                Grammar.fieldLines_exact maxTrailerFields bytes raw rest hscan
              exact .inl ⟨lines, fields', rest, hsplit, raw, hlines, hfields⟩

theorem state_of_leads {place : ChunkPlace} {front rest : Bytes} (h : place.Leads front rest)
    (behind : Bytes) :
    (place.drained (front ++ behind)).state = some (.chunked trailers) ∨
      (place.drained (front ++ behind)).state = none := by
  obtain ⟨chunks, -, hdrained⟩ := drained_of_leads h behind
  rw [hdrained, Drained.after_state]
  rcases drained_trailers_cases behind with ⟨lines, fields, later, rfl, hlines⟩ | ⟨-, hstate⟩
  · rw [drained_trailers_of_section hlines]
    exact .inr rfl
  · exact .inl hstate

end ChunkPlace

/-! ## Acceptance -/

theorem Item.last_notMem_chunks (data : Bytes) (trailers : Fields) (chunks : List Bytes) :
    Item.last data trailers ∉ chunks.map Item.chunk := by
  simp

namespace BodyReader

/-- A chunked body is drained to its end exactly where the bytes begin with one, and gives its
data, in some pieces, and its trailers. What stands behind it is left. -/
theorem drain_chunked_last_iff {bytes data rest : Bytes} {trailers : Fields} :
    let drained := source.drain false (some (.ofFraming .chunked)) bytes
    (∃ chunks : List Bytes, drained.values = chunks.map .chunk ++ [.last [] trailers] ∧
        chunks.flatten = data ∧ drained.rest = rest) ↔
      ∃ body, bytes = body ++ rest ∧ IsChunkedBody body data trailers := by
  intro drained
  have hfollows : (ChunkPlace.line .start).Follows bytes drained := ChunkPlace.follows _ bytes
  constructor
  · rintro ⟨chunks, hvalues, rfl, rfl⟩
    have hlast : Item.last [] trailers ∈ drained.values := by simp [hvalues]
    generalize drained = result at *
    cases hfollows with
    | @reaches chunks' front behind hsplit hleads =>
        rcases ChunkPlace.drained_trailers_cases behind with
          ⟨lines, fields, rest, rfl, hlines⟩ | ⟨hnone, -⟩
        · rw [ChunkPlace.drained_trailers_of_section hlines] at hvalues ⊢
          obtain ⟨hchunks, hfields⟩ := List.append_inj' hvalues rfl
          have hsame : chunks' = chunks :=
            (List.map_inj_right fun _ _ => Item.chunk.inj).mp hchunks
          obtain rfl : fields = trailers := by simpa using hfields
          subst hsame
          exact ⟨front ++ lines, by rw [hsplit, List.append_assoc]; rfl, front, lines, rfl,
            ChunkPlace.start_leads_iff.mp hleads, hlines⟩
        · rw [Drained.after_values, hnone, List.append_nil] at hlast
          exact (Item.last_notMem_chunks _ _ _ hlast).elim
    | waits chunks hnext hmore => exact (Item.last_notMem_chunks _ _ _ hlast).elim
    | fails chunks hnext hnone => exact (Item.last_notMem_chunks _ _ _ hlast).elim
  · rintro ⟨body, rfl, front, lines, rfl, hchunks, hlines⟩
    obtain ⟨chunks, hflatten, hdrained⟩ :=
      ChunkPlace.drained_of_leads (ChunkPlace.start_leads_iff.mpr hchunks) (lines ++ rest)
    rw [← List.append_assoc, ChunkPlace.drained_trailers_of_section hlines] at hdrained
    have hvalues : drained = _ := hdrained
    rw [hvalues]
    exact ⟨chunks, rfl, hflatten, rfl⟩

/-- Before the trailers a chunked body fails exactly where no chunked body begins with the
bytes. -/
theorem drain_chunked_error_iff {bytes : Bytes} :
    let drained := source.drain false (some (.ofFraming .chunked)) bytes
    drained.state ≠ some (.chunked .trailers) → drained.state ≠ none →
      (drained.error?.isSome = true ↔
        ∀ body data trailers, IsChunkedBody body data trailers → ¬ bytes <+: body) := by
  intro drained hbefore hunfinished
  have hfollows : (ChunkPlace.line .start).Follows bytes drained := ChunkPlace.follows _ bytes
  have hreached : ∀ {front data rest}, (ChunkPlace.line .start).Leads front data →
      bytes ≠ front ++ rest := by
    rintro front data rest hleads rfl
    rcases ChunkPlace.state_of_leads hleads rest with hstate | hstate
    · exact hbefore hstate
    · exact hunfinished hstate
  generalize drained = result at hfollows
  cases hfollows with
  | reaches chunks hsplit hleads => exact absurd hsplit (hreached hleads)
  | waits chunks hnext hmore =>
      obtain ⟨more, data, hleads⟩ := hmore
      have hlines : IsTrailerSection crlf ∅ := ⟨[], rfl, rfl⟩
      have hbody : IsChunkedBody (bytes ++ more ++ crlf) data ∅ :=
        ⟨_, _, rfl, ChunkPlace.start_leads_iff.mp hleads, hlines⟩
      simp only [Option.isSome_none, Bool.false_eq_true, false_iff]
      intro hnone
      exact hnone _ _ _ hbody ⟨more ++ crlf, (List.append_assoc ..).symm⟩
  | fails chunks hnext hnone =>
      simp only [Option.isSome_some, true_iff]
      rintro body data trailers ⟨front, lines, rfl, hchunks, -⟩ ⟨more, hprefix⟩
      have hleads := ChunkPlace.start_leads_iff.mpr hchunks
      -- The body may have its trailers within the bytes only if these have been reached.
      rcases List.append_eq_append_iff.mp hprefix with ⟨later, hfront, -⟩ | ⟨rest, hbytes, -⟩
      · rw [hfront] at hleads
        exact hnone later data hleads
      · exact absurd hbytes (hreached hleads)

/-- Drained on its own, a chunked body accepts exactly the grammar of chunked bodies. It comes to
its last piece, with the data and the trailers before the bytes that are left, exactly where a
chunked body with that data and those trailers stands before them. As long as it has not come to
the trailers, it has failed exactly if the bytes begin no chunked body. -/
theorem drain_chunked_iff (bytes : Bytes) :
    let drained := source.drain false (some (.ofFraming .chunked)) bytes
    (∀ data trailers rest,
      (∃ chunks : List Bytes, drained.values = chunks.map .chunk ++ [.last [] trailers] ∧
          chunks.flatten = data ∧ drained.rest = rest) ↔
        ∃ body, bytes = body ++ rest ∧ IsChunkedBody body data trailers) ∧
      (drained.state ≠ some (.chunked .trailers) → drained.state ≠ none →
        (drained.error?.isSome = true ↔
          ∀ body data trailers, IsChunkedBody body data trailers → ¬ bytes <+: body)) :=
  ⟨fun _ _ _ => drain_chunked_last_iff, drain_chunked_error_iff⟩

end BodyReader

end HttpFraming
