import HttpFraming.Message.Decoder
import HttpFraming.Proofs.Arrival.Scanning

/-!
# Reading steps under more bytes

What a head reader, a trailer reader and a body reader make of bytes to which more are
added. Only a size limit can tell in how many pieces the bytes came, so each statement
leaves out the failure `ReadError.isTooLarge`.
-/

namespace HttpFraming

open Bytes

def ReadError.isTooLarge : ReadError → Bool
  | headTooLarge _ _ => true
  | _ => false

def Message.isTooLarge : Message k → Bool
  | .failure reason => reason.cause.isTooLarge
  | _ => false

/-! ## Heads and trailers -/

/-- An answer that a head reader gives early stays the answer. -/
theorem Head.read_append {k : Kind} {limits : Limits} {bytes : Bytes}
    (hanswer : (Head.read k limits bytes).answer ≠ .ok none)
    (hsize : ∀ cause, (Head.read k limits bytes).answer = .error cause → cause.isTooLarge = false)
    (more : Bytes) :
    Head.read k limits (bytes ++ more) =
      ⟨(Head.read k limits bytes).answer, (Head.read k limits bytes).rest ++ more⟩ := by
  unfold Head.read at hanswer hsize ⊢
  cases hscan : RawHead.scan k limits.maxFields bytes with
  | incomplete =>
      simp only [hscan] at hanswer hsize
      split at hanswer
      · rename_i hlarge
        simp [hlarge, ReadError.isTooLarge] at hsize
      · exact absurd rfl hanswer
  | invalid fault =>
      rw [RawHead.scan_steady k limits.maxFields bytes more (by simp [hscan]), hscan]
      rfl
  | complete raw rest =>
      rw [(RawHead.scan_steady k limits.maxFields).complete hscan more]
      have hlength : (bytes ++ more).length - (rest ++ more).length =
          bytes.length - rest.length := by
        simp only [List.length_append]
        omega
      dsimp only
      rw [hlength]
      split
      · rfl
      · split
        · rfl
        · split <;> rfl

theorem Trailers.read_append {bytes : Bytes} (hanswer : (Trailers.read bytes).answer ≠ .ok none)
    (hsize : ∀ cause, (Trailers.read bytes).answer = .error cause → cause.isTooLarge = false)
    (more : Bytes) :
    Trailers.read (bytes ++ more) =
      ⟨(Trailers.read bytes).answer, (Trailers.read bytes).rest ++ more⟩ := by
  unfold Trailers.read at hanswer hsize ⊢
  cases hscan : Grammar.fieldLines maxTrailerFields bytes with
  | incomplete =>
      simp only [hscan] at hanswer hsize
      split at hanswer
      · rename_i hlarge
        simp [hlarge, ReadError.isTooLarge] at hsize
      · exact absurd rfl hanswer
  | invalid fault =>
      rw [Grammar.fieldLines_steady maxTrailerFields bytes more (by simp [hscan]), hscan]
      rfl
  | complete raw rest =>
      rw [(Grammar.fieldLines_steady maxTrailerFields).complete hscan more]
      dsimp only
      split <;> rfl

theorem Head.read_rest_of_none {k : Kind} {limits : Limits} {bytes : Bytes}
    (hanswer : (Head.read k limits bytes).answer = .ok none) :
    (Head.read k limits bytes).rest = bytes := by
  unfold Head.read at hanswer ⊢
  split
  · rfl
  · split <;> rfl
  · rename_i raw rest hscan
    simp only [hscan] at hanswer
    split at hanswer
    · cases hanswer
    · split at hanswer
      · cases hanswer
      · split at hanswer <;> cases hanswer

theorem Trailers.read_rest_of_none {bytes : Bytes}
    (hanswer : (Trailers.read bytes).answer = .ok none) : (Trailers.read bytes).rest = bytes := by
  unfold Trailers.read at hanswer ⊢
  split
  · rfl
  · split <;> rfl
  · rename_i raw rest hscan
    simp only [hscan] at hanswer
    split at hanswer <;> cases hanswer

/-! ## Lines between chunks -/

namespace ChunkLine

/-- Following a line through bytes is following it through their front and then, where it
has not ended, through their back. -/
theorem advance_append (line : ChunkLine) (front back : Bytes) :
    line.advance (front ++ back) =
      match line.advance front with
      | (.ok (.line next), _) => next.advance back
      | (stopped, rest) => (stopped, rest ++ back) := by
  induction front generalizing line with
  | nil => rfl
  | cons b rest ih =>
      simp only [List.cons_append, advance]
      cases hstep : line.step b with
      | error fault => rfl
      | ok place =>
          cases place with
          | line next => exact ih next
          | data remaining pos => rfl
          | trailers => rfl

theorem advance_rest_of_line {line next : ChunkLine} {bytes rest : Bytes}
    (h : line.advance bytes = (.ok (.line next), rest)) : rest = [] := by
  induction bytes generalizing line with
  | nil =>
      simp only [advance, Prod.mk.injEq] at h
      exact h.2.symm
  | cons b more ih =>
      unfold advance at h
      split at h
      · cases h
      · exact ih h
      · rename_i place hne _
        simp only [Prod.mk.injEq, Except.ok.injEq] at h
        exact absurd h.1 (hne next)

end ChunkLine

/-! ## Pieces of bodies -/

/-- What a reading step gives on more bytes: the same, or a longer piece of data, of which
the second half is what the next step would have given. -/
inductive BodyReading.Grown (first : BodyReading) (more : Bytes) : BodyReading → Prop
  | same : Grown first more ⟨first.answer, first.next, first.rest ++ more⟩
  | longer (data second : Bytes) (next : BodyReader) (rest : Bytes)
      (hfirst : first.answer = .ok (some (.chunk data))) (hrest : first.rest = [])
      (hsecond : first.next.readMore more = ⟨.ok (some (.chunk second)), next, rest⟩) :
      Grown first more ⟨.ok (some (.chunk (data ++ second))), next, rest⟩

theorem BodyReading.Grown.nil (first : BodyReading) : first.Grown [] first := by
  have h : first.Grown [] ⟨first.answer, first.next, first.rest ++ []⟩ := .same
  rwa [List.append_nil] at h

/-- Two steps with the same result. What reads on after a failure is of no account. -/
structure BodyReading.Alike (first second : BodyReading) : Prop where
  answer : first.answer = second.answer
  rest : first.rest = second.rest
  next : ∀ item?, first.answer = .ok item? → first.next = second.next

theorem BodyReading.Alike.refl (reading : BodyReading) : reading.Alike reading :=
  ⟨rfl, rfl, fun _ _ => rfl⟩

namespace ChunkPlace

def behindData (remaining taken : Nat) : ChunkPlace :=
  if h : 0 < remaining - taken then data (remaining - taken) h else line .dataEnd

theorem readPiece_data {remaining : Nat} (pos : 0 < remaining) {bytes : Bytes} (h : bytes ≠ []) :
    (data remaining pos).readPiece bytes =
      ⟨.ok (some (.chunk (bytes.take remaining))),
        .chunked (behindData remaining (bytes.take remaining).length), bytes.drop remaining⟩ := by
  have hempty : bytes.isEmpty = false := by simpa using h
  simp [readPiece, hempty, behindData]

theorem readPiece_data_append {remaining : Nat} (pos : 0 < remaining) {bytes : Bytes}
    (h : bytes ≠ []) (more : Bytes) :
    ((data remaining pos).readPiece bytes).Grown more
      ((data remaining pos).readPiece (bytes ++ more)) := by
  have happend : bytes ++ more ≠ [] := by simp [h]
  rw [readPiece_data pos h, readPiece_data pos happend, List.take_append, List.drop_append]
  by_cases henough : remaining ≤ bytes.length
  · rw [Nat.sub_eq_zero_of_le henough]
    simpa using BodyReading.Grown.same
  · have htake : bytes.take remaining = bytes := List.take_of_length_le (by omega)
    have hdrop : bytes.drop remaining = [] := List.drop_eq_nil_of_le (by omega)
    have hleft : 0 < remaining - bytes.length := by omega
    rw [htake, hdrop]
    by_cases hmore : more = []
    · subst hmore
      simpa using BodyReading.Grown.nil _
    · refine .longer _ _ _ _ rfl rfl ?_
      have hplace : behindData remaining bytes.length = data (remaining - bytes.length) hleft := by
        simp [behindData, hleft]
      rw [hplace]
      show (data _ hleft).readPiece more = _
      rw [readPiece_data hleft hmore, List.length_append, behindData, behindData]
      simp only [Nat.sub_sub, List.nil_append]

theorem readPiece_append {place : ChunkPlace} {bytes : Bytes}
    (hanswer : (place.readPiece bytes).answer ≠ .ok none)
    (hsize : ∀ cause, (place.readPiece bytes).answer = .error cause → cause.isTooLarge = false)
    (more : Bytes) :
    (place.readPiece bytes).Grown more (place.readPiece (bytes ++ more)) := by
  cases place with
  | line between => exact absurd rfl hanswer
  | trailers =>
      have hread : (Trailers.read bytes).answer ≠ .ok none := by
        intro hnone
        simp [readPiece, hnone, Except.map] at hanswer
      have hcause : ∀ cause, (Trailers.read bytes).answer = .error cause →
          cause.isTooLarge = false := by
        intro cause herror
        exact hsize cause (by simp [readPiece, herror, Except.map])
      simp only [readPiece, Trailers.read_append hread hcause more]
      exact .same
  | data remaining pos =>
      have hne : bytes ≠ [] := by
        rintro rfl
        exact hanswer rfl
      exact readPiece_data_append pos hne more

theorem readPiece_append_of_none {place : ChunkPlace} {bytes : Bytes}
    (hplace : ∀ between, place ≠ line between)
    (hanswer : (place.readPiece bytes).answer = .ok none) :
    (place.readPiece bytes).next = .chunked place ∧ (place.readPiece bytes).rest = bytes := by
  cases place with
  | line between => exact absurd rfl (hplace between)
  | trailers =>
      refine ⟨rfl, Trailers.read_rest_of_none ?_⟩
      simp only [readPiece] at hanswer
      cases hread : (Trailers.read bytes).answer with
      | error cause => simp [hread, Except.map] at hanswer
      | ok fields? => cases fields? <;> simp_all [Except.map]
  | data remaining pos =>
      by_cases hne : bytes = []
      · subst hne
        exact ⟨rfl, rfl⟩
      · rw [readPiece_data pos hne] at hanswer
        cases hanswer

theorem read_line (between : ChunkLine) (bytes : Bytes) :
    (line between).read bytes =
      match between.advance bytes with
      | (.error fault, rest) => ⟨.error (.invalidBody fault), .chunked (line between), rest⟩
      | (.ok place, rest) => place.readPiece rest :=
  rfl

theorem read_of_not_line {place : ChunkPlace} (h : ∀ between, place ≠ line between)
    (bytes : Bytes) : place.read bytes = place.readPiece bytes := by
  cases place with
  | line between => exact absurd rfl (h between)
  | data remaining pos => rfl
  | trailers => rfl

theorem read_append {place : ChunkPlace} {bytes : Bytes}
    (hanswer : (place.read bytes).answer ≠ .ok none)
    (hsize : ∀ cause, (place.read bytes).answer = .error cause → cause.isTooLarge = false)
    (more : Bytes) : (place.read bytes).Grown more (place.read (bytes ++ more)) := by
  cases place with
  | line between =>
      rw [read_line] at hanswer hsize
      rw [read_line, read_line, ChunkLine.advance_append]
      rcases hadvance : between.advance bytes with ⟨result, rest⟩
      rw [hadvance] at hanswer hsize
      cases result with
      | error fault => exact .same
      | ok place =>
          cases place with
          | line next => exact absurd rfl hanswer
          | data remaining pos => exact readPiece_append hanswer hsize more
          | trailers => exact readPiece_append hanswer hsize more
  | data remaining pos => exact readPiece_append hanswer hsize more
  | trailers => exact readPiece_append hanswer hsize more

theorem read_append_of_none {place : ChunkPlace} {bytes : Bytes}
    (hanswer : (place.read bytes).answer = .ok none) (more : Bytes) :
    (place.read (bytes ++ more)).Alike
      ((place.read bytes).next.readMore ((place.read bytes).rest ++ more)) := by
  -- Data and trailers wait where they are; only a line moves on.
  have hwaits : ∀ {place : ChunkPlace} {bytes : Bytes}, (∀ between, place ≠ line between) →
      (place.readPiece bytes).answer = .ok none →
      (place.readPiece (bytes ++ more)).Alike
        ((place.readPiece bytes).next.readMore ((place.readPiece bytes).rest ++ more)) := by
    intro place bytes hplace hanswer
    obtain ⟨hnext, hrest⟩ := readPiece_append_of_none hplace hanswer
    rw [hnext, hrest]
    show (place.readPiece (bytes ++ more)).Alike (place.read (bytes ++ more))
    rw [read_of_not_line hplace]
    exact .refl _
  cases place with
  | line between =>
      rw [read_line] at hanswer
      rw [read_line, read_line, ChunkLine.advance_append]
      rcases hadvance : between.advance bytes with ⟨result, rest⟩
      rw [hadvance] at hanswer
      cases result with
      | error fault => cases hanswer
      | ok place =>
          cases place with
          | line next =>
              rw [ChunkLine.advance_rest_of_line hadvance]
              show BodyReading.Alike _ ((line next).read more)
              rw [read_line]
              dsimp only
              rcases next.advance more with ⟨result, rest⟩
              cases result with
              | error fault =>
                  refine ⟨rfl, rfl, fun item? h => ?_⟩
                  cases h
              | ok place => exact .refl _
          | data remaining pos => exact hwaits (by simp) hanswer
          | trailers => exact hwaits (by simp) hanswer
  | data remaining pos => exact hwaits (by simp) hanswer
  | trailers => exact hwaits (by simp) hanswer

end ChunkPlace

namespace BodyReader

theorem readMore_length {remaining : Nat} (pos : 0 < remaining) {bytes : Bytes} (h : bytes ≠ []) :
    (length remaining).readMore bytes =
      ⟨.ok (some (.chunk (bytes.take remaining))),
        length (remaining - (bytes.take remaining).length), bytes.drop remaining⟩ := by
  have hempty : bytes.isEmpty = false := by simpa using h
  obtain ⟨n, rfl⟩ := Nat.exists_eq_succ_of_ne_zero (Nat.ne_of_gt pos)
  simp [readMore, hempty]

theorem readMore_untilClose {bytes : Bytes} (h : bytes ≠ []) :
    untilClose.readMore bytes = ⟨.ok (some (.chunk bytes)), untilClose, []⟩ := by
  have hempty : bytes.isEmpty = false := by simpa using h
  simp [readMore, hempty]

theorem readMore_length_append {remaining : Nat} (pos : 0 < remaining) {bytes : Bytes}
    (h : bytes ≠ []) (more : Bytes) :
    ((length remaining).readMore bytes).Grown more ((length remaining).readMore (bytes ++ more)) := by
  have happend : bytes ++ more ≠ [] := by simp [h]
  rw [readMore_length pos h, readMore_length pos happend, List.take_append, List.drop_append]
  by_cases henough : remaining ≤ bytes.length
  · rw [Nat.sub_eq_zero_of_le henough]
    simpa using BodyReading.Grown.same
  · have htake : bytes.take remaining = bytes := List.take_of_length_le (by omega)
    have hdrop : bytes.drop remaining = [] := List.drop_eq_nil_of_le (by omega)
    have hleft : 0 < remaining - bytes.length := by omega
    rw [htake, hdrop]
    by_cases hmore : more = []
    · subst hmore
      simpa using BodyReading.Grown.nil _
    · refine .longer _ _ _ _ rfl rfl ?_
      dsimp only
      rw [readMore_length hleft hmore, List.length_append]
      simp only [Nat.sub_sub, List.nil_append]

theorem readMore_append {reader : BodyReader} {bytes : Bytes}
    (hanswer : (reader.readMore bytes).answer ≠ .ok none)
    (hsize : ∀ cause, (reader.readMore bytes).answer = .error cause → cause.isTooLarge = false)
    (more : Bytes) : (reader.readMore bytes).Grown more (reader.readMore (bytes ++ more)) := by
  cases reader with
  | length remaining =>
      cases remaining with
      | zero => exact .same
      | succ n =>
          have hne : bytes ≠ [] := by
            rintro rfl
            exact hanswer rfl
          exact readMore_length_append (Nat.succ_pos n) hne more
  | chunked place => exact ChunkPlace.read_append hanswer hsize more
  | untilClose =>
      have hne : bytes ≠ [] := by
        rintro rfl
        exact hanswer rfl
      have happend : bytes ++ more ≠ [] := by simp [hne]
      rw [readMore_untilClose hne, readMore_untilClose happend]
      by_cases hmore : more = []
      · subst hmore
        simpa using BodyReading.Grown.nil _
      · exact .longer _ _ _ _ rfl rfl (readMore_untilClose hmore)
  | empty => exact .same

theorem readMore_append_of_none {reader : BodyReader} {bytes : Bytes}
    (hanswer : (reader.readMore bytes).answer = .ok none) (more : Bytes) :
    (reader.readMore (bytes ++ more)).Alike
      ((reader.readMore bytes).next.readMore ((reader.readMore bytes).rest ++ more)) := by
  have hnil : ∀ {reader : BodyReader}, bytes = [] →
      reader.readMore [] = ⟨.ok none, reader, []⟩ → (reader.readMore (bytes ++ more)).Alike
        ((reader.readMore bytes).next.readMore ((reader.readMore bytes).rest ++ more)) := by
    rintro reader rfl hread
    rw [hread]
    exact .refl _
  cases reader with
  | length remaining =>
      cases remaining with
      | zero => cases hanswer
      | succ n =>
          by_cases hne : bytes = []
          · exact hnil hne rfl
          · rw [readMore_length (Nat.succ_pos n) hne] at hanswer
            cases hanswer
  | chunked place => exact ChunkPlace.read_append_of_none hanswer more
  | untilClose =>
      by_cases hne : bytes = []
      · exact hnil hne rfl
      · rw [readMore_untilClose hne] at hanswer
        cases hanswer
  | empty => cases hanswer

end BodyReader

end HttpFraming
