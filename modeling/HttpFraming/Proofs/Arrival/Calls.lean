import HttpFraming.Proofs.Arrival.Fronts

/-!
# Calls in any order

Nothing obliges the holder of a source to drain it, or to ask with the end of the bytes only
when they have ended. `Source.calls` is what comes of feeding and asking in any order, and
`Source.calls_induction` how a fact about all that was handed out is proved. Beside `Hands` for
the steps of a decoder that hand something out stands `Waits` for those that do not: they keep
no more bytes than a head or a trailer section may have, and none once the bytes have ended.
-/

namespace HttpFraming

inductive Call
  | feed (piece : Bytes)
  | ask (ended : Bool)

structure Called (σ α : Type) where
  answers : List (Except HttpError (Option α))
  state : σ
  rest : Bytes

def valueOf : Except HttpError (Option α) → Option α
  | .ok value? => value?
  | .error _ => none

def Called.values (called : Called σ α) : List α :=
  called.answers.filterMap valueOf

namespace Source

def calls (source : Source σ α) (state : σ) (bytes : Bytes) : List Call → Called σ α
  | [] => ⟨[], state, bytes⟩
  | .feed piece :: more => source.calls state (bytes ++ piece) more
  | .ask ended :: more =>
      let pulled := source.pull ended state bytes
      let later := source.calls pulled.state pulled.rest more
      { later with answers := pulled.answer :: later.answers }

variable {source : Source σ α}

theorem calls_append (state : σ) (bytes : Bytes) (first second : List Call) :
    source.calls state bytes (first ++ second) =
      let called := source.calls state bytes first
      let later := source.calls called.state called.rest second
      { later with answers := called.answers ++ later.answers } := by
  induction first generalizing state bytes with
  | nil => rfl
  | cons call more ih =>
      cases call with
      | feed piece => exact ih state (bytes ++ piece)
      | ask ended =>
          simp only [List.cons_append, calls, ih]

/-- What holds at first, and is kept by each feeding and each asking, holds of all that was
answered so far and of what is left. -/
theorem calls_induction (source : Source σ α)
    {motive : List (Except HttpError (Option α)) → σ → Bytes → Prop} {state : σ} {bytes : Bytes}
    (start : motive [] state bytes)
    (feed : ∀ answers state bytes piece, motive answers state bytes →
      motive answers state (bytes ++ piece))
    (ask : ∀ answers state bytes ended, motive answers state bytes →
      motive (answers ++ [(source.pull ended state bytes).answer])
        (source.pull ended state bytes).state (source.pull ended state bytes).rest)
    (calls : List Call) :
    motive (source.calls state bytes calls).answers (source.calls state bytes calls).state
      (source.calls state bytes calls).rest := by
  suffices h : ∀ answers, motive answers state bytes →
      motive (answers ++ (source.calls state bytes calls).answers)
        (source.calls state bytes calls).state (source.calls state bytes calls).rest by
    exact h [] start
  clear start
  induction calls generalizing state bytes with
  | nil =>
      intro answers hanswers
      simpa [Source.calls] using hanswers
  | cons call more ih =>
      intro answers hanswers
      cases call with
      | feed piece => exact ih answers (feed _ _ _ piece hanswers)
      | ask ended =>
          have hlater := ih _ (ask _ _ _ ended hanswers)
          rwa [List.append_assoc] at hlater

end Source

/-! ## Steps that hand out nothing -/

theorem Head.read_length_of_none {k : Kind} {limits : Limits} {bytes : Bytes}
    (hanswer : (Head.read k limits bytes).answer = .ok none) :
    bytes.length ≤ limits.maxHeadBytes := by
  unfold Head.read at hanswer
  split at hanswer
  · cases hanswer
  · split at hanswer
    · cases hanswer
    · rename_i hroom
      exact Nat.le_of_not_lt hroom
  · dsimp only at hanswer
    split at hanswer
    · cases hanswer
    · split at hanswer
      · cases hanswer
      · split at hanswer <;> cases hanswer

theorem Trailers.read_length_of_none {bytes : Bytes}
    (hanswer : (Trailers.read bytes).answer = .ok none) : bytes.length ≤ maxTrailerBytes := by
  unfold Trailers.read at hanswer
  split at hanswer
  · cases hanswer
  · split at hanswer
    · cases hanswer
    · rename_i hroom
      exact Nat.le_of_not_lt hroom
  · split at hanswer <;> cases hanswer

theorem ChunkPlace.readPiece_rest_of_none {place : ChunkPlace} {bytes : Bytes}
    (hplace : ∀ between, place ≠ line between)
    (hanswer : (place.readPiece bytes).answer = .ok none) :
    (place.readPiece bytes).rest.length ≤ maxTrailerBytes := by
  obtain ⟨-, hrest⟩ := readPiece_append_of_none hplace hanswer
  rw [hrest]
  cases place with
  | line between => exact absurd rfl (hplace between)
  | data remaining pos =>
      by_cases hne : bytes = []
      · simp [hne]
      · rw [readPiece_data pos hne] at hanswer
        cases hanswer
  | trailers =>
      refine Trailers.read_length_of_none ?_
      simp only [readPiece] at hanswer
      cases hread : (Trailers.read bytes).answer with
      | error cause => simp [hread, Except.map] at hanswer
      | ok fields? => cases fields? <;> simp_all [Except.map]

theorem ChunkPlace.read_rest_of_none {place : ChunkPlace} {bytes : Bytes}
    (hanswer : (place.read bytes).answer = .ok none) :
    (place.read bytes).rest.length ≤ maxTrailerBytes := by
  cases place with
  | data remaining pos => exact readPiece_rest_of_none (by simp) hanswer
  | trailers => exact readPiece_rest_of_none (by simp) hanswer
  | line between =>
      rw [read_line] at hanswer ⊢
      cases hline : between.advance bytes with
      | mk reached rest =>
          rw [hline] at hanswer
          cases reached with
          | error fault => cases hanswer
          | ok place =>
              cases place with
              | line next =>
                  rw [ChunkLine.advance_rest_of_line hline]
                  exact Nat.zero_le _
              | data remaining pos => exact readPiece_rest_of_none (by simp) hanswer
              | trailers => exact readPiece_rest_of_none (by simp) hanswer

theorem BodyReader.readMore_rest_of_none {reader : BodyReader} {bytes : Bytes}
    (hanswer : (reader.readMore bytes).answer = .ok none) :
    (reader.readMore bytes).rest.length ≤ maxTrailerBytes := by
  cases reader with
  | empty => cases hanswer
  | chunked place => exact ChunkPlace.read_rest_of_none hanswer
  | untilClose =>
      by_cases hne : bytes = []
      · simp [hne, readMore]
      · rw [readMore_untilClose hne] at hanswer
        cases hanswer
  | length remaining =>
      cases remaining with
      | zero => cases hanswer
      | succ n =>
          by_cases hne : bytes = []
          · simp [hne, readMore]
          · rw [readMore_length n.succ_pos hne] at hanswer
            cases hanswer

theorem BodyReader.read_true_ne_none (reader : BodyReader) (bytes : Bytes) :
    (reader.read true bytes).answer ≠ .ok none := by
  intro hanswer
  unfold BodyReader.read at hanswer
  split at hanswer
  · cases reader <;> cases hanswer
  · rename_i hne
    exact hne _ _ (show reader.readMore bytes = ⟨.ok none, _, _⟩ by rw [← hanswer])

namespace Decoder

variable {k : Kind} {ρ : Type} {ask : HeadRule k ρ}

/-- Where a step that hands out nothing leaves the decoder, and which bytes it keeps. -/
inductive Waits (decoder : Decoder k) (ended : Bool) : Decoder k → Bytes → Prop
  | head (rest : Bytes) (hphase : decoder.phase = .head)
      (hroom : rest.length ≤ decoder.limits.maxHeadBytes) (hend : ended = true → rest = []) :
      decoder.Waits ended decoder rest
  | body (reader reader' : BodyReader) (rest : Bytes) (hphase : decoder.phase = .body reader)
      (hroom : rest.length ≤ maxTrailerBytes) (hend : ended = false) :
      decoder.Waits ended ⟨decoder.limits, .body reader'⟩ rest
  | failed (hphase : decoder.phase = .failed) : decoder.Waits ended decoder []

theorem waits_of_readHead {decoder next : Decoder k} {ended : Bool} {rule rule' : ρ}
    {bytes rest : Bytes} (hphase : decoder.phase = .head)
    (h : decoder.readHead ask ended rule bytes = ⟨none, next, rule', rest⟩) :
    decoder.Waits ended next rest := by
  unfold readHead at h
  split at h
  · unfold enter at h
    dsimp only at h
    split at h <;> cases h
  · rename_i hread
    have hanswer := congrArg Reading.answer hread
    have hrest := Head.read_rest_of_none hanswer
    rw [hread] at hrest
    subst hrest
    split at h
    · cases h
    · rename_i hopen
      cases h
      refine .head _ hphase (Head.read_length_of_none hanswer) fun hend => ?_
      simpa [hend] using hopen
  · cases h

theorem waits_of_readBody {decoder next : Decoder k} {reader : BodyReader} {ended : Bool}
    {rule rule' : ρ} {bytes rest : Bytes} (hphase : decoder.phase = .body reader)
    (h : decoder.readBody reader ended rule bytes = ⟨none, next, rule', rest⟩) :
    decoder.Waits ended next rest := by
  cases ended with
  | true =>
      unfold readBody at h
      split at h
      · cases h
      · rename_i hread
        exact absurd (congrArg BodyReading.answer hread) (reader.read_true_ne_none bytes)
      · cases h
  | false =>
      obtain ⟨hnone, hstep⟩ := readBody_of_none (congrArg Decoding.message? h)
      rw [hstep] at h
      cases h
      exact .body reader _ _ hphase (BodyReader.readMore_rest_of_none hnone) rfl

theorem waits_of_decode {decoder next : Decoder k} {ended : Bool} {rule rule' : ρ}
    {bytes rest : Bytes}
    (h : decoder.decode ask ended rule bytes = ⟨none, next, rule', rest⟩) :
    decoder.Waits ended next rest := by
  cases hphase : decoder.phase with
  | failed =>
      rw [decode_failed hphase] at h
      cases h
      exact .failed hphase
  | body reader =>
      simp only [decode, hphase] at h
      exact waits_of_readBody hphase h
  | head =>
      simp only [decode, hphase] at h
      split at h
      · rename_i hended
        cases h
        rw [Bool.and_eq_true, List.isEmpty_iff] at hended
        rw [hended.2]
        exact .head [] hphase (Nat.zero_le _) fun _ => rfl
      · exact waits_of_readHead hphase h

namespace Waits

variable {decoder next : Decoder k} {ended : Bool} {rest : Bytes}

theorem limits (h : decoder.Waits ended next rest) : next.limits = decoder.limits := by
  cases h <;> rfl

/-- What waits is at most a head or a trailer section. -/
theorem room (h : decoder.Waits ended next rest) :
    rest.length ≤ max decoder.limits.maxHeadBytes maxTrailerBytes := by
  cases h with
  | head rest hphase hroom hend => exact Nat.le_trans hroom (Nat.le_max_left ..)
  | body reader reader' rest hphase hroom hend => exact Nat.le_trans hroom (Nat.le_max_right ..)
  | failed hphase => exact Nat.zero_le _

theorem nil_of_ended (h : decoder.Waits true next rest) : rest = [] := by
  cases h with
  | head rest hphase hroom hend => exact hend rfl
  | body reader reader' rest hphase hroom hend => cases hend
  | failed hphase => rfl

end Waits

end Decoder

end HttpFraming
