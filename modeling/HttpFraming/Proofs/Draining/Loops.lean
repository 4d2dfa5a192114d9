import HttpFraming.Collecting.Source
import HttpFraming.Proofs.Arrival.Cuts

/-!
# Loops come to an end

Three loops are behind a read. A chunked body takes the bytes between its data one at a time, a
collector asks for parts until something comes of one, and the holder of a source asks it until it
has no more. `Loop.run` is a loop turn by turn, with a limit to its turns. It ends within the limit
with the value it is there for, if every turn either ends it with that value or keeps the value and
lowers a measure: `Loop.Computes.run_eq`. Of the body the measure is the bytes; of a source it has
to be the bytes and the weight of the state, since many turns take no byte (the last piece of a
body, a failure). What follows for decoders is `Decoder.draining_ends`.
-/

namespace HttpFraming

/-! ## Loops -/

namespace Loop

variable {σ ω : Type} {turn : σ → ω ⊕ σ} {value : σ → ω} {measure : σ → Nat}

/-- A loop that may take so many turns. A turn ends it with a result, or leads to the state of the
next turn; there is no result if the turns do not suffice. -/
def run (turn : σ → ω ⊕ σ) : Nat → σ → Option ω
  | 0, _ => none
  | turns + 1, state =>
      match turn state with
      | .inl result => some result
      | .inr next => run turn turns next

/-- What a turn does towards a value: it ends the loop with it, or keeps it and lowers a measure of
the state. -/
inductive Approaches (value : σ → ω) (measure : σ → Nat) (state : σ) : ω ⊕ σ → Prop
  | ends {result : ω} (hvalue : value state = result) : Approaches value measure state (.inl result)
  | goesOn {next : σ} (hvalue : value state = value next)
      (hmeasure : measure next < measure state) : Approaches value measure state (.inr next)

def Computes (turn : σ → ω ⊕ σ) (value : σ → ω) (measure : σ → Nat) : Prop :=
  ∀ state, Approaches value measure state (turn state)

/-- With more turns than the measure says, the loop ends with the value. -/
theorem Computes.run_eq (h : Computes turn value measure) {turns : Nat} {state : σ}
    (hturns : measure state < turns) : run turn turns state = some (value state) := by
  induction turns generalizing state with
  | zero => exact absurd hturns (Nat.not_lt_zero _)
  | succ turns ih =>
      have happroaches := h state
      unfold run
      cases hturn : turn state with
      | inl result =>
          rw [hturn] at happroaches
          cases happroaches with
          | ends hvalue => rw [hvalue]
      | inr next =>
          rw [hturn] at happroaches
          cases happroaches with
          | goesOn hvalue hmeasure =>
              rw [hvalue]
              exact ih (by omega)

end Loop

/-! ## Between the data of a chunked body -/

/-- What a reading comes to. A body that has failed is not read again, so the place that it has
reached is left out. -/
def BodyReading.outcome (reading : BodyReading) :
    Except ReadError (Option Item × BodyReader) × Bytes :=
  (reading.answer.map (·, reading.next), reading.rest)

namespace ChunkPlace

/-- One turn of reading a chunked body: a byte of a line is taken, or the reading ends. There is no
place behind the trailers, since a decoder leaves the body with its last piece. -/
def turn : ChunkPlace × Bytes →
    (Except ReadError (Option Item × BodyReader) × Bytes) ⊕ (ChunkPlace × Bytes)
  | (line between, b :: rest) =>
      match between.step b with
      | .error fault => .inl (.error (.invalidBody fault), rest)
      | .ok place => .inr (place, rest)
  | (place, bytes) => .inl (place.readPiece bytes).outcome

theorem read_line_cons (between : ChunkLine) (b : UInt8) (rest : Bytes) :
    ((line between).read (b :: rest)).outcome =
      match between.step b with
      | .error fault => (.error (.invalidBody fault), rest)
      | .ok place => (place.read rest).outcome := by
  rw [read_line, ChunkLine.advance]
  rcases between.step b with fault | next | _ | _
  · rfl
  · -- At a later fault each reading keeps the place where it began, which `outcome` leaves out.
    dsimp only
    rw [read_line]
    rcases next.advance rest with ⟨_ | _, _⟩ <;> rfl
  · rfl
  · rfl

/-- Turn by turn a chunked body is read as at once, and every turn but the last takes a byte. -/
theorem turn_computes :
    Loop.Computes turn (fun state => (state.1.read state.2).outcome)
      (fun state => state.2.length) := by
  rintro ⟨place, bytes⟩
  cases place with
  | data remaining pos => exact .ends rfl
  | trailers => exact .ends rfl
  | line between =>
      cases bytes with
      | nil => exact .ends rfl
      | cons b rest =>
          have hread := read_line_cons between b rest
          cases hstep : between.step b with
          | error fault =>
              simp only [turn, hstep] at hread ⊢
              exact .ends hread
          | ok place =>
              simp only [turn, hstep] at hread ⊢
              exact .goesOn hread (Nat.lt_succ_self _)

-- Where a line goes on to the end of the bytes, the last turn finds no more.
example : Loop.run turn 2 (line .start, [53, 13]) = none ∧
    Loop.run turn 3 (line .start, [53, 13]) = some (.ok (none, .chunked (line (.sizeEnd 5))), []) :=
  ⟨rfl, rfl⟩

end ChunkPlace

/-! ## Sources -/

namespace Source

variable {σ α ρ : Type} {k : Kind}

def drainTurn (source : Source σ α) (ended : Bool) (drained : Drained σ α) :
    Drained σ α ⊕ Drained σ α :=
  match source.pull ended drained.state drained.rest with
  | ⟨.error error, state, rest⟩ => .inl ⟨drained.values, some error, state, rest⟩
  | ⟨.ok none, state, rest⟩ => .inl ⟨drained.values, none, state, rest⟩
  | ⟨.ok (some value), state, rest⟩ => .inr ⟨drained.values ++ [value], none, state, rest⟩

theorem drainTurn_computes (source : Source σ α) (ended : Bool) :
    Loop.Computes (source.drainTurn ended)
      (fun drained => (source.drain ended drained.state drained.rest).after drained.values)
      (fun drained => 2 * drained.rest.length + source.weight drained.state) := by
  intro drained
  rcases hpull : source.pull ended drained.state drained.rest with ⟨_ | _ | value, next, rest⟩
  · simp only [drainTurn, hpull]
    refine .ends ?_
    simp [drain_of_error hpull, Drained.after]
  · simp only [drainTurn, hpull]
    refine .ends ?_
    simp [drain_of_none hpull, Drained.after]
  · have hlt := source.pull_lt ended drained.state drained.rest value (by rw [hpull])
    rw [hpull] at hlt
    simp only [drainTurn, hpull]
    refine .goesOn ?_ hlt
    simp [drain_of_value hpull, Drained.after]

def collectTurn (source : Source σ (Message k)) (select : HeadRule k ρ) (ended : Bool) :
    (σ × Collector k ρ) × Bytes →
      Pull (σ × Collector k ρ) (Collected k) ⊕ ((σ × Collector k ρ) × Bytes)
  | ((state, collector), bytes) =>
      let stopped := if ended then collector.close else collector
      match source.pull ended state bytes with
      | ⟨.error error, state, rest⟩ => .inl ⟨.error error, (state, stopped), rest⟩
      | ⟨.ok none, state, rest⟩ => .inl ⟨.ok none, (state, stopped), rest⟩
      | ⟨.ok (some message), state, rest⟩ =>
          match collector.take select message with
          | (.error error, collector) => .inl ⟨.error (.collect error), (state, collector), rest⟩
          | (.ok (some made), collector) => .inl ⟨.ok (some made), (state, collector), rest⟩
          | (.ok none, collector) => .inr ((state, collector), rest)

theorem collectTurn_computes (source : Source σ (Message k)) (select : HeadRule k ρ)
    (ended : Bool) :
    Loop.Computes (source.collectTurn select ended)
      (fun state => source.collect select ended state.1.1 state.1.2 state.2)
      (fun state => 2 * state.2.length + source.weight state.1.1) := by
  rintro ⟨⟨state, collector⟩, bytes⟩
  rcases hpull : source.pull ended state bytes with ⟨_ | _ | message, next, rest⟩
  · simp only [collectTurn, hpull]
    exact .ends (collect_of_error hpull)
  · simp only [collectTurn, hpull]
    exact .ends (collect_of_none hpull)
  · have hlt := source.pull_lt ended state bytes message (by rw [hpull])
    rw [hpull] at hlt
    have hcollect : source.collect select ended state collector bytes = _ := collect_of_value hpull
    rcases htake : collector.take select message with ⟨_ | _ | made, after⟩
    all_goals
      rw [htake] at hcollect
      simp only [collectTurn, hpull, htake]
    · exact .ends hcollect
    · exact .goesOn hcollect hlt
    · exact .ends hcollect

end Source

/-! ## Decoders -/

namespace Decoder

variable {k : Kind} {ρ : Type}

theorem weight_le (decoder : Decoder k) : decoder.weight ≤ 2 := by
  unfold weight
  split <;> decide

/-- Draining always ends, from every state. Asked again and again, with the end of the bytes or
without, a decoder hands out at most `2 * n + 3` parts of `n` bytes and then has no more; what stops
it is never an error. Each reading of a chunked body takes at most `n + 1` turns, and whatever the
collector behind the decoder, the loop that asks for parts until something comes of one ends too. -/
theorem draining_ends (decoder : Decoder k) (ask : HeadRule k ρ) (rule : ρ) (ended : Bool)
    (bytes : Bytes) :
    let drained := (source ask).drain ended (decoder, rule) bytes
    Loop.run ((source ask).drainTurn ended) (2 * bytes.length + 4)
        ⟨[], none, (decoder, rule), bytes⟩ = some drained ∧
      drained.error? = none ∧ drained.values.length ≤ 2 * bytes.length + 3 ∧
      (∀ place : ChunkPlace, Loop.run ChunkPlace.turn (bytes.length + 1) (place, bytes) =
        some (place.read bytes).outcome) ∧
      ∀ {τ : Type} (select : HeadRule k τ) (collector : Collector k τ),
        Loop.run ((source ask).collectTurn select ended) (2 * bytes.length + 3)
            (((decoder, rule), collector), bytes) =
          some ((source ask).collect select ended (decoder, rule) collector bytes) := by
  -- Both loops over the decoder have turns to spare: what they use up is at most `2 * n + 2`.
  have hweight : (source ask).weight (decoder, rule) ≤ 2 := decoder.weight_le
  refine ⟨?_, drain_error? ask ended (decoder, rule) bytes, ?_, fun place => ?_,
    fun select collector => ?_⟩
  · exact ((source ask).drainTurn_computes ended).run_eq (by dsimp only; omega)
  · have hlength := (source ask).drain_values_length_le ended (decoder, rule) bytes
    omega
  · exact ChunkPlace.turn_computes.run_eq (Nat.lt_succ_self _)
  · exact ((source ask).collectTurn_computes select ended).run_eq (by dsimp only; omega)

end Decoder

end HttpFraming
