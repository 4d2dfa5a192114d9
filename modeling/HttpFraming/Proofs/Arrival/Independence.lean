import HttpFraming.Proofs.Arrival.Cuts

/-!
# The rule about bodies and the cuts in the input

A rule with a record beside it shows which heads it was asked about. Each head that a
decoder hands out was asked about once, in order, and nothing else was: see
`Decoder.arrive_asked`. The main statement, `Decoder.arrive_independent`, is that neither the
message parts nor the record depend on how the bytes arrive.
-/

namespace HttpFraming

open Bytes

def Message.head? : Message k → Option (Head k)
  | header h => some h
  | .failure reason => reason.head?
  | _ => none

/-- The heads and answers of the questions that a rule was asked, in order. -/
abbrev Record (k : Kind) := List (Head k × Bool)

def HeadRule.recorded (ask : HeadRule k ρ) : HeadRule k (ρ × Record k) :=
  fun h state => ((ask h state.1).1, ((ask h state.1).2, state.2 ++ [(h, (ask h state.1).1)]))

def Record.framed (limits : Limits) (record : Record k) : List (Head k) :=
  record.map fun asked => (asked.1.frame limits asked.2).1

namespace Decoder

variable {k : Kind} {ρ : Type}

/-- In one step a rule is asked about the head that the step hands out, or not at all. -/
structure AsksOnce (decoder : Decoder k) (state : ρ × Record k) (decoding : Decoding k (ρ × Record k)) :
    Prop where
  limits : decoding.decoder.limits = decoder.limits
  asked : Record.framed decoder.limits decoding.rule.2 =
    Record.framed decoder.limits state.2 ++ decoding.message?.toList.filterMap Message.head?

theorem enter_asksOnce (decoder : Decoder k) (ask : HeadRule k ρ) (h : Head k)
    (state : ρ × Record k) (rest : Bytes) :
    decoder.AsksOnce state (decoder.enter ask.recorded h state rest) := by
  unfold enter
  rcases hframe : h.frame decoder.limits (ask h state.1).1 with ⟨framed, result⟩
  cases result with
  | ok framing =>
      constructor
      · simp [HeadRule.recorded, hframe]
      · simp [HeadRule.recorded, hframe, Record.framed, Message.head?]
  | error cause =>
      constructor
      · simp [HeadRule.recorded, hframe, fail]
      · simp [HeadRule.recorded, hframe, Record.framed, Message.head?, fail]

theorem decode_asksOnce (decoder : Decoder k) (ask : HeadRule k ρ) (ended : Bool)
    (state : ρ × Record k) (bytes : Bytes) :
    decoder.AsksOnce state (decoder.decode ask.recorded ended state bytes) := by
  have hquiet : ∀ decoding : Decoding k (ρ × Record k), decoding.decoder.limits = decoder.limits →
      decoding.rule = state → decoding.message?.bind Message.head? = none →
        decoder.AsksOnce state decoding := by
    rintro ⟨message?, next, rule, rest⟩ hlimits rfl hhead
    refine ⟨hlimits, ?_⟩
    cases message? with
    | none => simp
    | some message =>
        have hnone : message.head? = none := hhead
        simp [hnone]
  unfold decode
  split
  · exact hquiet _ rfl rfl rfl
  · unfold readBody
    split <;> exact hquiet _ rfl rfl rfl
  · split
    · exact hquiet _ rfl rfl rfl
    · unfold readHead
      split
      · exact enter_asksOnce decoder ask _ state _
      · split <;> exact hquiet _ rfl rfl rfl
      · exact hquiet _ rfl rfl rfl

/-- A drain asks about each head that it hands out, once and in order. -/
theorem drain_asked (ask : HeadRule k ρ) (ended : Bool) (state : Decoder k × ρ × Record k)
    (bytes : Bytes) :
    ((source ask.recorded).drain ended state bytes).state.1.limits = state.1.limits ∧
      Record.framed state.1.limits ((source ask.recorded).drain ended state bytes).state.2.2 =
        Record.framed state.1.limits state.2.2 ++
          ((source ask.recorded).drain ended state bytes).values.filterMap Message.head? := by
  refine drain_induction ask.recorded ended
    (motive := fun state _ drained => drained.state.1.limits = state.1.limits ∧
      Record.framed state.1.limits drained.state.2.2 =
        Record.framed state.1.limits state.2.2 ++ drained.values.filterMap Message.head?)
    ?_ ?_ state bytes
  · intro state bytes next rule rest h
    obtain ⟨hlimits, hasked⟩ := decode_asksOnce state.1 ask ended state.2 bytes
    rw [h] at hlimits hasked
    exact ⟨hlimits, hasked⟩
  · intro state bytes message next rule rest h ih
    obtain ⟨hlimits, hasked⟩ := decode_asksOnce state.1 ask ended state.2 bytes
    rw [h] at hlimits hasked
    dsimp only at hlimits hasked ih
    rw [hlimits] at ih
    refine ⟨ih.1, ?_⟩
    rw [Drained.after_state, ih.2, hasked, Drained.after_values, List.filterMap_append,
      List.append_assoc]
    rfl

theorem deliver_asked (ask : HeadRule k ρ) (state : Decoder k × ρ × Record k) (waiting : Bytes)
    (pieces : List Bytes) :
    ((source ask.recorded).deliver state waiting pieces).state.1.limits = state.1.limits ∧
      Record.framed state.1.limits
          ((source ask.recorded).deliver state waiting pieces).state.2.2 =
        Record.framed state.1.limits state.2.2 ++
          ((source ask.recorded).deliver state waiting pieces).values.filterMap Message.head? := by
  induction pieces generalizing state waiting with
  | nil => simp [Source.deliver]
  | cons piece more ih =>
      obtain ⟨hlimits, hasked⟩ := drain_asked ask false state (waiting ++ piece)
      have hlater := ih ((source ask.recorded).drain false state (waiting ++ piece)).state
        ((source ask.recorded).drain false state (waiting ++ piece)).rest
      rw [hlimits] at hlater
      rw [deliver_cons]
      refine ⟨hlater.1, ?_⟩
      rw [Drained.after_state, hlater.2, hasked, Drained.after_values, List.filterMap_append,
        List.append_assoc]

/-- However the bytes arrive, the rule is asked about each head that is handed out, once and in
order, and about nothing else. -/
theorem arrive_asked (ask : HeadRule k ρ) (limits : Limits) (rule : ρ) (pieces : List Bytes)
    (ended : Bool) :
    Record.framed limits
        ((source ask.recorded).arrive (⟨limits, .head⟩, rule, []) pieces ended).state.2.2 =
      ((source ask.recorded).arrive (⟨limits, .head⟩, rule, []) pieces ended).values.filterMap
        Message.head? := by
  have hdelivered := deliver_asked ask (⟨limits, .head⟩, rule, []) [] pieces
  rw [arrive_eq]
  split
  · have hdrained := drain_asked ask true
      ((source ask.recorded).deliver (⟨limits, .head⟩, rule, []) [] pieces).state
      ((source ask.recorded).deliver (⟨limits, .head⟩, rule, []) [] pieces).rest
    dsimp only at hdelivered
    rw [hdelivered.1] at hdrained
    rw [Drained.after_state, hdrained.2, hdelivered.2, Drained.after_values,
      List.filterMap_append]
    rfl
  · exact hdelivered.2

/-- Decoding does not depend on how the bytes arrive. Of two ways of cutting the same bytes, with
the end of the input behind them or not, neither of which meets a head or a trailer section that
is too large: the message parts are the same up to the cuts between chunks, the decoder (and with
it `isIdle`), the state of the rule and the bytes that are left are the same, and the rule was
asked the same questions, one for each head that was handed out. -/
theorem arrive_independent (ask : HeadRule k ρ) (limits : Limits) (rule : ρ)
    {first second : List Bytes} (hbytes : first.flatten = second.flatten) (ended : Bool)
    (hfirst : ∀ message ∈
      ((source ask.recorded).arrive (⟨limits, .head⟩, rule, []) first ended).values,
        message.isTooLarge = false)
    (hsecond : ∀ message ∈
      ((source ask.recorded).arrive (⟨limits, .head⟩, rule, []) second ended).values,
        message.isTooLarge = false) :
    let one := (source ask.recorded).arrive (⟨limits, .head⟩, rule, []) first ended
    let two := (source ask.recorded).arrive (⟨limits, .head⟩, rule, []) second ended
    Message.join one.values = Message.join two.values ∧
      one.rest = two.rest ∧
      one.state.1 = two.state.1 ∧ one.state.1.isIdle = two.state.1.isIdle ∧
      one.state.2.1 = two.state.2.1 ∧
      one.state.2.2 = two.state.2.2 ∧
      Record.framed limits one.state.2.2 = one.values.filterMap Message.head? := by
  intro one two
  have hsame : one.joined = two.joined :=
    arrive_joined limits (rule, []) hbytes ended hfirst hsecond
  obtain ⟨hvalues, _, hstate, hrest⟩ := Drained.joined_ext hsame
  exact ⟨hvalues, hrest, by rw [hstate], by rw [hstate], by rw [hstate], by rw [hstate],
    arrive_asked ask limits rule first ended⟩

def alternately : HeadRule .response Bool :=
  fun _ bodiless => (bodiless, !bodiless)

/-- A chunked response with a trailer, one that the rule denies its body, and the beginning of a
third one. -/
def threeResponses : Bytes :=
  ascii "HTTP/1.1 200 OK\r\nTransfer-Encoding: chunked\r\n\r\n" ++
    ascii "5;x\r\nhello\r\n0\r\nA: b\r\n\r\n" ++
    ascii "HTTP/1.1 200 OK\r\nContent-Length: 30\r\n\r\nHTTP/1.1 2"

/-- The cuts are inside a line end, a chunk, the trailer and the last status line. -/
theorem arrive_independent_of_torn_lines :
    let whole := (source alternately.recorded).arrive (⟨{}, .head⟩, false, []) [threeResponses] true
    let torn := (source alternately.recorded).arrive (⟨{}, .head⟩, false, [])
      [threeResponses.take 16, (threeResponses.take 53).drop 16,
        (threeResponses.take 64).drop 53, (threeResponses.take 115).drop 64,
        threeResponses.drop 115] true
    (∀ message ∈ whole.values, message.isTooLarge = false) ∧
      (∀ message ∈ torn.values, message.isTooLarge = false) ∧
      Message.join whole.values = Message.join torn.values ∧ whole.rest = torn.rest ∧
      whole.state.2.2 = torn.state.2.2 := by
  have hwhole : ∀ message ∈ ((source alternately.recorded).arrive (⟨{}, .head⟩, false, [])
      [threeResponses] true).values, message.isTooLarge = false := by
    decide +kernel
  have htorn : ∀ message ∈ ((source alternately.recorded).arrive (⟨{}, .head⟩, false, [])
      [threeResponses.take 16, (threeResponses.take 53).drop 16,
        (threeResponses.take 64).drop 53, (threeResponses.take 115).drop 64,
        threeResponses.drop 115] true).values, message.isTooLarge = false := by
    decide +kernel
  obtain ⟨hvalues, hrest, _, _, _, hrecord, _⟩ :=
    arrive_independent alternately {} false (by decide +kernel) true hwhole htorn
  exact ⟨hwhole, htorn, hvalues, hrest, hrecord⟩

end Decoder

end HttpFraming
