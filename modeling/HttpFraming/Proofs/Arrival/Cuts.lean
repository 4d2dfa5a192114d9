import HttpFraming.Proofs.Arrival.Joined
import HttpFraming.Proofs.Arrival.Reading

/-!
# Decoding does not depend on the cuts in the input

A decoder that is drained after each of several pieces hands out what it hands out for
their concatenation, up to the cuts between chunks: `Decoder.deliver_joined`. So two ways
of cutting the same bytes are decoded alike: `Decoder.arrive_joined`.
-/

namespace HttpFraming

namespace Decoder

variable {k : Kind} {ρ : Type}

/-! ## One step -/

theorem read_false (reader : BodyReader) (bytes : Bytes) :
    reader.read false bytes = reader.readMore bytes := by
  unfold BodyReader.read
  split
  · rename_i h
    rw [h]
    rfl
  · rfl

theorem readBody_congr {decoder : Decoder k} {reader reader' : BodyReader} {rule : ρ}
    {bytes bytes' : Bytes} (h : (reader.readMore bytes).Alike (reader'.readMore bytes')) :
    decoder.readBody reader false rule bytes = decoder.readBody reader' false rule bytes' := by
  unfold readBody
  rw [read_false, read_false]
  obtain ⟨hanswer, hrest, hnext⟩ := h
  rcases hfirst : reader.readMore bytes with ⟨answer, next, rest⟩
  rcases hsecond : reader'.readMore bytes' with ⟨answer', next', rest'⟩
  rw [hfirst, hsecond] at hanswer hrest hnext
  dsimp only at hanswer hrest hnext
  subst hanswer hrest
  cases answer with
  | error cause => rfl
  | ok item? =>
      rw [hnext item? rfl]

theorem decode_head {decoder : Decoder k} (hphase : decoder.phase = .head) (ask : HeadRule k ρ)
    (rule : ρ) (bytes : Bytes) :
    decoder.decode ask false rule bytes = decoder.readHead ask false rule bytes := by
  simp [decode, hphase]

theorem decode_body {decoder : Decoder k} {reader : BodyReader}
    (hphase : decoder.phase = .body reader) (ask : HeadRule k ρ) (rule : ρ) (bytes : Bytes) :
    decoder.decode ask false rule bytes = decoder.readBody reader false rule bytes := by
  simp [decode, hphase]

theorem decode_failed {decoder : Decoder k} (hphase : decoder.phase = .failed)
    (ask : HeadRule k ρ) (ended : Bool) (rule : ρ) (bytes : Bytes) :
    decoder.decode ask ended rule bytes = ⟨none, decoder, rule, []⟩ := by
  simp [decode, hphase]

theorem readHead_of_none {decoder : Decoder k} {ask : HeadRule k ρ} {rule : ρ} {bytes : Bytes}
    (h : (decoder.readHead ask false rule bytes).message? = none) :
    decoder.readHead ask false rule bytes = ⟨none, decoder, rule, bytes⟩ := by
  unfold readHead at h ⊢
  rcases hread : Head.read k decoder.limits bytes with ⟨answer, rest⟩
  rw [hread] at h
  rcases answer with cause | h?
  · cases h
  · cases h? with
    | none =>
        have hrest := Head.read_rest_of_none (congrArg Reading.answer hread)
        rw [hread] at hrest
        simp_all
    | some head =>
        simp only [enter] at h
        split at h <;> cases h

theorem readBody_of_none {decoder : Decoder k} {reader : BodyReader} {rule : ρ} {bytes : Bytes}
    (h : (decoder.readBody reader false rule bytes).message? = none) :
    (reader.readMore bytes).answer = .ok none ∧
      decoder.readBody reader false rule bytes =
        ⟨none, { decoder with phase := .body (reader.readMore bytes).next }, rule,
          (reader.readMore bytes).rest⟩ := by
  unfold readBody at h ⊢
  rw [read_false] at h ⊢
  rcases hread : reader.readMore bytes with ⟨answer, next, rest⟩
  rw [hread] at h
  rcases answer with cause | _ | item
  · cases h
  · exact ⟨rfl, rfl⟩
  · cases h

/-- A step that waits for more bytes leaves a decoder that goes on with them. -/
theorem decode_append_of_none {decoder : Decoder k} {ask : HeadRule k ρ} {rule : ρ} {bytes : Bytes}
    (h : (decoder.decode ask false rule bytes).message? = none) (more : Bytes) :
    decoder.decode ask false rule (bytes ++ more) =
      (decoder.decode ask false rule bytes).decoder.decode ask false
        (decoder.decode ask false rule bytes).rule
        ((decoder.decode ask false rule bytes).rest ++ more) := by
  cases hphase : decoder.phase with
  | failed =>
      rw [decode_failed hphase, decode_failed hphase]
      dsimp only
      rw [decode_failed hphase]
  | head =>
      have hwaits : decoder.decode ask false rule bytes = ⟨none, decoder, rule, bytes⟩ := by
        rw [decode_head hphase] at h ⊢
        exact readHead_of_none h
      rw [hwaits]
  | body reader =>
      rw [decode_body hphase] at h ⊢
      obtain ⟨hnone, hstep⟩ := readBody_of_none h
      rw [decode_body hphase, hstep, decode_body rfl]
      exact readBody_congr (BodyReader.readMore_append_of_none hnone more)

/-- What a decoding step gives on more bytes: the same, or a longer chunk, of which the
second half is what the next step would have given. -/
inductive Grown (ask : HeadRule k ρ) (first : Decoding k ρ) (more : Bytes) : Decoding k ρ → Prop
  | same : Grown ask first more ⟨first.message?, first.decoder, first.rule, first.rest ++ more⟩
  | longer (data second : Bytes) (next : Decoder k) (rule : ρ) (rest : Bytes)
      (hfirst : first.message? = some (.payload (.chunk data))) (hrest : first.rest = [])
      (hsecond : first.decoder.decode ask false first.rule more =
        ⟨some (.payload (.chunk second)), next, rule, rest⟩) :
      Grown ask first more ⟨some (.payload (.chunk (data ++ second))), next, rule, rest⟩

theorem enter_append (decoder : Decoder k) (ask : HeadRule k ρ) (h : Head k) (rule : ρ)
    (rest more : Bytes) :
    Grown ask (decoder.enter ask h rule rest) more (decoder.enter ask h rule (rest ++ more)) := by
  unfold enter
  dsimp only
  split <;> exact .same

theorem readHead_append {decoder : Decoder k} {ask : HeadRule k ρ} {rule : ρ} {bytes : Bytes}
    {message : Message k}
    (h : (decoder.readHead ask false rule bytes).message? = some message)
    (hsize : message.isTooLarge = false) (more : Bytes) :
    Grown ask (decoder.readHead ask false rule bytes) more
      (decoder.readHead ask false rule (bytes ++ more)) := by
  unfold readHead at h ⊢
  rcases hread : Head.read k decoder.limits bytes with ⟨answer, rest⟩
  have hanswer : answer ≠ .ok none := by
    rintro rfl
    rw [hread] at h
    cases h
  have hcause : ∀ cause, answer = .error cause → cause.isTooLarge = false := by
    rintro cause rfl
    rw [hread] at h
    simp only [fail, Option.some.injEq] at h
    subst h
    exact hsize
  have hmore : Head.read k decoder.limits (bytes ++ more) = ⟨answer, rest ++ more⟩ := by
    rw [Head.read_append (by rw [hread]; exact hanswer) (by rw [hread]; exact hcause) more, hread]
  rw [hmore]
  rcases answer with cause | _ | head
  · exact .same
  · exact absurd rfl hanswer
  · exact enter_append decoder ask head rule rest more

theorem readBody_append {decoder : Decoder k} {ask : HeadRule k ρ} {reader : BodyReader} {rule : ρ}
    {bytes : Bytes} {message : Message k}
    (h : (decoder.readBody reader false rule bytes).message? = some message)
    (hsize : message.isTooLarge = false) (more : Bytes) :
    Grown ask (decoder.readBody reader false rule bytes) more
      (decoder.readBody reader false rule (bytes ++ more)) := by
  unfold readBody at h ⊢
  rw [read_false] at h ⊢
  rw [read_false]
  have hanswer : (reader.readMore bytes).answer ≠ .ok none := by
    intro hnone
    rcases hread : reader.readMore bytes with ⟨answer, next, rest⟩
    rw [hread] at h hnone
    dsimp only at hnone
    subst hnone
    cases h
  have hcause : ∀ cause, (reader.readMore bytes).answer = .error cause →
      cause.isTooLarge = false := by
    intro cause herror
    rcases hread : reader.readMore bytes with ⟨answer, next, rest⟩
    rw [hread] at h herror
    dsimp only at herror
    subst herror
    simp only [fail, Option.some.injEq] at h
    subst h
    exact hsize
  have hgrown := BodyReader.readMore_append hanswer hcause more
  generalize hwhole : reader.readMore (bytes ++ more) = whole at hgrown
  cases hgrown with
  | same =>
      rcases reader.readMore bytes with ⟨answer, next, rest⟩
      rcases answer with cause | _ | item <;> exact .same
  | longer data second next rest hfirst hrest hsecond =>
      rcases hread : reader.readMore bytes with ⟨answer, next', rest'⟩
      rw [hread] at hfirst hrest hsecond
      dsimp only at hfirst hrest hsecond
      subst hfirst hrest
      refine .longer data second _ _ _ rfl rfl ?_
      rw [decode_body rfl]
      unfold readBody
      rw [read_false, hsecond]
      rfl

theorem decode_append {decoder : Decoder k} {ask : HeadRule k ρ} {rule : ρ} {bytes : Bytes}
    {message : Message k} (h : (decoder.decode ask false rule bytes).message? = some message)
    (hsize : message.isTooLarge = false) (more : Bytes) :
    Grown ask (decoder.decode ask false rule bytes) more
      (decoder.decode ask false rule (bytes ++ more)) := by
  cases hphase : decoder.phase with
  | failed =>
      rw [decode_failed hphase] at h
      cases h
  | head =>
      rw [decode_head hphase] at h ⊢
      rw [decode_head hphase]
      exact readHead_append h hsize more
  | body reader =>
      rw [decode_body hphase] at h ⊢
      rw [decode_body hphase]
      exact readBody_append h hsize more

/-! ## Drains -/

theorem pull_eq (ask : HeadRule k ρ) (ended : Bool) (state : Decoder k × ρ) (bytes : Bytes) :
    (source ask).pull ended state bytes =
      ⟨.ok (state.1.decode ask ended state.2 bytes).message?,
        ((state.1.decode ask ended state.2 bytes).decoder,
          (state.1.decode ask ended state.2 bytes).rule),
        (state.1.decode ask ended state.2 bytes).rest⟩ :=
  rfl

end Decoder

namespace Source

theorem drain_congr {source : Source σ α} {ended : Bool} {state state' : σ}
    {bytes bytes' : Bytes} (h : source.pull ended state bytes = source.pull ended state' bytes') :
    source.drain ended state bytes = source.drain ended state' bytes' := by
  rcases hpull : source.pull ended state' bytes' with ⟨answer, next, rest⟩
  rw [hpull] at h
  rcases answer with error | _ | value
  · rw [drain_of_error h, drain_of_error hpull]
  · rw [drain_of_none h, drain_of_none hpull]
  · rw [drain_of_value h, drain_of_value hpull]

/-- Lets the pieces arrive one after the other and then, if there is to be one, the end of the
input. -/
def arrive (source : Source σ α) (state : σ) (pieces : List Bytes) (ended : Bool) : Drained σ α :=
  let delivered := source.deliver state [] pieces
  if ended && delivered.error?.isNone then
    (source.drain true delivered.state delivered.rest).after delivered.values
  else delivered

end Source

namespace Decoder

variable {k : Kind} {ρ : Type}

theorem drain_of_message {ask : HeadRule k ρ} {ended : Bool} {state : Decoder k × ρ}
    {bytes : Bytes} {message : Message k} {next : Decoder k} {rule : ρ} {rest : Bytes}
    (h : state.1.decode ask ended state.2 bytes = ⟨some message, next, rule, rest⟩) :
    (source ask).drain ended state bytes =
      ((source ask).drain ended (next, rule) rest).after [message] := by
  have hpull : (source ask).pull ended state bytes = ⟨.ok (some message), (next, rule), rest⟩ := by
    rw [pull_eq, h]
  rw [Source.drain_of_value hpull]
  rfl

theorem drain_of_wait {ask : HeadRule k ρ} {ended : Bool} {state : Decoder k × ρ} {bytes : Bytes}
    {next : Decoder k} {rule : ρ} {rest : Bytes}
    (h : state.1.decode ask ended state.2 bytes = ⟨none, next, rule, rest⟩) :
    (source ask).drain ended state bytes = ⟨[], none, (next, rule), rest⟩ := by
  have hpull : (source ask).pull ended state bytes = ⟨.ok none, (next, rule), rest⟩ := by
    rw [pull_eq, h]
  rw [Source.drain_of_none hpull]

theorem drain_induction (ask : HeadRule k ρ) (ended : Bool)
    {motive : Decoder k × ρ → Bytes → Drained (Decoder k × ρ) (Message k) → Prop}
    (wait : ∀ (state : Decoder k × ρ) (bytes : Bytes) (next : Decoder k) (rule : ρ) (rest : Bytes),
      state.1.decode ask ended state.2 bytes = ⟨none, next, rule, rest⟩ →
        motive state bytes ⟨[], none, (next, rule), rest⟩)
    (message : ∀ (state : Decoder k × ρ) (bytes : Bytes) (message : Message k) (next : Decoder k)
      (rule : ρ) (rest : Bytes),
      state.1.decode ask ended state.2 bytes = ⟨some message, next, rule, rest⟩ →
        motive (next, rule) rest ((source ask).drain ended (next, rule) rest) →
          motive state bytes (((source ask).drain ended (next, rule) rest).after [message]))
    (state : Decoder k × ρ) (bytes : Bytes) :
    motive state bytes ((source ask).drain ended state bytes) := by
  fun_induction Source.drain (source ask) ended state bytes with
  | case1 state bytes error next rest h =>
      rw [pull_eq] at h
      cases h
  | case2 state bytes next rest h =>
      rw [pull_eq] at h
      cases hdecode : state.1.decode ask ended state.2 bytes
      rw [hdecode] at h
      cases h
      exact wait state bytes _ _ _ hdecode
  | case3 state bytes value next rest h drained ih =>
      rw [pull_eq] at h
      cases hdecode : state.1.decode ask ended state.2 bytes
      rw [hdecode] at h
      cases h
      exact message state bytes value _ _ _ hdecode ih

/-- A decoder never fails as a source; its failures are message parts. -/
theorem drain_error? (ask : HeadRule k ρ) (ended : Bool) (state : Decoder k × ρ) (bytes : Bytes) :
    ((source ask).drain ended state bytes).error? = none := by
  refine drain_induction ask ended
    (motive := fun _ _ drained => drained.error? = none) ?_ ?_ state bytes
  · intro state bytes next rule rest _
    rfl
  · intro state bytes message next rule rest _ ih
    exact ih

theorem drain_append_of_message {ask : HeadRule k ρ} {state : Decoder k × ρ} {bytes : Bytes}
    {message : Message k} {next : Decoder k} {rule : ρ} {rest : Bytes}
    (h : state.1.decode ask false state.2 bytes = ⟨some message, next, rule, rest⟩)
    (hsize : message.isTooLarge = false) (more : Bytes) :
    ((source ask).drain false state (bytes ++ more)).joined =
      (((source ask).drain false (next, rule) (rest ++ more)).after [message]).joined := by
  have hgrown := decode_append (by rw [h]) hsize more
  rw [h] at hgrown
  generalize hwhole : state.1.decode ask false state.2 (bytes ++ more) = whole at hgrown
  cases hgrown with
  | same => rw [drain_of_message hwhole]
  | longer data second last rule' rest' hfirst hrest hsecond =>
      dsimp only at hfirst hrest hsecond
      subst hrest
      cases hfirst
      have hnext : ((source ask).drain false (next, rule) more) =
          ((source ask).drain false (last, rule') rest').after [.payload (.chunk second)] :=
        drain_of_message hsecond
      rw [drain_of_message hwhole, List.nil_append, hnext, Drained.after_after]
      refine Drained.joined_after_congr rfl ?_
      exact (Message.join_chunk_chunk data second []).symm

/-- Draining bytes at once is draining their front and then the rest. -/
theorem drain_append {ask : HeadRule k ρ} (state : Decoder k × ρ) (front back : Bytes)
    (hsize : ∀ message ∈ ((source ask).drain false state front).values,
      message.isTooLarge = false) :
    ((source ask).drain false state (front ++ back)).joined =
      (((source ask).drain false ((source ask).drain false state front).state
        (((source ask).drain false state front).rest ++ back)).after
          ((source ask).drain false state front).values).joined := by
  revert hsize
  refine drain_induction ask false
    (motive := fun state front drained => (∀ message ∈ drained.values,
      message.isTooLarge = false) →
        ((source ask).drain false state (front ++ back)).joined =
          (((source ask).drain false drained.state (drained.rest ++ back)).after
            drained.values).joined) ?_ ?_ state front
  · intro state bytes next rule rest h _
    rw [Drained.after_nil]
    refine congrArg _ (Source.drain_congr ?_)
    rw [pull_eq, pull_eq, decode_append_of_none (by rw [h]), h]
  · intro state bytes message next rule rest h ih hsize
    simp only [Drained.after_values, List.singleton_append, List.mem_cons, forall_eq_or_imp]
      at hsize
    rw [drain_append_of_message h hsize.1]
    rw [Drained.joined_after_congr (ih hsize.2) rfl, Drained.after_after]
    rfl

/-! ## Deliveries -/

theorem pull_drained (ask : HeadRule k ρ) (state : Decoder k × ρ) (bytes : Bytes) :
    (source ask).pull false ((source ask).drain false state bytes).state
        ((source ask).drain false state bytes).rest =
      ⟨.ok none, ((source ask).drain false state bytes).state,
        ((source ask).drain false state bytes).rest⟩ := by
  refine drain_induction ask false
    (motive := fun _ _ drained => (source ask).pull false drained.state drained.rest =
      ⟨.ok none, drained.state, drained.rest⟩) ?_ ?_ state bytes
  · intro state bytes next rule rest h
    have hwaits := decode_append_of_none (by rw [h]) []
    rw [h, List.append_nil, List.append_nil, h] at hwaits
    rw [pull_eq]
    dsimp only
    rw [← hwaits]
  · intro state bytes message next rule rest _ ih
    exact ih

theorem deliver_cons (ask : HeadRule k ρ) (state : Decoder k × ρ) (waiting piece : Bytes)
    (more : List Bytes) :
    (source ask).deliver state waiting (piece :: more) =
      ((source ask).deliver ((source ask).drain false state (waiting ++ piece)).state
        ((source ask).drain false state (waiting ++ piece)).rest more).after
          ((source ask).drain false state (waiting ++ piece)).values := by
  rw [Source.deliver]
  dsimp only
  rw [drain_error?]
  rfl

theorem deliver_append (ask : HeadRule k ρ) (state : Decoder k × ρ) (waiting : Bytes)
    (early late : List Bytes) :
    (source ask).deliver state waiting (early ++ late) =
      ((source ask).deliver ((source ask).deliver state waiting early).state
        ((source ask).deliver state waiting early).rest late).after
          ((source ask).deliver state waiting early).values := by
  induction early generalizing state waiting with
  | nil => rfl
  | cons piece more ih =>
      rw [List.cons_append, deliver_cons, deliver_cons, ih, Drained.after_after]
      rfl

/-- Bytes that arrive in pieces are decoded as if they had arrived at once. -/
theorem deliver_joined {ask : HeadRule k ρ} {state : Decoder k × ρ} {waiting : Bytes}
    (hwaits : (source ask).pull false state waiting = ⟨.ok none, state, waiting⟩)
    (pieces : List Bytes)
    (hsize : ∀ message ∈ ((source ask).deliver state waiting pieces).values,
      message.isTooLarge = false) :
    ((source ask).deliver state waiting pieces).joined =
      ((source ask).drain false state (waiting ++ pieces.flatten)).joined := by
  induction pieces generalizing state waiting with
  | nil => rw [Source.deliver, List.flatten_nil, List.append_nil, Source.drain_of_none hwaits]
  | cons piece more ih =>
      rw [deliver_cons] at hsize ⊢
      simp only [Drained.after_values, List.mem_append] at hsize
      rw [Drained.joined_after_congr (ih (pull_drained ask state _)
        fun message hmem => hsize message (.inr hmem)) rfl]
      rw [List.flatten_cons, ← List.append_assoc,
        drain_append state (waiting ++ piece) more.flatten
          fun message hmem => hsize message (.inl hmem)]

theorem deliver_error? (ask : HeadRule k ρ) (state : Decoder k × ρ) (waiting : Bytes)
    (pieces : List Bytes) : ((source ask).deliver state waiting pieces).error? = none := by
  induction pieces generalizing state waiting with
  | nil => rfl
  | cons piece more ih =>
      rw [deliver_cons]
      exact ih _ _

theorem pull_nil (ask : HeadRule k ρ) (ended : Bool) (limits : Limits) (rule : ρ) :
    (source ask).pull ended (⟨limits, .head⟩, rule) [] =
      ⟨.ok none, (⟨limits, .head⟩, rule), []⟩ := by
  cases k <;> cases ended <;> rfl

theorem arrive_eq (ask : HeadRule k ρ) (state : Decoder k × ρ) (pieces : List Bytes)
    (ended : Bool) :
    (source ask).arrive state pieces ended =
      if ended then
        ((source ask).drain true ((source ask).deliver state [] pieces).state
          ((source ask).deliver state [] pieces).rest).after
            ((source ask).deliver state [] pieces).values
      else (source ask).deliver state [] pieces := by
  simp only [Source.arrive, deliver_error?, Option.isNone_none, Bool.and_true]

/-- Two ways of cutting the same bytes, with the end of the input behind them or not. -/
theorem arrive_joined {ask : HeadRule k ρ} (limits : Limits) (rule : ρ) {first second : List Bytes}
    (hbytes : first.flatten = second.flatten) (ended : Bool)
    (hfirst : ∀ message ∈ ((source ask).arrive (⟨limits, .head⟩, rule) first ended).values,
      message.isTooLarge = false)
    (hsecond : ∀ message ∈ ((source ask).arrive (⟨limits, .head⟩, rule) second ended).values,
      message.isTooLarge = false) :
    ((source ask).arrive (⟨limits, .head⟩, rule) first ended).joined =
      ((source ask).arrive (⟨limits, .head⟩, rule) second ended).joined := by
  have hdelivered : ∀ pieces : List Bytes,
      (∀ message ∈ ((source ask).arrive (⟨limits, .head⟩, rule) pieces ended).values,
        message.isTooLarge = false) →
      ((source ask).deliver (⟨limits, .head⟩, rule) [] pieces).joined =
        ((source ask).drain false (⟨limits, .head⟩, rule) pieces.flatten).joined := by
    intro pieces hpieces
    refine deliver_joined (pull_nil ask false limits rule) pieces fun message hmem => ?_
    refine hpieces message ?_
    rw [arrive_eq]
    split
    · exact List.mem_append_left _ hmem
    · exact hmem
  have hsame := (hdelivered first hfirst).trans (hbytes ▸ (hdelivered second hsecond).symm)
  rw [arrive_eq, arrive_eq]
  cases ended with
  | false => exact hsame
  | true =>
      obtain ⟨hvalues, _, hstate, hrest⟩ := Drained.joined_ext hsame
      rw [hstate, hrest]
      exact Drained.joined_after_congr rfl hvalues

end Decoder

end HttpFraming
