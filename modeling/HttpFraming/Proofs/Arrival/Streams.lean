import HttpFraming.Proofs.Arrival.Calls
import HttpFraming.Proofs.RoundTrip.Messages

/-!
# Streams of messages

Whatever bytes a decoder is fed and however it is asked, what it hands out is a stream: complete
messages one after the other, and behind them at most the front of one more, or a failure in the
place of what could not be read: `Decoder.calls_shown`. A failure is the last thing it hands out.
-/

namespace HttpFraming

namespace Message

variable {k : Kind}

/-- The front of a message: its head and some chunks. -/
def opened (h : Head k) (chunks : List Bytes) : List (Message k) :=
  .header h :: chunks.map fun data => .payload (.chunk data)

/-- What may stand behind complete messages: nothing, the front of one more, or a failure. Only
the failure of a head can have a head. -/
inductive Unfinished : List (Message k) → Prop
  | nothing : Unfinished []
  | opened (h : Head k) (chunks : List Bytes) (hchunks : [] ∉ chunks) :
      Unfinished (Message.opened h chunks)
  | unread (failure : Failure k) (hfatal : failure.fatal = true) : Unfinished [.failure failure]
  | torn (h : Head k) (chunks : List Bytes) (hchunks : [] ∉ chunks) (failure : Failure k)
      (hfatal : failure.fatal = true) (hhead : failure.head? = none) :
      Unfinished (Message.opened h chunks ++ [.failure failure])

theorem opened_any_isFailure (h : Head k) (chunks : List Bytes) :
    (opened h chunks).any isFailure = false := by
  simp [opened, isFailure]

theorem opened_inj {h h' : Head k} {chunks chunks' : List Bytes}
    (hsame : opened h chunks = opened h' chunks') : h = h' ∧ chunks = chunks' := by
  injection hsame with hhead hmap
  refine ⟨Message.header.inj hhead, List.map_inj_right (fun data data' hdata => ?_) |>.mp hmap⟩
  injection hdata with hitem
  exact Item.chunk.inj hitem

theorem Unfinished.exists_opened {tail : List (Message k)} (h : Unfinished tail)
    (hsome : tail ≠ []) (hgood : tail.any isFailure ≠ true) :
    ∃ head chunks, [] ∉ chunks ∧ tail = Message.opened head chunks := by
  cases h with
  | nothing => exact absurd rfl hsome
  | opened head chunks hchunks => exact ⟨head, chunks, hchunks, rfl⟩
  | unread failure hfatal => exact absurd rfl hgood
  | torn head chunks hchunks failure hfatal hhead =>
      refine absurd ?_ hgood
      rw [List.any_append]
      exact Bool.or_true _

theorem opened_append_chunk (h : Head k) (chunks : List Bytes) (data : Bytes) :
    opened h chunks ++ [.payload (.chunk data)] = opened h (chunks ++ [data]) := by
  simp [opened]

theorem opened_append_last (h : Head k) (chunks : List Bytes) (data : Bytes) (trailers : Fields) :
    opened h chunks ++ [.payload (.last data trailers)] =
      Parts.messages ⟨h, chunks, data, trailers⟩ := by
  simp [opened, Parts.messages, payloads]

end Message

theorem Parts.any_isFailure (parts : Parts k) : parts.messages.any Message.isFailure = false := by
  simp [Parts.messages, Message.payloads, Message.isFailure]

/-! ## Chunks and failures -/

theorem ChunkPlace.read_chunk_ne_nil {place : ChunkPlace} {bytes data : Bytes}
    (h : (place.read bytes).answer = .ok (some (.chunk data))) : data ≠ [] := by
  have hpiece : ∀ (place : ChunkPlace) (bytes : Bytes),
      (place.readPiece bytes).answer = .ok (some (.chunk data)) → data ≠ [] := by
    intro place bytes h
    cases place with
    | line between => cases h
    | data remaining pos =>
        by_cases hne : bytes = []
        · subst hne
          cases h
        · rw [readPiece_data pos hne] at h
          cases h
          simp [hne, Nat.ne_of_gt pos]
    | trailers =>
        simp only [readPiece] at h
        cases hread : (Trailers.read bytes).answer with
        | error cause => simp [hread, Except.map] at h
        | ok fields? => cases fields? <;> simp [hread, Except.map] at h
  cases place with
  | data remaining pos => exact hpiece _ _ h
  | trailers => exact hpiece _ _ h
  | line between =>
      rw [read_line] at h
      split at h
      · cases h
      · exact hpiece _ _ h

theorem BodyReader.read_chunk_ne_nil {reader : BodyReader} {ended : Bool} {bytes data : Bytes}
    (h : (reader.read ended bytes).answer = .ok (some (.chunk data))) : data ≠ [] := by
  have hmore : (reader.readMore bytes).answer = .ok (some (.chunk data)) := by
    unfold BodyReader.read at h
    split at h
    · cases reader <;> cases ended <;> cases h
    · exact h
  clear h
  cases reader with
  | empty => cases hmore
  | chunked place => exact ChunkPlace.read_chunk_ne_nil hmore
  | untilClose =>
      by_cases hne : bytes = []
      · subst hne
        cases hmore
      · rw [readMore_untilClose hne] at hmore
        cases hmore
        exact hne
  | length remaining =>
      cases remaining with
      | zero => cases hmore
      | succ n =>
          by_cases hne : bytes = []
          · subst hne
            cases hmore
          · rw [readMore_length n.succ_pos hne] at hmore
            cases hmore
            simp [hne]

/-! ## Streams -/

/-- What is true of a message part beyond its kind, where a decoder in this phase hands it
out. -/
def DecoderPhase.Allows (phase : DecoderPhase) : Message k → Prop
  | .payload (.chunk data) => data ≠ []
  | .failure failure =>
      failure.fatal = true ∧ phase ≠ .failed ∧ (phase = .head ∨ failure.head? = none)
  | _ => True

namespace Decoder

variable {k : Kind} {ρ : Type} {ask : HeadRule k ρ}

theorem allows_of_decode {decoder next : Decoder k} {ended : Bool} {rule rule' : ρ}
    {bytes rest : Bytes} {message : Message k}
    (h : decoder.decode ask ended rule bytes = ⟨some message, next, rule', rest⟩) :
    decoder.phase.Allows message := by
  have hfail : ∀ (head? : Option (Head k)) cause (left : Bytes) (state : ρ),
      decoder.fail head? cause state left = ⟨some message, next, rule', rest⟩ →
        decoder.phase ≠ .failed → (decoder.phase = .head ∨ head? = none) →
          decoder.phase.Allows message := by
    intro head? cause left state hfail hphase hhead
    cases hfail
    exact ⟨rfl, hphase, hhead⟩
  unfold decode at h
  split at h
  · cases h
  · rename_i reader hphase
    unfold readBody at h
    split at h
    · rename_i item next' rest' hread
      cases h
      cases item with
      | chunk data => exact BodyReader.read_chunk_ne_nil (congrArg BodyReading.answer hread)
      | last data trailers => trivial
    · cases h
    · exact hfail _ _ _ _ h (by simp [hphase]) (.inr rfl)
  · rename_i hphase
    have hopen : decoder.phase ≠ .failed := by simp [hphase]
    split at h
    · cases h
    · unfold readHead at h
      split at h
      · unfold enter at h
        dsimp only at h
        split at h
        · cases h
          trivial
        · exact hfail _ _ _ _ h hopen (.inl hphase)
      · split at h
        · exact hfail _ _ _ _ h hopen (.inr rfl)
        · cases h
      · exact hfail _ _ _ _ h hopen (.inr rfl)

/-- A decoder that has handed out these parts: complete messages and the tail behind them. It
is idle if there is no tail, and has failed if the tail has a failure. -/
structure Shown (decoder : Decoder k) (messages : List (Message k)) (complete : List (Parts k))
    (tail : List (Message k)) : Prop where
  split : messages = complete.flatMap Parts.messages ++ tail
  chunks : ∀ parts ∈ complete, [] ∉ parts.chunks
  unfinished : Message.Unfinished tail
  idle : decoder.isIdle = true ↔ tail = []
  failed : decoder.phase = .failed ↔ tail.any Message.isFailure = true

namespace Shown

variable {decoder next : Decoder k} {messages complete : List _} {tail : List (Message k)}

theorem start (limits : Limits) : (⟨limits, .head⟩ : Decoder k).Shown [] [] [] :=
  ⟨rfl, by simp, .nothing, by simp [isIdle], by simp⟩

theorem exists_opened (h : decoder.Shown messages complete tail) {reader : BodyReader}
    (hphase : decoder.phase = .body reader) :
    ∃ head chunks, [] ∉ chunks ∧ tail = Message.opened head chunks :=
  h.unfinished.exists_opened (fun hnil => by simpa [isIdle, hphase] using h.idle.mpr hnil)
    fun hfailure => by simpa [hphase] using h.failed.mpr hfailure

theorem nil_of_head (h : decoder.Shown messages complete tail) (hphase : decoder.phase = .head) :
    tail = [] :=
  h.idle.mp (by simp [isIdle, hphase])

theorem header (h : decoder.Shown messages complete []) (head : Head k) (reader : BodyReader) :
    (⟨decoder.limits, .body reader⟩ : Decoder k).Shown (messages ++ [.header head]) complete
      (Message.opened head []) := by
  refine ⟨?_, h.chunks, .opened head [] (by simp), ?_, ?_⟩
  · simp [h.split, Message.opened]
  · simp [isIdle, Message.opened]
  · simp [Message.opened_any_isFailure]

section Opened

variable {head : Head k} {chunks : List Bytes}
  (h : decoder.Shown messages complete (Message.opened head chunks))

include h

theorem nil_not_mem : [] ∉ chunks := by
  obtain ⟨head', chunks', hchunks, hsame⟩ := h.unfinished.exists_opened (by simp [Message.opened])
    (by simp [Message.opened_any_isFailure])
  rw [(Message.opened_inj hsame).2]
  exact hchunks

theorem chunk {data : Bytes} (hdata : data ≠ []) (reader : BodyReader) :
    (⟨decoder.limits, .body reader⟩ : Decoder k).Shown (messages ++ [.payload (.chunk data)])
      complete (Message.opened head (chunks ++ [data])) := by
  refine ⟨?_, h.chunks, .opened head _ ?_, ?_, ?_⟩
  · rw [h.split, List.append_assoc, Message.opened_append_chunk]
  · simp [h.nil_not_mem, hdata.symm]
  · simp [isIdle, Message.opened]
  · simp [Message.opened_any_isFailure]

theorem last (data : Bytes) (trailers : Fields) :
    (⟨decoder.limits, .head⟩ : Decoder k).Shown (messages ++ [.payload (.last data trailers)])
      (complete ++ [⟨head, chunks, data, trailers⟩]) [] := by
  refine ⟨?_, ?_, .nothing, by simp [isIdle], by simp⟩
  · rw [h.split, List.append_assoc, Message.opened_append_last]
    simp
  · intro parts hmem
    rcases List.mem_append.mp hmem with hmem | hmem
    · exact h.chunks parts hmem
    · rw [List.mem_singleton.mp hmem]
      exact h.nil_not_mem

end Opened

theorem failure (h : decoder.Shown messages complete tail) {failure : Failure k}
    (hallows : decoder.phase.Allows (.failure failure)) :
    (⟨decoder.limits, .failed⟩ : Decoder k).Shown (messages ++ [.failure failure]) complete
      (tail ++ [.failure failure]) := by
  obtain ⟨hfatal, hopen, hhead⟩ := hallows
  refine ⟨by rw [h.split, List.append_assoc], h.chunks, ?_, by simp [isIdle], ?_⟩
  · cases hphase : decoder.phase with
    | failed => exact absurd hphase hopen
    | head =>
        rw [h.nil_of_head hphase]
        exact .unread failure hfatal
    | body reader =>
        obtain ⟨head, chunks, hchunks, rfl⟩ := h.exists_opened hphase
        exact .torn head chunks hchunks failure hfatal (hhead.resolve_left (by simp [hphase]))
  · simp [Message.isFailure]

theorem hands {message : Message k} (h : decoder.Shown messages complete tail)
    (hands : decoder.Hands message next) (hallows : decoder.phase.Allows message) :
    ∃ more tail', next.Shown (messages ++ [message]) (complete ++ more) tail' := by
  cases hands with
  | header head reader hphase =>
      have hnil := h.nil_of_head hphase
      subst hnil
      exact ⟨[], _, complete.append_nil ▸ h.header head reader⟩
  | payload item reader reader' hphase =>
      obtain ⟨head, chunks, -, rfl⟩ := h.exists_opened hphase
      cases item with
      | chunk data => exact ⟨[], _, complete.append_nil ▸ h.chunk hallows reader'⟩
      | last data trailers => exact ⟨_, _, h.last data trailers⟩
  | failure failure => exact ⟨[], _, complete.append_nil ▸ h.failure hallows⟩

theorem waits {ended : Bool} {rest : Bytes} (h : decoder.Shown messages complete tail)
    (hwaits : decoder.Waits ended next rest) : next.Shown messages complete tail := by
  cases hwaits with
  | head rest hphase hroom hend => exact h
  | body reader reader' rest hphase hroom hend =>
      refine ⟨h.split, h.chunks, h.unfinished, ?_, ?_⟩
      · rw [← h.idle]
        simp [isIdle, hphase]
      · rw [← h.failed]
        simp [hphase]
  | failed hphase => exact h

end Shown

theorem Shown.phase_failed {decoder : Decoder k} {messages tail : List (Message k)}
    {complete : List (Parts k)} (h : decoder.Shown messages complete tail)
    (hfailure : messages.any Message.isFailure = true) : decoder.phase = .failed := by
  rw [h.split, List.any_append, List.any_flatMap] at hfailure
  simpa [Parts.any_isFailure] using h.failed.mpr (by simpa [Parts.any_isFailure] using hfailure)

theorem Shown.pull {state : Decoder k × ρ} {messages tail : List (Message k)}
    {complete : List (Parts k)} (h : state.1.Shown messages complete tail) (ask : HeadRule k ρ)
    (ended : Bool) (bytes : Bytes) :
    ∃ message? complete' tail', ((source ask).pull ended state bytes).answer = .ok message? ∧
      ((source ask).pull ended state bytes).state.1.Shown (messages ++ message?.toList) complete'
        tail' := by
  rcases hdecode : state.1.decode ask ended state.2 bytes with ⟨message?, next, rule, rest⟩
  rw [pull_eq, hdecode]
  cases message? with
  | none =>
      refine ⟨none, complete, tail, rfl, ?_⟩
      simpa using h.waits (waits_of_decode hdecode)
  | some message =>
      obtain ⟨more, tail', hshown⟩ :=
        h.hands (hands_of_decode hdecode) (allows_of_decode hdecode)
      exact ⟨some message, complete ++ more, tail', rfl, hshown⟩

/-- A decoder that has failed answers every call with nothing. -/
theorem calls_of_failed (ask : HeadRule k ρ) {state : Decoder k × ρ}
    (hfailed : state.1.phase = .failed) (bytes : Bytes) (calls : List Call) :
    ((source ask).calls state bytes calls).state = state ∧
      ∀ answer ∈ ((source ask).calls state bytes calls).answers, answer = .ok none := by
  refine Source.calls_induction (source ask)
    (motive := fun answers last _ => last = state ∧ ∀ answer ∈ answers, answer = .ok none)
    ⟨rfl, by simp⟩ (fun _ _ _ _ h => h) ?_ calls
  rintro answers last rest ended ⟨rfl, hanswers⟩
  rw [pull_eq, decode_failed hfailed]
  refine ⟨rfl, fun answer hmem => ?_⟩
  rcases List.mem_append.mp hmem with hmem | hmem
  · exact hanswers answer hmem
  · exact List.mem_singleton.mp hmem

/-- However a decoder is fed and asked, it answers without an error, and what it hands out is a
stream of messages; once there is a failure among them, every further call hands out nothing, and
every further ask leaves no bytes. -/
theorem calls_shown (ask : HeadRule k ρ) (limits : Limits) (rule : ρ) (calls : List Call) :
    let called := (source ask).calls (⟨limits, .head⟩, rule) [] calls
    (∀ answer ∈ called.answers, ∃ message?, answer = .ok message?) ∧
      (∃ complete tail, called.state.1.Shown called.values complete tail) ∧
      (called.values.any Message.isFailure = true → ∀ later ended,
        let after := (source ask).calls called.state called.rest (later ++ [.ask ended])
        (∀ answer ∈ after.answers, answer = .ok none) ∧ after.rest = []) := by
  intro called
  have hcalled : (∀ answer ∈ called.answers, ∃ message?, answer = .ok message?) ∧
      ∃ complete tail, called.state.1.Shown called.values complete tail := by
    refine Source.calls_induction (source ask)
      (motive := fun answers state _ => (∀ answer ∈ answers, ∃ message?, answer = .ok message?) ∧
        ∃ complete tail, state.1.Shown (answers.filterMap valueOf) complete tail)
      ⟨by simp, [], [], .start limits⟩ (fun _ _ _ _ h => h) ?_ calls
    rintro answers state bytes ended ⟨hanswers, complete, tail, hshown⟩
    obtain ⟨message?, complete', tail', hanswer, hnext⟩ := hshown.pull ask ended bytes
    refine ⟨fun answer hmem => ?_, complete', tail', ?_⟩
    · rcases List.mem_append.mp hmem with hmem | hmem
      · exact hanswers answer hmem
      · exact ⟨message?, (List.mem_singleton.mp hmem).trans hanswer⟩
    · rw [hanswer, List.filterMap_append]
      cases message? <;> exact hnext
  refine ⟨hcalled.1, hcalled.2, fun hfailure later ended => ?_⟩
  obtain ⟨complete, tail, hshown⟩ := hcalled.2
  have hfailed := hshown.phase_failed hfailure
  refine ⟨(calls_of_failed ask hfailed _ _).2, ?_⟩
  obtain ⟨hstate, -⟩ := calls_of_failed ask hfailed called.rest later
  rw [Source.calls_append]
  simp only [Source.calls, hstate, pull_eq, decode_failed hfailed]

/-- A response that is complete when the bytes end, and behind it, as if they had not, one that
is not. -/
def tornCalls : List Call :=
  [.feed (Bytes.ascii "HTTP/1.1 200 OK\r\n\r\nab"), .ask false, .ask false, .ask false, .ask true,
    .feed (Bytes.ascii "HTTP/1.1 200 OK\r\nContent-Length: 4\r\n\r\ncd"), .ask false, .ask false,
    .ask true]

/-- The second response fails, and a third one is dropped. -/
theorem calls_shown_of_torn_body :
    let called := (source (statusRule .response)).calls (⟨{}, .head⟩, ()) [] tornCalls
    let after := (source (statusRule .response)).calls called.state called.rest
      [.feed (Bytes.ascii "HTTP/1.1 204 No Content\r\n\r\n"), .ask false]
    called.values.map Message.isFailure = [false, false, false, false, false, true] ∧
      (∀ answer ∈ after.answers, answer = .ok none) ∧ after.rest = [] := by
  have hfinal := (calls_shown (statusRule .response) {} () tornCalls).2.2 (by decide +kernel)
  exact ⟨by decide +kernel,
    hfinal [.feed (Bytes.ascii "HTTP/1.1 204 No Content\r\n\r\n")] false⟩

/-! ## Drains -/

inductive Gives : Decoder k → List (Message k) → Decoder k → Prop
  | nil (decoder : Decoder k) : Gives decoder [] decoder
  | waits {decoder middle next : Decoder k} {ended : Bool} {rest : Bytes}
      {messages : List (Message k)} (hwaits : decoder.Waits ended middle rest)
      (hmore : Gives middle messages next) : Gives decoder messages next
  | hands {decoder middle next : Decoder k} {message : Message k} {messages : List (Message k)}
      (hands : decoder.Hands message middle) (hallows : decoder.phase.Allows message)
      (hmore : Gives middle messages next) : Gives decoder (message :: messages) next

theorem Gives.trans {decoder middle next : Decoder k} {first second : List (Message k)}
    (h : decoder.Gives first middle) (h' : middle.Gives second next) :
    decoder.Gives (first ++ second) next := by
  induction h with
  | nil decoder => exact h'
  | waits hwaits _ ih => exact .waits hwaits (ih h')
  | hands hands hallows _ ih => exact .hands hands hallows (ih h')

theorem Gives.cons_shown {decoder last : Decoder k} {message : Message k}
    {messages dealt tail : List (Message k)} {complete : List (Parts k)}
    (h : decoder.Gives (message :: messages) last) (hshown : decoder.Shown dealt complete tail) :
    ∃ reached next : Decoder k, reached.Shown dealt complete tail ∧ reached.Hands message next ∧
      reached.phase.Allows message ∧ next.Gives messages last := by
  generalize hall : message :: messages = all at h
  induction h with
  | nil decoder => cases hall
  | waits hwaits _ ih => exact ih (hshown.waits hwaits) hall
  | @hands decoder middle next message' messages' hands hallows hmore _ =>
      cases hall
      exact ⟨decoder, middle, hshown, hands, hallows, hmore⟩

theorem gives_of_drain (ask : HeadRule k ρ) (ended : Bool) (state : Decoder k × ρ)
    (bytes : Bytes) :
    state.1.Gives ((source ask).drain ended state bytes).values
      ((source ask).drain ended state bytes).state.1 := by
  refine drain_induction ask ended (motive := fun state _ drained =>
    state.1.Gives drained.values drained.state.1) ?_ ?_ state bytes
  · intro state bytes next rule rest hdecode
    exact .waits (waits_of_decode hdecode) (.nil next)
  · intro state bytes message next rule rest hdecode ih
    exact .hands (hands_of_decode hdecode) (allows_of_decode hdecode) ih

theorem gives_of_deliver (ask : HeadRule k ρ) (state : Decoder k × ρ) (waiting : Bytes)
    (pieces : List Bytes) :
    state.1.Gives ((source ask).deliver state waiting pieces).values
      ((source ask).deliver state waiting pieces).state.1 := by
  induction pieces generalizing state waiting with
  | nil => exact .nil state.1
  | cons piece more ih =>
      rw [deliver_cons]
      exact (gives_of_drain ask false state (waiting ++ piece)).trans (ih _ _)

theorem gives_of_arrive (ask : HeadRule k ρ) (state : Decoder k × ρ) (pieces : List Bytes)
    (ended : Bool) :
    state.1.Gives ((source ask).arrive state pieces ended).values
      ((source ask).arrive state pieces ended).state.1 := by
  have hdelivered := gives_of_deliver ask state [] pieces
  rw [arrive_eq]
  split
  · exact hdelivered.trans (gives_of_drain ask true _ _)
  · exact hdelivered

end Decoder

end HttpFraming
