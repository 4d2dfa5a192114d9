import HttpFraming.Proofs.Arrival.Cuts

/-!
# Fronts of the input

Where a head or a trailer section is too large, the cuts in the input may decide whether a
decoder goes on. In pieces it still shows nothing but what it shows of some front of the input
at once, and of less than all of it only if it has failed there: `Decoder.deliver_front`. That
is because a decoder that has failed is silent.
-/

namespace HttpFraming

namespace Message

def isHeader : Message k → Bool
  | header _ => true
  | _ => false

/-- Whether the part completes its message. A failure does not. -/
def completes : Message k → Bool
  | payload item => item.isLast
  | _ => false

def heads (messages : List (Message k)) : Nat :=
  messages.countP isHeader

theorem heads_append (first second : List (Message k)) :
    heads (first ++ second) = heads first + heads second :=
  List.countP_append

section Join

variable {p : Message k → Bool} (hp : ∀ data, p (.payload (.chunk data)) = false)

include hp

theorem filter_join (messages : List (Message k)) :
    (join messages).filter p = messages.filter p := by
  have hone : ∀ message (joined : List (Message k)),
      (joinOne message joined).filter p = (message :: joined).filter p := by
    intro message joined
    unfold joinOne
    split
    · simp [hp]
    · rfl
  induction messages with
  | nil => rw [join_nil]
  | cons message more ih =>
      rw [join_cons, hone, List.filter_cons, ih, List.filter_cons]

theorem any_join (messages : List (Message k)) : (join messages).any p = messages.any p := by
  have hfilter : ∀ l : List (Message k), (l.filter p).any p = l.any p := by
    intro l
    simp only [List.any_filter, Bool.and_self]
  rw [← hfilter, filter_join hp, hfilter]

theorem any_eq_of_join {first second : List (Message k)} (h : join first = join second) :
    first.any p = second.any p := by
  rw [← any_join hp, h, any_join hp]

end Join

theorem mem_join {message : Message k}
    (hmessage : ∀ data, message ≠ .payload (.chunk data)) {messages : List (Message k)} :
    message ∈ join messages ↔ message ∈ messages := by
  have hany : (join messages).any (fun m => decide (m = message)) = messages.any _ :=
    any_join (fun data => decide_eq_false (hmessage data).symm) messages
  rw [Bool.eq_iff_iff] at hany
  simpa using hany

theorem heads_join (messages : List (Message k)) : heads (join messages) = heads messages := by
  rw [heads, List.countP_eq_length_filter, filter_join (fun _ => rfl),
    ← List.countP_eq_length_filter, heads]

theorem heads_eq_of_join {first second : List (Message k)} (h : join first = join second) :
    heads first = heads second := by
  rw [← heads_join, h, heads_join]

theorem heads_of_isFailure {message : Message k} (h : message.isFailure = true) :
    heads [message] = 0 := by
  cases message with
  | failure failure => rfl
  | header h' => cases h
  | payload item => cases h
  | raw data => cases h

theorem isFailure_of_isTooLarge {message : Message k} (h : message.isTooLarge = true) :
    message.isFailure = true := by
  cases message with
  | failure failure => rfl
  | header h' => cases h
  | payload item => cases h
  | raw data => cases h

end Message

namespace Decoder

variable {k : Kind} {ρ : Type} {ask : HeadRule k ρ}

/-! ## Steps -/

/-- What a step can hand out, and where it then leaves the decoder. -/
inductive Hands (decoder : Decoder k) : Message k → Decoder k → Prop
  | header (h : Head k) (reader : BodyReader) (hphase : decoder.phase = .head) :
      decoder.Hands (.header h) ⟨decoder.limits, .body reader⟩
  | payload (item : Item) (reader reader' : BodyReader) (hphase : decoder.phase = .body reader) :
      decoder.Hands (.payload item) ⟨decoder.limits, if item.isLast then .head else .body reader'⟩
  | failure (failure : Failure k) : decoder.Hands (.failure failure) ⟨decoder.limits, .failed⟩

theorem hands_of_decode {decoder : Decoder k} {ended : Bool} {rule rule' : ρ}
    {bytes rest : Bytes} {message : Message k} {next : Decoder k}
    (h : decoder.decode ask ended rule bytes = ⟨some message, next, rule', rest⟩) :
    decoder.Hands message next := by
  have hfail : ∀ (head? : Option (Head k)) cause (left : Bytes) (state : ρ),
      decoder.fail head? cause state left = ⟨some message, next, rule', rest⟩ →
        decoder.Hands message next := by
    intro head? cause left state hfail
    cases hfail
    exact .failure _
  unfold decode at h
  split at h
  · cases h
  · rename_i reader hphase
    unfold readBody at h
    split at h
    · cases h
      exact .payload _ reader _ hphase
    · cases h
    · exact hfail _ _ _ _ h
  · rename_i hphase
    split at h
    · cases h
    · unfold readHead at h
      split at h
      · unfold enter at h
        dsimp only at h
        split at h
        · cases h
          exact .header _ _ hphase
        · exact hfail _ _ _ _ h
      · split at h
        · exact hfail _ _ _ _ h
        · cases h
      · exact hfail _ _ _ _ h

namespace Hands

variable {decoder next : Decoder k} {message : Message k}

theorem failed (h : decoder.Hands message next) (hfailure : message.isFailure = true) :
    next.phase = .failed := by
  cases h with
  | header h reader hphase => cases hfailure
  | payload item reader reader' hphase => cases hfailure
  | failure failure => rfl

theorem idle (h : decoder.Hands message next) (hdone : message.completes = true) :
    next = ⟨decoder.limits, .head⟩ := by
  cases h with
  | header h reader hphase => cases hdone
  | payload item reader reader' hphase =>
      have hlast : item.isLast = true := hdone
      rw [if_pos hlast]
  | failure failure => cases hdone

theorem starts (h : decoder.Hands message next) (hphase : decoder.phase = .head) :
    message.isHeader = true ∨ message.isFailure = true := by
  cases h with
  | header h reader _ => exact .inl rfl
  | payload item reader reader' hbody => cases hphase.symm.trans hbody
  | failure failure => exact .inr rfl

end Hands

/-! ## After a failure -/

theorem drain_of_failed {state : Decoder k × ρ} (hfailed : state.1.phase = .failed)
    (ended : Bool) (bytes : Bytes) :
    (source ask).drain ended state bytes = ⟨[], none, state, []⟩ :=
  drain_of_wait (decode_failed hfailed ask ended state.2 bytes)

theorem deliver_of_failed {state : Decoder k × ρ} (hfailed : state.1.phase = .failed)
    (pieces : List Bytes) : (source ask).deliver state [] pieces = ⟨[], none, state, []⟩ := by
  induction pieces with
  | nil => rfl
  | cons piece more ih =>
      rw [deliver_cons, drain_of_failed hfailed, ih]
      rfl

theorem drain_of_fail {ended : Bool} {state : Decoder k × ρ} {bytes rest : Bytes}
    {head? : Option (Head k)} {cause : ReadError} {rule : ρ}
    (h : state.1.decode ask ended state.2 bytes = state.1.fail head? cause rule rest) :
    (source ask).drain ended state bytes =
      ⟨[.failure ⟨head?, cause, true⟩], none, (⟨state.1.limits, .failed⟩, rule), []⟩ := by
  rw [drain_of_message h, drain_of_failed rfl]
  rfl

theorem failed_of_drain {ended : Bool} {state : Decoder k × ρ} {bytes : Bytes}
    (h : ((source ask).drain ended state bytes).values.any Message.isFailure = true) :
    ((source ask).drain ended state bytes).state.1.phase = .failed ∧
      ((source ask).drain ended state bytes).rest = [] := by
  revert h
  refine drain_induction ask ended (motive := fun _ _ drained =>
    drained.values.any Message.isFailure = true →
      drained.state.1.phase = .failed ∧ drained.rest = []) ?_ ?_ state bytes
  · intro state bytes next rule rest _ hfailure
    cases hfailure
  · intro state bytes message next rule rest hdecode ih hfailure
    rw [Drained.after_values, List.singleton_append, List.any_cons, Bool.or_eq_true] at hfailure
    rcases hfailure with hfirst | hlater
    · rw [drain_of_failed ((hands_of_decode hdecode).failed hfirst)]
      exact ⟨(hands_of_decode hdecode).failed hfirst, rfl⟩
    · exact ih hlater

/-! ## Pieces -/

/-- Bytes that arrive in pieces are decoded as a front of them is at once, and as all of them
are unless that front fails. -/
theorem deliver_front {state : Decoder k × ρ} {waiting : Bytes}
    (hwaits : (source ask).pull false state waiting = ⟨.ok none, state, waiting⟩)
    (pieces : List Bytes) :
    ∃ front back, pieces.flatten = front ++ back ∧
      ((source ask).deliver state waiting pieces).joined =
        ((source ask).drain false state (waiting ++ front)).joined ∧
      (back = [] ∨ ((source ask).drain false state (waiting ++ front)).values.any
        Message.isFailure = true) := by
  induction pieces generalizing state waiting with
  | nil =>
      refine ⟨[], [], rfl, ?_, .inl rfl⟩
      rw [Source.deliver, List.append_nil, Source.drain_of_none hwaits]
  | cons piece more ih =>
      rw [deliver_cons, List.flatten_cons]
      cases hlarge : ((source ask).drain false state (waiting ++ piece)).values.any
          Message.isTooLarge with
      | true =>
          obtain ⟨message, hmem, hmessage⟩ := List.any_eq_true.mp hlarge
          have hfailure := List.any_eq_true.mpr
            ⟨message, hmem, Message.isFailure_of_isTooLarge hmessage⟩
          obtain ⟨hfailed, hrest⟩ := failed_of_drain hfailure
          refine ⟨piece, more.flatten, rfl, ?_, .inr hfailure⟩
          rw [hrest, deliver_of_failed hfailed, Drained.joined, Drained.joined,
            Drained.after_values, List.append_nil, hrest, drain_error?]
          rfl
      | false =>
          have hsize : ∀ message ∈ ((source ask).drain false state (waiting ++ piece)).values,
              message.isTooLarge = false := by
            simpa only [List.any_eq_false, Bool.not_eq_true] using hlarge
          obtain ⟨front, back, hsplit, hjoined, hfront⟩ := ih (pull_drained ask state _)
          have hwhole := drain_append state (waiting ++ piece) front hsize
          rw [List.append_assoc] at hwhole
          refine ⟨piece ++ front, back, by rw [hsplit, List.append_assoc], ?_, ?_⟩
          · rw [hwhole]
            exact Drained.joined_after_congr hjoined rfl
          · refine hfront.imp id fun hfailure => ?_
            rw [Message.any_eq_of_join (fun _ => rfl) (Drained.joined_ext hwhole).1,
              Drained.after_values, List.any_append, hfailure,
              Bool.or_true]

/-! ## More bytes -/

theorem drain_heads_le (state : Decoder k × ρ) (front back : Bytes) :
    Message.heads ((source ask).drain false state front).values ≤
      Message.heads ((source ask).drain false state (front ++ back)).values := by
  refine drain_induction ask false (motive := fun state front drained =>
    Message.heads drained.values ≤
      Message.heads ((source ask).drain false state (front ++ back)).values) ?_ ?_ state front
  · intro state bytes next rule rest _
    exact Nat.zero_le _
  · intro state bytes message next rule rest hdecode ih
    rw [Drained.after_values, Message.heads_append]
    cases hsize : message.isTooLarge with
    | true =>
        have hfailure := Message.isFailure_of_isTooLarge hsize
        rw [drain_of_failed ((hands_of_decode hdecode).failed hfailure),
          Message.heads_of_isFailure hfailure]
        exact Nat.zero_le _
    | false =>
        have hwhole := (Drained.joined_ext (drain_append_of_message hdecode hsize back)).1
        rw [Message.heads_eq_of_join hwhole, Drained.after_values, Message.heads_append]
        exact Nat.add_le_add_left ih _

/-- Between messages a decoder hands out a head, or a failure, before anything else, and keeps
the bytes from which it makes nothing. -/
theorem drain_head_cases (limits : Limits) (rule : ρ) (bytes : Bytes) :
    (source ask).drain false (⟨limits, .head⟩, rule) bytes =
        ⟨[], none, (⟨limits, .head⟩, rule), bytes⟩ ∨
      ∃ message more, ((source ask).drain false (⟨limits, .head⟩, rule) bytes).values =
        message :: more ∧ (message.isHeader = true ∨ message.isFailure = true) := by
  rcases hdecode : (⟨limits, .head⟩ : Decoder k).decode ask false rule bytes with
    ⟨message?, next, rule', rest⟩
  cases message? with
  | none =>
      rw [decode_head rfl] at hdecode
      have hwaits := readHead_of_none (by rw [hdecode])
      exact .inl (drain_of_wait ((decode_head rfl ask rule bytes).trans hwaits))
  | some message =>
      rw [drain_of_message hdecode]
      exact .inr ⟨message, _, rfl, (hands_of_decode hdecode).starts rfl⟩

/-- Where a message is complete the decoder stands between messages, and more bytes are read
from there on. -/
theorem drain_of_completes {state : Decoder k × ρ} {front : Bytes}
    (hdone : ((source ask).drain false state front).values.any Message.completes = true) :
    ∃ before last rule rest, last.completes = true ∧
      (source ask).drain false state front =
        ((source ask).drain false (⟨state.1.limits, .head⟩, rule) rest).after (before ++ [last]) ∧
      ∀ back, ((source ask).drain false state (front ++ back)).joined =
        (((source ask).drain false (⟨state.1.limits, .head⟩, rule) (rest ++ back)).after
          (before ++ [last])).joined := by
  revert hdone
  refine drain_induction ask false (motive := fun state front drained =>
    drained.values.any Message.completes = true →
    ∃ before last rule rest, last.completes = true ∧
      drained =
        ((source ask).drain false (⟨state.1.limits, .head⟩, rule) rest).after (before ++ [last]) ∧
      ∀ back, ((source ask).drain false state (front ++ back)).joined =
        (((source ask).drain false (⟨state.1.limits, .head⟩, rule) (rest ++ back)).after
          (before ++ [last])).joined) ?_ ?_ state front
  · intro state bytes next rule rest _ hdone
    cases hdone
  · intro state bytes message next rule rest hdecode ih hdone
    have hands := hands_of_decode hdecode
    have hlimits : next.limits = state.1.limits := by cases hands <;> rfl
    cases hsize : message.isTooLarge with
    | true =>
        have hfailure := Message.isFailure_of_isTooLarge hsize
        rw [drain_of_failed (hands.failed hfailure)] at hdone
        cases message with
        | failure failure => cases hdone
        | _ => cases hfailure
    | false =>
        have hwhole := drain_append_of_message hdecode hsize
        cases hlast : message.completes with
        | true =>
            rw [hands.idle hlast] at hwhole ⊢
            exact ⟨[], message, rule, rest, hlast, rfl, hwhole⟩
        | false =>
            rw [Drained.after_values, List.singleton_append, List.any_cons, hlast,
              Bool.false_or] at hdone
            obtain ⟨before, last, rule', rest', hdone', hdrained, hmore⟩ := ih hdone
            rw [hlimits] at hdrained hmore
            refine ⟨message :: before, last, rule', rest', hdone', ?_, fun back => ?_⟩
            · rw [hdrained, Drained.after_after]
              rfl
            · rw [hwhole, Drained.joined_after_congr (hmore back) rfl, Drained.after_after]
              rfl

end Decoder

end HttpFraming
