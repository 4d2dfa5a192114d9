import HttpFraming.Message.Encoder
import HttpFraming.Proofs.Arrival.Cuts
import HttpFraming.Proofs.RoundTrip.Head

/-!
# What a decoder takes

`Decoder.Takes` says that a decoder makes certain message parts of certain bytes, whatever
comes behind them and however they arrive. It is closed under concatenation, so that it is
shown for the pieces of a written message one after the other: a head, a line between
chunks, data, a trailer section.
-/

namespace HttpFraming

open Bytes

namespace Message

theorem isTooLarge_joinOne (message : Message k) (joined : List (Message k)) :
    (∀ m ∈ joinOne message joined, m.isTooLarge = false) ↔
      message.isTooLarge = false ∧ ∀ m ∈ joined, m.isTooLarge = false := by
  unfold joinOne
  split
  · simp [isTooLarge]
  · simp

theorem isTooLarge_join (messages : List (Message k)) :
    (∀ m ∈ join messages, m.isTooLarge = false) ↔ ∀ m ∈ messages, m.isTooLarge = false := by
  induction messages with
  | nil => simp
  | cons message more ih => rw [join_cons, isTooLarge_joinOne, ih, List.forall_mem_cons]

def chunkOf (data : Bytes) : List (Message k) :=
  if data.isEmpty then [] else [.payload (.chunk data)]

theorem join_chunkOf_chunkOf (first second : Bytes) (more : List (Message k)) :
    join (chunkOf first ++ (chunkOf second ++ more)) = join (chunkOf (first ++ second) ++ more) := by
  by_cases hfirst : first = []
  · simp [hfirst, chunkOf]
  · by_cases hsecond : second = []
    · simp [hsecond, chunkOf]
    · simpa [chunkOf, hfirst, hsecond] using join_chunk_chunk first second more

theorem join_flatMap_chunkOf (chunks : List Bytes) (more : List (Message k)) :
    join (chunks.flatMap chunkOf ++ more) = join (chunkOf chunks.flatten ++ more) := by
  induction chunks with
  | nil => rfl
  | cons data chunks ih =>
      rw [List.flatMap_cons, List.flatten_cons, List.append_assoc, ← join_append_join, ih,
        join_append_join, join_chunkOf_chunkOf]

end Message

namespace Decoder

variable {k : Kind} {ρ : Type} {ask : HeadRule k ρ}

/-- A decoder takes all of the bytes, makes these parts of them and stops in that state, and
it does so for any bytes behind them. No part of the bytes alone is too large. -/
structure Takes (ask : HeadRule k ρ) (start : Decoder k × ρ) (bytes : Bytes)
    (messages : List (Message k)) (stop : Decoder k × ρ) : Prop where
  whole : ∀ more, ((source ask).drain false start (bytes ++ more)).joined =
    (((source ask).drain false stop more).after messages).joined
  fronts : ∀ front back, bytes = front ++ back → back ≠ [] →
    ∀ m ∈ ((source ask).drain false start front).values, m.isTooLarge = false
  clean : ∀ m ∈ messages, m.isTooLarge = false

namespace Takes

theorem refl (start : Decoder k × ρ) : Takes ask start [] [] start where
  whole more := rfl
  fronts front back hsplit hback := by
    simp only [List.nil_eq, List.append_eq_nil_iff] at hsplit
    exact absurd hsplit.2 hback
  clean := by simp

theorem trans {start middle stop : Decoder k × ρ} {first second : Bytes}
    {messages messages' : List (Message k)} (h : Takes ask start first messages middle)
    (h' : Takes ask middle second messages' stop) :
    Takes ask start (first ++ second) (messages ++ messages') stop where
  whole more := by
    rw [List.append_assoc, h.whole, Drained.joined_after_congr (h'.whole more) rfl,
      Drained.after_after]
  fronts front back hsplit hback := by
    rcases cut_cases hsplit with ⟨behind, hbehind, hfirst, -⟩ | ⟨behind, rfl, hsecond⟩
    · exact h.fronts front behind hfirst hbehind
    · have hwhole := (Drained.joined_ext (h.whole behind)).1
      rw [← Message.isTooLarge_join, hwhole, Message.isTooLarge_join]
      intro m hm
      rcases List.mem_append.mp hm with hm | hm
      · exact h.clean m hm
      · exact h'.fronts behind back hsecond hback m hm
  clean m hm := by
    rcases List.mem_append.mp hm with hm | hm
    · exact h.clean m hm
    · exact h'.clean m hm

/-- The parts are known up to the cuts between chunks only. -/
theorem congr {start stop : Decoder k × ρ} {bytes : Bytes} {messages messages' : List (Message k)}
    (h : Takes ask start bytes messages stop)
    (hjoin : Message.join messages = Message.join messages') :
    Takes ask start bytes messages' stop where
  whole more := (h.whole more).trans (Drained.joined_after_congr rfl hjoin)
  fronts := h.fronts
  clean := by
    rw [← Message.isTooLarge_join, ← hjoin, Message.isTooLarge_join]
    exact h.clean

theorem of_message {start stop : Decoder k × ρ} {bytes : Bytes} {message : Message k}
    (h : start.1.decode ask false start.2 bytes = ⟨some message, stop.1, stop.2, []⟩)
    (hsize : message.isTooLarge = false)
    (hfronts : ∀ front back, bytes = front ++ back → back ≠ [] →
      ∀ m ∈ ((source ask).drain false start front).values, m.isTooLarge = false) :
    Takes ask start bytes [message] stop where
  whole more := drain_append_of_message h hsize more
  fronts := hfronts
  clean := by simpa using hsize

theorem of_wait {start stop : Decoder k × ρ} {bytes : Bytes}
    (h : start.1.decode ask false start.2 bytes = ⟨none, stop.1, stop.2, []⟩)
    (hfronts : ∀ front back, bytes = front ++ back → back ≠ [] →
      ∀ m ∈ ((source ask).drain false start front).values, m.isTooLarge = false) :
    Takes ask start bytes [] stop where
  whole more := by
    rw [Drained.after_nil]
    refine congrArg _ (Source.drain_congr ?_)
    rw [pull_eq, pull_eq, decode_append_of_none (by rw [h]), h]
    rfl
  fronts := hfronts
  clean := by simp

end Takes

/-! ## However the bytes arrive -/

theorem deliver_isTooLarge {state : Decoder k × ρ} {waiting : Bytes} (pieces : List Bytes)
    (hfronts : ∀ front back, pieces.flatten = front ++ back →
      ∀ m ∈ ((source ask).drain false state (waiting ++ front)).values, m.isTooLarge = false) :
    ∀ m ∈ ((source ask).deliver state waiting pieces).values, m.isTooLarge = false := by
  induction pieces generalizing state waiting with
  | nil => simp [Source.deliver]
  | cons piece more ih =>
      have hpiece := hfronts piece more.flatten (by simp)
      rw [deliver_cons]
      intro m hm
      rcases List.mem_append.mp hm with hm | hm
      · exact hpiece m hm
      · refine ih (fun front back hsplit => ?_) m hm
        have hlonger := hfronts (piece ++ front) back (by simp [hsplit])
        have hwhole := (Drained.joined_ext (drain_append state (waiting ++ piece) front hpiece)).1
        rw [← List.append_assoc, ← Message.isTooLarge_join, hwhole, Message.isTooLarge_join]
          at hlonger
        exact fun m hm => hlonger m (List.mem_append_right _ hm)

namespace Takes

/-- Bytes that a decoder takes may arrive in any pieces. -/
theorem deliver {start stop : Decoder k × ρ} {pieces : List Bytes}
    {messages : List (Message k)} (h : Takes ask start pieces.flatten messages stop)
    (hstart : (source ask).pull false start [] = ⟨.ok none, start, []⟩)
    (hstop : (source ask).pull false stop [] = ⟨.ok none, stop, []⟩) :
    ((source ask).deliver start [] pieces).joined =
      ⟨Message.join messages, none, stop, []⟩ := by
  have hwhole := h.whole []
  rw [List.append_nil, Source.drain_of_none hstop] at hwhole
  have hall : ∀ front back, pieces.flatten = front ++ back →
      ∀ m ∈ ((source ask).drain false start ([] ++ front)).values, m.isTooLarge = false := by
    intro front back hsplit
    by_cases hback : back = []
    · subst hback
      rw [List.append_nil] at hsplit
      rw [List.nil_append, ← hsplit, ← Message.isTooLarge_join, (Drained.joined_ext hwhole).1,
        Message.isTooLarge_join]
      simpa using h.clean
    · exact h.fronts front back hsplit hback
  rw [deliver_joined hstart pieces (deliver_isTooLarge pieces hall), List.nil_append, hwhole]
  simp [Drained.joined, Drained.after]

/-- From between messages to between messages, with the end of the input behind the pieces or
not. -/
theorem arrive {limits : Limits} {rule rule' : ρ} {pieces : List Bytes}
    {messages : List (Message k)}
    (h : Takes ask (⟨limits, .head⟩, rule) pieces.flatten messages (⟨limits, .head⟩, rule'))
    (ended : Bool) :
    ((source ask).arrive (⟨limits, .head⟩, rule) pieces ended).joined =
      ⟨Message.join messages, none, (⟨limits, .head⟩, rule'), []⟩ := by
  have hdelivered := h.deliver (pull_nil ask false limits rule) (pull_nil ask false limits rule')
  rw [arrive_eq]
  split
  · simp only [Drained.joined, Drained.mk.injEq] at hdelivered
    obtain ⟨hvalues, _, hstate, hrest⟩ := hdelivered
    rw [hstate, hrest, Source.drain_of_none (pull_nil ask true limits rule')]
    simp [Drained.joined, Drained.after, hvalues]
  · exact hdelivered

end Takes

end Decoder

end HttpFraming
