import HttpFraming.Message
import HttpFraming.Source

/-!
# Message parts up to the cuts between chunks

Two lists of parts that differ only in the cuts between adjacent chunks have the same
`Message.join`. Joining may be done piecewise: `join_append_join` and `join_join_append`.
A drained source is taken up to these cuts by `Drained.joined`.
-/

namespace HttpFraming

namespace Message

def joinOne (message : Message k) (joined : List (Message k)) : List (Message k) :=
  match message, joined with
  | .payload (.chunk data), .payload (.chunk next) :: rest =>
      .payload (.chunk (data ++ next)) :: rest
  | message, joined => message :: joined

@[simp] theorem join_nil : join ([] : List (Message k)) = [] := by
  rw [join.eq_def]

theorem join_cons (message : Message k) (more : List (Message k)) :
    join (message :: more) = joinOne message (join more) := by
  cases message with
  | payload item =>
      cases item with
      | chunk data =>
          rw [join.eq_def]
          dsimp only
          cases join more with
          | nil => rfl
          | cons next rest =>
              cases next with
              | payload item => cases item <;> rfl
              | header h => rfl
              | failure failure => rfl
              | raw data => rfl
      | last data trailers => rw [join.eq_def]; rfl
  | header h => rw [join.eq_def]; rfl
  | failure failure => rw [join.eq_def]; rfl
  | raw data => rw [join.eq_def]; rfl

theorem joinOne_chunk_chunk (first second : Bytes) (joined : List (Message k)) :
    joinOne (.payload (.chunk first)) (joinOne (.payload (.chunk second)) joined) =
      joinOne (.payload (.chunk (first ++ second))) joined := by
  cases joined with
  | nil => rfl
  | cons next rest =>
      cases next with
      | payload item => cases item <;> simp [joinOne]
      | header h => rfl
      | failure failure => rfl
      | raw data => rfl

theorem join_chunk_chunk (first second : Bytes) (more : List (Message k)) :
    join (.payload (.chunk first) :: .payload (.chunk second) :: more) =
      join (.payload (.chunk (first ++ second)) :: more) := by
  rw [join_cons, join_cons, join_cons, joinOne_chunk_chunk]

theorem joinOne_append (message : Message k) (joined more : List (Message k)) :
    join (joinOne message joined ++ more) = joinOne message (join (joined ++ more)) := by
  unfold joinOne
  split
  · rename_i data next rest
    rw [List.cons_append, List.cons_append, join_cons, join_cons, ← joinOne_chunk_chunk]
    rfl
  · rw [List.cons_append, join_cons]
    rfl

theorem join_join_append (front back : List (Message k)) :
    join (join front ++ back) = join (front ++ back) := by
  induction front with
  | nil => rw [join_nil]
  | cons message more ih =>
      rw [join_cons, joinOne_append, ih, List.cons_append, join_cons]

theorem join_join (messages : List (Message k)) : join (join messages) = join messages := by
  simpa using join_join_append messages []

theorem join_append_join (front back : List (Message k)) :
    join (front ++ join back) = join (front ++ back) := by
  induction front with
  | nil => exact join_join back
  | cons message more ih => rw [List.cons_append, List.cons_append, join_cons, join_cons, ih]

theorem join_append_congr {front front' back back' : List (Message k)}
    (hfront : join front = join front') (hback : join back = join back') :
    join (front ++ back) = join (front' ++ back') := by
  rw [← join_join_append, ← join_append_join, hfront, hback, join_append_join, join_join_append]

end Message

namespace Drained

/-- The result of a drain before which some values were handed out already. -/
def after (drained : Drained σ α) (before : List α) : Drained σ α :=
  { drained with values := before ++ drained.values }

@[simp] theorem after_values (drained : Drained σ α) (before : List α) :
    (drained.after before).values = before ++ drained.values :=
  rfl

@[simp] theorem after_state (drained : Drained σ α) (before : List α) :
    (drained.after before).state = drained.state :=
  rfl

@[simp] theorem after_rest (drained : Drained σ α) (before : List α) :
    (drained.after before).rest = drained.rest :=
  rfl

@[simp] theorem after_error? (drained : Drained σ α) (before : List α) :
    (drained.after before).error? = drained.error? :=
  rfl

@[simp] theorem after_nil (drained : Drained σ α) : drained.after [] = drained :=
  rfl

theorem after_after (drained : Drained σ α) (first second : List α) :
    (drained.after second).after first = drained.after (first ++ second) := by
  simp [after]

def joined (drained : Drained σ (Message k)) : Drained σ (Message k) :=
  { drained with values := Message.join drained.values }

theorem joined_after_congr {first second : Drained σ (Message k)}
    {before before' : List (Message k)} (h : first.joined = second.joined)
    (hbefore : Message.join before = Message.join before') :
    (first.after before).joined = (second.after before').joined := by
  cases first
  cases second
  simp only [joined, after, Drained.mk.injEq] at h ⊢
  exact ⟨Message.join_append_congr hbefore h.1, h.2⟩

theorem joined_ext {first second : Drained σ (Message k)} (h : first.joined = second.joined) :
    Message.join first.values = Message.join second.values ∧ first.error? = second.error? ∧
      first.state = second.state ∧ first.rest = second.rest := by
  simpa only [joined, Drained.mk.injEq] using h

end Drained

end HttpFraming
