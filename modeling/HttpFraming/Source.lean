import HttpFraming.Bytes
import HttpFraming.Error

/-!
# Sources

A source turns the bytes received so far into values, one at a time. It says when it
needs more bytes, and it is told when there will be none. Every value it hands out
uses up some of what it has: twice its bytes and the weight of its state. That is why
draining a source ends.
-/

namespace HttpFraming

structure Pull (σ α : Type) where
  answer : Except HttpError (Option α)
  state : σ
  rest : Bytes

structure Source (σ α : Type) where
  /-- Asks for the next value; the first argument says that the bytes are the last. -/
  pull : Bool → σ → Bytes → Pull σ α
  weight : σ → Nat
  pull_lt : ∀ (ended : Bool) (state : σ) (bytes : Bytes) (value : α),
    (pull ended state bytes).answer = .ok (some value) →
      2 * (pull ended state bytes).rest.length + weight (pull ended state bytes).state <
        2 * bytes.length + weight state

/-- What a source handed out before it stopped, and why it stopped if it failed. -/
structure Drained (σ α : Type) where
  values : List α
  error? : Option HttpError
  state : σ
  rest : Bytes

def Drained.mapState (f : σ → τ) (drained : Drained σ α) : Drained τ α :=
  ⟨drained.values, drained.error?, f drained.state, drained.rest⟩

namespace Source

set_option linter.unusedVariables false in
def drain (source : Source σ α) (ended : Bool) (state : σ) (bytes : Bytes) : Drained σ α :=
  match h : source.pull ended state bytes with
  | ⟨.error error, state, rest⟩ => ⟨[], some error, state, rest⟩
  | ⟨.ok none, state, rest⟩ => ⟨[], none, state, rest⟩
  | ⟨.ok (some value), next, rest⟩ =>
      let drained := source.drain ended next rest
      { drained with values := value :: drained.values }
termination_by 2 * bytes.length + source.weight state
decreasing_by
  have hlt := source.pull_lt ended state bytes value (by rw [h])
  rw [h] at hlt
  exact hlt

theorem drain_values_length_le (source : Source σ α) (ended : Bool) (state : σ) (bytes : Bytes) :
    (source.drain ended state bytes).values.length ≤ 2 * bytes.length + source.weight state := by
  fun_induction drain source ended state bytes with
  | case1 => simp
  | case2 => simp
  | case3 state bytes value next rest h drained ih =>
      have hlt := source.pull_lt ended state bytes value (by rw [h])
      rw [h] at hlt
      have hdrained : drained.values.length ≤ 2 * rest.length + source.weight next := ih
      simp only [List.length_cons] at hlt ⊢
      omega

theorem drain_of_value {source : Source σ α} {ended : Bool} {state next : σ} {bytes rest : Bytes}
    {value : α} (h : source.pull ended state bytes = ⟨.ok (some value), next, rest⟩) :
    source.drain ended state bytes =
      { source.drain ended next rest with
        values := value :: (source.drain ended next rest).values } := by
  rw [drain]
  split <;> simp_all

theorem drain_of_none {source : Source σ α} {ended : Bool} {state next : σ} {bytes rest : Bytes}
    (h : source.pull ended state bytes = ⟨.ok none, next, rest⟩) :
    source.drain ended state bytes = ⟨[], none, next, rest⟩ := by
  rw [drain]
  split <;> simp_all

theorem drain_of_error {source : Source σ α} {ended : Bool} {state next : σ} {bytes rest : Bytes}
    {error : HttpError} (h : source.pull ended state bytes = ⟨.error error, next, rest⟩) :
    source.drain ended state bytes = ⟨[], some error, next, rest⟩ := by
  rw [drain]
  split <;> simp_all

/-- A source with an account kept beside it: each pull is noted with the state and the bytes
that it began with. -/
def observed (source : Source σ α) (note : σ → Bytes → Pull σ α → τ → τ) : Source (σ × τ) α where
  pull ended state bytes :=
    let pulled := source.pull ended state.1 bytes
    ⟨pulled.answer, (pulled.state, note state.1 bytes pulled state.2), pulled.rest⟩
  weight state := source.weight state.1
  pull_lt ended state bytes value h := source.pull_lt ended state.1 bytes value h

/-- Lets bytes arrive piece by piece and drains the source after each of them, up to the
first error. -/
def deliver (source : Source σ α) (state : σ) (bytes : Bytes) : List Bytes → Drained σ α
  | [] => ⟨[], none, state, bytes⟩
  | piece :: more =>
      let drained := source.drain false state (bytes ++ piece)
      if drained.error?.isSome then drained
      else
        let later := source.deliver drained.state drained.rest more
        { later with values := drained.values ++ later.values }

end Source

end HttpFraming
