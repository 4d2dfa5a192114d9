import HttpFraming.Collecting.Collector
import HttpFraming.Source

/-!
# Collected sources

A source of message parts followed by a collector is a source of collected messages:
parts are asked for until the collector has something to hand out.
-/

namespace HttpFraming

namespace Source

set_option linter.unusedVariables false in
/-- Asks for parts until one makes the collector hand something out. When the input has
ended and no part is left, the collector is closed. -/
def collect (source : Source σ (Message k)) (select : HeadRule k ρ) (ended : Bool) (state : σ)
    (collector : Collector k ρ) (bytes : Bytes) : Pull (σ × Collector k ρ) (Collected k) :=
  let stopped := if ended then collector.close else collector
  match h : source.pull ended state bytes with
  | ⟨.error error, state, rest⟩ => ⟨.error error, (state, stopped), rest⟩
  | ⟨.ok none, state, rest⟩ => ⟨.ok none, (state, stopped), rest⟩
  | ⟨.ok (some message), next, rest⟩ =>
      match collector.take select message with
      | (.error error, collector) => ⟨.error (.collect error), (next, collector), rest⟩
      | (.ok (some collected), collector) => ⟨.ok (some collected), (next, collector), rest⟩
      | (.ok none, collector) => source.collect select ended next collector rest
termination_by 2 * bytes.length + source.weight state
decreasing_by
  have hlt := source.pull_lt ended state bytes message (by rw [h])
  rw [h] at hlt
  exact hlt

theorem collect_lt (source : Source σ (Message k)) (select : HeadRule k ρ) (ended : Bool)
    (state : σ) (collector : Collector k ρ) (bytes : Bytes) (collected : Collected k)
    (h : (source.collect select ended state collector bytes).answer = .ok (some collected)) :
    2 * (source.collect select ended state collector bytes).rest.length +
        source.weight (source.collect select ended state collector bytes).state.1 <
      2 * bytes.length + source.weight state := by
  fun_induction collect source select ended state collector bytes with
  | case1 => simp at h
  | case2 => simp at h
  | case3 => simp at h
  | case4 state collector bytes message next rest hpull collected' collector' htake =>
      have hlt := source.pull_lt ended state bytes message (by rw [hpull])
      rw [hpull] at hlt
      exact hlt
  | case5 state collector bytes message next rest hpull collector' htake ih =>
      have hlt := source.pull_lt ended state bytes message (by rw [hpull])
      rw [hpull] at hlt
      exact Nat.lt_trans (ih h) hlt

section Steps

variable {σ ρ : Type} {k : Kind} {source : Source σ (Message k)} {select : HeadRule k ρ}
  {ended : Bool} {state next : σ} {collector : Collector k ρ} {bytes rest : Bytes}

theorem collect_of_value {message : Message k}
    (h : source.pull ended state bytes = ⟨.ok (some message), next, rest⟩) :
    source.collect select ended state collector bytes =
      match collector.take select message with
      | (.error error, collector) => ⟨.error (.collect error), (next, collector), rest⟩
      | (.ok (some collected), collector) => ⟨.ok (some collected), (next, collector), rest⟩
      | (.ok none, collector) => source.collect select ended next collector rest := by
  rw [collect]
  split
  · rename_i hpull
    rw [h] at hpull
    cases hpull
  · rename_i hpull
    rw [h] at hpull
    cases hpull
  · rename_i hpull
    rw [h] at hpull
    cases hpull
    rcases collector.take select message with ⟨_ | _ | _, _⟩ <;> rfl

theorem collect_of_none (h : source.pull ended state bytes = ⟨.ok none, next, rest⟩) :
    source.collect select ended state collector bytes =
      ⟨.ok none, (next, if ended then collector.close else collector), rest⟩ := by
  rw [collect]
  split <;> simp_all

theorem collect_of_error {error : HttpError}
    (h : source.pull ended state bytes = ⟨.error error, next, rest⟩) :
    source.collect select ended state collector bytes =
      ⟨.error error, (next, if ended then collector.close else collector), rest⟩ := by
  rw [collect]
  split <;> simp_all

end Steps

/-- Keeping an account changes nothing of what a collector makes of a source. -/
theorem collect_observed (source : Source σ (Message k))
    (note : σ → Bytes → Pull σ (Message k) → τ → τ) (select : HeadRule k ρ) (ended : Bool)
    (state : σ) (account : τ) (collector : Collector k ρ) (bytes : Bytes) :
    let plain := source.collect select ended state collector bytes
    let noted := (source.observed note).collect select ended (state, account) collector bytes
    noted.answer = plain.answer ∧ (noted.state.1.1, noted.state.2) = plain.state ∧
      noted.rest = plain.rest := by
  have hpulled : ∀ {state next : σ} {bytes rest : Bytes} {answer} (account : τ),
      source.pull ended state bytes = ⟨answer, next, rest⟩ →
        (source.observed note).pull ended (state, account) bytes =
          ⟨answer, (next, note state bytes ⟨answer, next, rest⟩ account), rest⟩ := by
    intro state next bytes rest answer account hpull
    simp [observed, hpull]
  fun_induction collect source select ended state collector bytes generalizing account with
  | case1 state collector bytes stopped error next rest hpull =>
      rw [collect_of_error (hpulled account hpull)]
      exact ⟨rfl, rfl, rfl⟩
  | case2 state collector bytes stopped next rest hpull =>
      rw [collect_of_none (hpulled account hpull)]
      exact ⟨rfl, rfl, rfl⟩
  | case3 state collector bytes message next rest hpull error collector' htake =>
      rw [collect_of_value (hpulled account hpull), htake]
      exact ⟨rfl, rfl, rfl⟩
  | case4 state collector bytes message next rest hpull made collector' htake =>
      rw [collect_of_value (hpulled account hpull), htake]
      exact ⟨rfl, rfl, rfl⟩
  | case5 state collector bytes message next rest hpull collector' htake ih =>
      rw [collect_of_value (hpulled account hpull), htake]
      exact ih _

def collected (source : Source σ (Message k)) (select : HeadRule k ρ) :
    Source (σ × Collector k ρ) (Collected k) where
  pull ended state bytes := source.collect select ended state.1 state.2 bytes
  weight state := source.weight state.1
  pull_lt ended state bytes value h :=
    source.collect_lt select ended state.1 state.2 bytes value h

end Source

end HttpFraming
