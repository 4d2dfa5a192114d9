import HttpFraming.Collecting.Collector
import HttpFraming.Proofs.Arrival.Fronts

/-!
# What a collector owes

A collector answers each request head once: it refuses it, or refuses its body, or hands the
request out for an answer. What is answered besides is a failure where no answer is due:
`Collector.answers_le`. None is due between requests, but also none behind a request that was
refused and whose body is dropped, so its failure is answered once more.
-/

namespace HttpFraming

open Bytes

def Status.isRefusal (status : Status) : Bool :=
  status == .payloadTooLarge || status == .expectationFailed

theorem Status.le_code_of_isRefusal {status : Status} (h : status.isRefusal = true) :
    400 ≤ status.code := by
  simp only [isRefusal, Bool.or_eq_true, beq_iff_eq] at h
  rcases h with rfl | rfl <;> decide

theorem Status.isInformational_of_isRefusal {status : Status} (h : status.isRefusal = true) :
    status.isInformational = false := by
  have hfailure := le_code_of_isRefusal h
  simp only [isInformational, decide_eq_false_iff_not]
  omega

namespace Message

def completed (messages : List (Message k)) : Nat :=
  messages.countP completes

def failures (messages : List (Message k)) : Nat :=
  messages.countP isFailure

end Message

namespace CollectPhase

/-- Whether the collector owes an answer to the request that it collects. -/
def due : CollectPhase k → Nat
  | collecting .. => 1
  | _ => 0

def busy : CollectPhase k → Nat
  | idle => 0
  | _ => 1

end CollectPhase

/-! ## Answers -/

/-- How many final responses this head makes: one, unless it is interim. -/
def Head.finals (response : Response) : Nat :=
  if response.status.isInformational then 0 else 1

theorem Head.finals_le (response : Response) : response.finals ≤ 1 := by
  unfold finals
  split <;> decide

/-- How many final responses are written at most about what was collected. -/
def Collected.finals : Collected .request → Nat
  | reply given => given.head.finals
  | message _ => 1
  | forward (.failure _) => 1
  | forward _ => 0

/-- How many final responses are written at most about what a collector makes of a part. An
error is answered too. -/
def answers : Except CollectError (Option (Collected .request)) → Nat
  | .error _ => 1
  | .ok none => 0
  | .ok (some collected) => collected.finals

def goesOn : Except CollectError (Option (Collected .request)) → Bool
  | .error _ => false
  | .ok none => true
  | .ok (some (.reply reply)) => !reply.close
  | .ok (some (.message message)) => message.failure?.isNone
  | .ok (some (.forward _)) => false

theorem Collected.finals_le (collected : Collected .request) : collected.finals ≤ 1 := by
  cases collected with
  | reply reply => exact reply.head.finals_le
  | message whole => exact Nat.le_refl 1
  | forward message =>
      cases message with
      | failure failure => exact Nat.le_refl 1
      | header h => exact Nat.zero_le 1
      | payload item => exact Nat.zero_le 1
      | raw data => exact Nat.zero_le 1

theorem answers_le_one (result : Except CollectError (Option (Collected .request))) :
    answers result ≤ 1 := by
  cases result with
  | error error => exact Nat.le_refl 1
  | ok out? =>
      cases out? with
      | none => exact Nat.zero_le 1
      | some collected => exact collected.finals_le

namespace Collector

variable {collector : Collector .request Unit}

theorem answers_takeItem_le (hopen : collector.isClosed = false) (item : Item) :
    answers (collector.takeItem item).1 ≤ collector.phase.due := by
  obtain ⟨settings, rule, phase⟩ := collector
  cases phase with
  | idle => exact Nat.le_refl 0
  | passing => exact Nat.le_refl 0
  | dropping => exact Nat.le_refl 0
  | closed => cases hopen
  | collecting h content awaited => exact answers_le_one _

/-- A part is answered if an answer is due, if it is a head, or if it is a failure. -/
theorem answers_le (hopen : collector.isClosed = false) (message : Message .request) :
    answers (collector.take (selectAll .request) message).1 ≤
      collector.phase.due + Message.heads [message] +
        if message.isFailure = true ∧ collector.phase.due = 0 then 1 else 0 := by
  have hone := answers_le_one (collector.take (selectAll .request) message).1
  cases message with
  | header h => exact Nat.le_trans hone (Nat.le_add_left 1 _)
  | payload item =>
      simp only [take, hopen, Bool.false_eq_true, if_false]
      exact collector.answers_takeItem_le hopen item
  | failure failure =>
      by_cases hdue : collector.phase.due = 0
      · rw [if_pos ⟨rfl, hdue⟩]
        omega
      · omega
  | raw data =>
      simp only [take, hopen, Bool.false_eq_true, if_false]
      exact Nat.zero_le _

end Collector

end HttpFraming
