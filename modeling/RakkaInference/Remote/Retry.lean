import RakkaInference.Remote.Backoff

/-! Whether a failed attempt is made again, and after which delay. -/
namespace RakkaInference

inductive RetryDecision
  | retry (after : ℕ)
  | giveUp
  deriving DecidableEq

structure RetryEngine where
  policy : RetryPolicy
  backoff : BackoffPolicy
  idempotent : Bool

namespace RetryEngine

def new (policy : RetryPolicy) (idempotent : Bool) : RetryEngine :=
  ⟨policy,.ofRetryPolicy policy,idempotent⟩

/-- The delay before the retry: what the server asked for, or the backoff. -/
def delay (engine : RetryEngine) (attempt : ℕ) (err : InferenceError) : ℕ :=
  match err with
  | .rateLimited _ (some serverRa) =>
    if engine.policy.respectRetryAfter then serverRa else computeBackoff engine.backoff attempt
  | _ => computeBackoff engine.backoff attempt

def decide (engine : RetryEngine) (attempt : ℕ) (err : InferenceError) : RetryDecision :=
  if !engine.idempotent then .giveUp
  else if attempt ≥ engine.policy.maxRetries.toNat then .giveUp
  else if !err.isRetryable then .giveUp
  else .retry (engine.delay attempt err)

variable {engine : RetryEngine} {attempt after : ℕ} {err : InferenceError}

/-- The three conditions of a retry, and its delay. -/
theorem decide_eq_retry_iff : engine.decide attempt err = .retry after ↔
    engine.idempotent = true ∧ attempt < engine.policy.maxRetries.toNat ∧ err.isRetryable = true ∧
      engine.delay attempt err = after := by
  unfold decide
  split_ifs with h1 h2 h3 <;> simp_all

theorem lt_of_decide_eq_retry (h : engine.decide attempt err = .retry after) :
    attempt < engine.policy.maxRetries.toNat := (decide_eq_retry_iff.mp h).2.1

end RetryEngine
end RakkaInference
