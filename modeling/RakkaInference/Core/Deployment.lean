import RakkaInference.Core.Request

/-! Per-deployment policies of the remote tier: circuit breaking, retries and
provider rate limits. -/
namespace RakkaInference
open Machine

structure CircuitBreakerConfig where
  failureThreshold : UInt32 := 10
  openDuration : ℕ := Duration.fromSecs 30
  halfOpenMaxProbes : UInt32 := 1

inductive JitterKind
  | none
  | equal
  | full
  deriving DecidableEq

structure RetryPolicy where
  maxRetries : UInt32 := 3
  initialBackoff : ℕ := Duration.fromMillis 1000
  maxBackoff : ℕ := Duration.fromMillis 60000
  backoffMultiplier : F64 := 2
  jitter : JitterKind := .equal
  respectRetryAfter : Bool := true

structure RateLimits where
  requestsPerMinute : Option ℕ := none
  tokensPerMinute : Option ℕ := none
  concurrentRequests : Option ℕ := none
  strict : Bool := false

inductive CapacityPolicy
  | reject
  | queue
  | fallback
  deriving DecidableEq

end RakkaInference
