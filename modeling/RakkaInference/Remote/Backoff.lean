import RakkaInference.Core.Deployment
import RakkaInference.Machine.Words

/-! Exponential backoff with jitter. The numbers are those of a format, which in the program is `binary64`. -/
namespace RakkaInference
open Machine

structure BackoffPolicy (F : FloatFormat := .binary64) where
  initial : ℕ
  max : ℕ
  multiplier : Floating F
  jitter : JitterKind

def BackoffPolicy.ofRetryPolicy (p : RetryPolicy) : BackoffPolicy :=
  ⟨p.initialBackoff,p.maxBackoff,p.backoffMultiplier,p.jitter⟩

variable {F : FloatFormat}

/-- Deterministic pseudo-randomness from zero to one. -/
def pseudoRandom01 (seed : ℕ) : Floating F := (asU32 (seed*2654435761)%10000 : ℕ)/10000

/-- The delay after the failure of the attempt with this number, counted from zero. -/
def computeBackoff (policy : BackoffPolicy F) (attempt : ℕ) : ℕ :=
  let baseMs : Floating F := Duration.asMillis policy.initial*policy.multiplier.powi (asI32 attempt)
  let capped := min baseMs (Duration.asMillis policy.max)
  let withJitter := match policy.jitter with
    | .none => capped
    | .equal => capped*0.5+capped*pseudoRandom01 attempt*0.5
    | .full => capped*pseudoRandom01 attempt
  Duration.fromMillis ((max withJitter 0).asUnsigned 64)

end RakkaInference
