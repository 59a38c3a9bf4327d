import Mathlib.Data.Nat.Notation

/-! The typed error surface shared by every runtime, with the two classifications
that the retry loop and the circuit breaker read. Durations and
readings of the monotonic clock are nanoseconds. -/
namespace RakkaInference

namespace Duration

def asMillis (d : ℕ) : ℕ := d/1000000
def fromMillis (ms : ℕ) : ℕ := ms*1000000
def fromSecs (secs : ℕ) : ℕ := secs*1000000000

end Duration

inductive ProviderKind
  | openAi
  | anthropic
  | gemini
  | liteLlm
  | deepgram
  | assemblyAi
  | elevenLabs
  | nvidiaA2F
  | custom (name : String)
  deriving DecidableEq

inductive RuntimeKind
  | vllm
  | tensorRt
  | ort
  | candle
  | cudarc
  | mistralRs
  | python (name : String)
  | openAi
  | anthropic
  | gemini
  | liteLlm
  | speechToText
  | textToSpeech
  | realtimeSpeech
  | audio2Face
  | custom (name : String)
  deriving DecidableEq

inductive InferenceError
  | rateLimited (provider : ProviderKind) (retryAfter : Option ℕ)
  | circuitOpen (provider : ProviderKind) (openedAtUnixMs retryAtUnixMs : ℕ)
  | contentFiltered (reason : String)
  | contextLengthExceeded (tokens maxTokens : ℕ)
  | badRequest (message : String)
  | unauthorized (message : String)
  | forbidden (message : String)
  | backpressure (message : String)
  | budgetExceeded (deployment : String)
  | networkError (message : String)
  | serverError (status : ℕ) (body : Option String)
  | timeout (elapsedMs : ℕ)
  | cudaContextPoisoned (message : String)
  | unsupported (method : String) (runtime : RuntimeKind)
  | unsupportedAudioFormat (message : String)
  | realtimeClosed (reason : String)
  | internal (message : String)
  deriving DecidableEq

namespace InferenceError

def isRetryable : InferenceError → Bool
  | rateLimited _ _ | serverError _ _ | timeout _ | networkError _ => true
  | _ => false

/-- Whether the error counts toward the circuit breaker's failure budget. -/
def countsAsCircuitFailure : InferenceError → Bool
  | serverError _ _ | timeout _ | networkError _ => true
  | _ => false

/-- Rate limiting is the only retryable error that the breaker does not count. -/
theorem isRetryable_iff (e : InferenceError) :
    e.isRetryable ↔ e.countsAsCircuitFailure ∨ ∃ p ra, e = rateLimited p ra := by
  cases e <;> simp [isRetryable,countsAsCircuitFailure]

end InferenceError
end RakkaInference
