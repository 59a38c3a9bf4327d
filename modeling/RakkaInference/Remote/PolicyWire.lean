import RakkaInference.Core.Records
import RakkaInference.Remote.Worker

/-! The JSON form of the policies of the remote tier. Durations are written in whole milliseconds, and what is cut
off makes no difference to a worker that retries. A multiplier is written with the digits that tell it from
others, and may be read from them as one of its neighbours. -/
namespace RakkaInference
open Machine Json

namespace HumantimeSerdeMs

def serialize (d : ℕ) : Json := ofNat (asU64 (Duration.asMillis d))

def deserialize (j : Json) : Option ℕ := (asWord 64 j).map Duration.fromMillis

/-- What is left of a duration that is written and read back. -/
def wholeMillis (d : ℕ) : ℕ := Duration.fromMillis (asU64 (Duration.asMillis d))

theorem deserialize_serialize (d : ℕ) : deserialize (serialize d) = some (wholeMillis d) := by
  rw [deserialize,serialize,asWord_ofNat (asU64_lt _),Option.map_some]
  rfl

theorem asMillis_wholeMillis {d : ℕ} (h : Duration.asMillis d < 2^64) :
    Duration.asMillis (wholeMillis d) = Duration.asMillis d := by
  rw [wholeMillis,asU64_of_lt h]
  exact Nat.mul_div_cancel _ (by omega)

theorem wholeMillis_eq_iff {d : ℕ} (h : Duration.asMillis d < 2^64) : wholeMillis d = d ↔ 1000000 ∣ d := by
  rw [wholeMillis,asU64_of_lt h]
  exact (Nat.dvd_iff_div_mul_eq _ _).symm

end HumantimeSerdeMs

open HumantimeSerdeMs

namespace JitterKind

def serialize : JitterKind → Json
  | .none => .string "none"
  | .equal => .string "equal"
  | .full => .string "full"

def ofUnit : String → Option JitterKind
  | "none" => some .none
  | "equal" => some .equal
  | "full" => some .full
  | _ => Option.none

def deserialize : Json → Option JitterKind := asUnit ofUnit

theorem deserialize_serialize (jitter : JitterKind) : deserialize jitter.serialize = some jitter := by
  cases jitter <;> rfl

end JitterKind

namespace CircuitBreakerConfig

def slots (c : CircuitBreakerConfig) : List (String × Option Json) :=
  [("failure_threshold",some (ofNat c.failureThreshold.toNat)),
   ("open_duration",some (HumantimeSerdeMs.serialize c.openDuration)),
   ("half_open_max_probes",some (ofNat c.halfOpenMaxProbes.toNat))]

def serialize (c : CircuitBreakerConfig) : Json := .object (written c.slots)

def deserialize (j : Json) : Option CircuitBreakerConfig := do
  let fields ← fieldsOf ["failure_threshold","open_duration","half_open_max_probes"] j 3
  some { failureThreshold := ← required fields "failure_threshold" Json.asU32,
         openDuration := ← required fields "open_duration" HumantimeSerdeMs.deserialize,
         halfOpenMaxProbes := ← required fields "half_open_max_probes" Json.asU32 }

theorem deserialize_serialize (c : CircuitBreakerConfig) :
    deserialize c.serialize = some { c with openDuration := wholeMillis c.openDuration } := by
  have hnodup : (c.slots.map Prod.fst).Nodup := by simp [slots]
  have hthreshold : required (written c.slots) "failure_threshold" Json.asU32 = some c.failureThreshold :=
    (required_written hnodup (by simp [slots])).trans (asU32_ofNat _)
  have hopen : required (written c.slots) "open_duration" HumantimeSerdeMs.deserialize =
      some (wholeMillis c.openDuration) :=
    (required_written hnodup (by simp [slots])).trans (HumantimeSerdeMs.deserialize_serialize _)
  have hprobes : required (written c.slots) "half_open_max_probes" Json.asU32 = some c.halfOpenMaxProbes :=
    (required_written hnodup (by simp [slots])).trans (asU32_ofNat _)
  rw [deserialize,serialize,fieldsOf_object]
  simp only [Option.bind_eq_bind]
  rw [Option.bind_some,hthreshold,Option.bind_some,hopen,Option.bind_some,hprobes,Option.bind_some]

end CircuitBreakerConfig

namespace RetryPolicy
variable {reread : FiniteFloat .binary64 → FiniteFloat .binary64} {p : RetryPolicy}

def slots (p : RetryPolicy) : List (String × Option Json) :=
  [("max_retries",some (ofNat p.maxRetries.toNat)),
   ("initial_backoff",some (HumantimeSerdeMs.serialize p.initialBackoff)),
   ("max_backoff",some (HumantimeSerdeMs.serialize p.maxBackoff)),
   ("backoff_multiplier",some (ofF64 p.backoffMultiplier)),("jitter",some p.jitter.serialize),
   ("respect_retry_after",some (.bool p.respectRetryAfter))]

def serialize (p : RetryPolicy) : Json := .object (written p.slots)

def deserialize (reread : FiniteFloat .binary64 → FiniteFloat .binary64) (j : Json) : Option RetryPolicy := do
  let names := ["max_retries","initial_backoff","max_backoff","backoff_multiplier","jitter","respect_retry_after"]
  let fields ← fieldsOf names j 6
  some { maxRetries := ← required fields "max_retries" Json.asU32,
         initialBackoff := ← required fields "initial_backoff" HumantimeSerdeMs.deserialize,
         maxBackoff := ← required fields "max_backoff" HumantimeSerdeMs.deserialize,
         backoffMultiplier := ← required fields "backoff_multiplier" (asF64 · reread),
         jitter := ← required fields "jitter" JitterKind.deserialize,
         respectRetryAfter := ← required fields "respect_retry_after" asBool }

/-- The policy without what its durations have beside whole milliseconds. -/
def rounded (p : RetryPolicy) : RetryPolicy :=
  { p with initialBackoff := wholeMillis p.initialBackoff, maxBackoff := wholeMillis p.maxBackoff }

/-- The multiplier is a number, and read as itself. -/
def MultiplierKept (reread : FiniteFloat .binary64 → FiniteFloat .binary64) (p : RetryPolicy) : Prop :=
  ∃ x, p.backoffMultiplier = .finite x ∧ reread x = x

/-- All but the multiplier is read as it was, in whole milliseconds. -/
theorem deserialize_serialize (reread : FiniteFloat .binary64 → FiniteFloat .binary64) (p : RetryPolicy) :
    deserialize reread p.serialize =
      (asF64 (ofF64 p.backoffMultiplier) reread).map fun x => { p.rounded with backoffMultiplier := x } := by
  have hnodup : (p.slots.map Prod.fst).Nodup := by simp [slots]
  have hretries : required (written p.slots) "max_retries" Json.asU32 = some p.maxRetries :=
    (required_written hnodup (by simp [slots])).trans (asU32_ofNat _)
  have hinitial : required (written p.slots) "initial_backoff" HumantimeSerdeMs.deserialize =
      some (wholeMillis p.initialBackoff) :=
    (required_written hnodup (by simp [slots])).trans (HumantimeSerdeMs.deserialize_serialize _)
  have hmax : required (written p.slots) "max_backoff" HumantimeSerdeMs.deserialize =
      some (wholeMillis p.maxBackoff) :=
    (required_written hnodup (by simp [slots])).trans (HumantimeSerdeMs.deserialize_serialize _)
  have hmultiplier : required (written p.slots) "backoff_multiplier" (asF64 · reread) =
      asF64 (ofF64 p.backoffMultiplier) reread := required_written hnodup (by simp [slots])
  have hjitter : required (written p.slots) "jitter" JitterKind.deserialize = some p.jitter :=
    (required_written hnodup (by simp [slots])).trans p.jitter.deserialize_serialize
  have hrespect : required (written p.slots) "respect_retry_after" asBool = some p.respectRetryAfter :=
    (required_written hnodup (j := .bool p.respectRetryAfter) (by simp [slots])).trans rfl
  rw [deserialize,serialize,fieldsOf_object]
  simp only [Option.bind_eq_bind]
  rw [Option.bind_some,hretries,Option.bind_some,hinitial,Option.bind_some,hmax,Option.bind_some,hmultiplier]
  cases asF64 (ofF64 p.backoffMultiplier) reread with
  | none => rfl
  | some x =>
    rw [Option.bind_some,hjitter,Option.bind_some,hrespect,Option.bind_some]
    rfl

theorem deserialize_serialize_of_kept (hkept : p.MultiplierKept reread) :
    deserialize reread p.serialize = some p.rounded := by
  obtain ⟨x,hx,hread⟩ := hkept
  have hmultiplier : asF64 (ofF64 p.backoffMultiplier) reread = some p.backoffMultiplier := by
    rw [hx,ofF64,asF64,hread]
  rw [deserialize_serialize,hmultiplier,Option.map_some]
  rfl

/-- A multiplier that is no number is written as null. -/
theorem deserialize_serialize_of_not_finite (h : ¬p.backoffMultiplier.IsFinite) :
    deserialize reread p.serialize = none := by
  rw [deserialize_serialize,ofF64_eq_null_iff.mpr h]
  rfl

/-- The durations are at most 2^64-1 milliseconds. -/
def InRange (p : RetryPolicy) : Prop :=
  Duration.asMillis p.initialBackoff < 2^64 ∧ Duration.asMillis p.maxBackoff < 2^64

theorem rounded_eq_iff (h : p.InRange) : p.rounded = p ↔ 1000000 ∣ p.initialBackoff ∧ 1000000 ∣ p.maxBackoff := by
  rw [← wholeMillis_eq_iff h.1,← wholeMillis_eq_iff h.2]
  constructor
  · intro heq
    exact ⟨congrArg initialBackoff heq,congrArg maxBackoff heq⟩
  · intro heq
    rw [rounded,heq.1,heq.2]

theorem computeBackoff_rounded (h : p.InRange) (attempt : ℕ) :
    computeBackoff (.ofRetryPolicy p.rounded) attempt = computeBackoff (.ofRetryPolicy p) attempt := by
  have hinitial := asMillis_wholeMillis h.1
  have hmax := asMillis_wholeMillis h.2
  simp only [computeBackoff,BackoffPolicy.ofRetryPolicy,rounded,hinitial,hmax]

theorem decide_rounded (h : p.InRange) (idempotent : Bool) (attempt : ℕ) (err : InferenceError) :
    (RetryEngine.new p.rounded idempotent).decide attempt err =
      (RetryEngine.new p idempotent).decide attempt err := by
  have hbackoff := computeBackoff_rounded h attempt
  have hdelay : (RetryEngine.new p.rounded idempotent).delay attempt err =
      (RetryEngine.new p idempotent).delay attempt err := by
    unfold RetryEngine.delay
    split
    · exact if_congr Iff.rfl rfl hbackoff
    · exact hbackoff
  unfold RetryEngine.decide
  rw [hdelay]
  rfl

end RetryPolicy

section Workers
variable {slot slot' : WorkerSlot}

/-- A worker knows its retry engine only by what that decides. -/
theorem executeWithRetries_congr
    (h : ∀ attempt err, slot'.retryEngine.decide attempt err = slot.retryEngine.decide attempt err)
    (batch : ExecuteBatch) (inputs : ℕ → AttemptInput) (room : Option ℕ) (attempt : ℕ) :
    executeWithRetries slot' batch inputs room attempt = executeWithRetries slot batch inputs room attempt := by
  induction room, attempt using executeWithRetries_induction slot inputs with
  | refused room attempt err hc => rw [executeWithRetries_refused hc,executeWithRetries_refused hc]
  | finished room attempt hc hf => rw [executeWithRetries_finished hc hf,executeWithRetries_finished hc hf]
  | gaveUp room attempt err hc hf hd =>
    rw [executeWithRetries_gaveUp hc hf hd,executeWithRetries_gaveUp hc hf ((h attempt err).trans hd)]
  | retried room attempt err after hc hf hd ih =>
    rw [executeWithRetries_retried hc hf hd,executeWithRetries_retried hc hf ((h attempt err).trans hd),ih]

theorem runWorker_congr
    (h : ∀ attempt err, slot'.retryEngine.decide attempt err = slot.retryEngine.decide attempt err)
    (ms : List WorkerMsg) : runWorker slot' ms = runWorker slot ms := by
  induction ms with
  | nil => rfl
  | cons m ms ih =>
    cases m with
    | shutdown => rfl
    | dispatch job =>
      have hjob : dispatch slot' job = dispatch slot job := by
        unfold dispatch
        rw [executeWithRetries_congr h]
      rw [runWorker,runWorker,hjob,ih]

/-- A retry policy that has been sent as JSON makes a worker do what it did before, message by message, if its
multiplier is read as itself. One whose multiplier is no number is not read at all. -/
theorem worker_keeps_policy (reread : FiniteFloat .binary64 → FiniteFloat .binary64) {p : RetryPolicy}
    (h : p.InRange) :
    (¬p.backoffMultiplier.IsFinite → RetryPolicy.deserialize reread p.serialize = none) ∧
    (p.MultiplierKept reread → ∃ p', RetryPolicy.deserialize reread p.serialize = some p' ∧
      (p' = p ↔ 1000000 ∣ p.initialBackoff ∧ 1000000 ∣ p.maxBackoff) ∧
      ∀ limiter idempotent ms,
        runWorker ⟨limiter,.new p' idempotent⟩ ms = runWorker ⟨limiter,.new p idempotent⟩ ms) := by
  refine ⟨RetryPolicy.deserialize_serialize_of_not_finite,fun hkept => ?_⟩
  refine ⟨p.rounded,RetryPolicy.deserialize_serialize_of_kept hkept,RetryPolicy.rounded_eq_iff h,?_⟩
  intro limiter idempotent ms
  exact runWorker_congr (fun attempt err => RetryPolicy.decide_rounded h idempotent attempt err) ms

/-- A first delay of one and a half milliseconds. -/
def unevenPolicy : RetryPolicy := { initialBackoff := 1500000 }

theorem worker_keeps_policy_uneven :
    ∃ p', RetryPolicy.deserialize id unevenPolicy.serialize = some p' ∧
      (p' = unevenPolicy ↔ 1000000 ∣ unevenPolicy.initialBackoff ∧ 1000000 ∣ unevenPolicy.maxBackoff) ∧
      ∀ limiter idempotent ms,
        runWorker ⟨limiter,.new p' idempotent⟩ ms = runWorker ⟨limiter,.new unevenPolicy idempotent⟩ ms := by
  have htwo : unevenPolicy.backoffMultiplier = .finite ⟨false,2,by decide +kernel⟩ := by decide +kernel
  exact (worker_keeps_policy id (p := unevenPolicy) ⟨by decide,by decide⟩).2 ⟨_,htwo,rfl⟩

end Workers
end RakkaInference
