import RakkaInference.Core.Deployment
import RakkaInference.Machine.Words

/-! The circuit breaker that the remote workers share. Its state is not stored: it is
derived from the failure counter, the reading of the clock at which the circuit opened,
and the clock. Every method is one atomic action at a given reading of the clock. -/
namespace RakkaInference
open Machine

inductive CircuitState
  | closed
  | opened
  | halfOpen
  deriving DecidableEq

structure CircuitBreakerHandle where
  provider : ProviderKind
  config : CircuitBreakerConfig
  /-- An `AtomicU32`. -/
  failures : ℕ
  /-- Nanoseconds from `epoch` to the opening, as a `u64`; zero means not open. -/
  openedAtNs : ℕ
  epoch : ℕ
  forcedOpenUntil : Option ℕ

/-- The open period as the comparison reads it, `open_duration.as_nanos() as u64`. -/
def CircuitBreakerConfig.openNs (c : CircuitBreakerConfig) : ℕ := asU64 c.openDuration

/-- The end of the readings of the clock, whose seconds are an `i64`. -/
def Instant.limit : ℕ := 2^63*1000000000

/-- The sum `now + duration`, which panics where it is no reading of the clock. -/
def Instant.add (now duration : ℕ) : Option ℕ :=
  if now+duration < Instant.limit then some (now+duration) else none

namespace CircuitBreakerHandle

def new (provider : ProviderKind) (config : CircuitBreakerConfig) (now : ℕ) :
    CircuitBreakerHandle := ⟨provider,config,0,0,now,none⟩

/-- `self.epoch.elapsed().as_nanos() as u64`. -/
def elapsedNs (h : CircuitBreakerHandle) (now : ℕ) : ℕ := asU64 (now-h.epoch)

def forcedOpen (h : CircuitBreakerHandle) (now : ℕ) : Bool :=
  match h.forcedOpenUntil with
  | some deadline => decide (now < deadline)
  | none => false

def state (h : CircuitBreakerHandle) (now : ℕ) : CircuitState :=
  if h.forcedOpen now then .opened
  else if h.openedAtNs = 0 then .closed
  else if h.elapsedNs now-h.openedAtNs ≥ h.config.openNs then .halfOpen
  else .opened

/-- The gate before a request. The wall clock only enters the error it returns. -/
def check (h : CircuitBreakerHandle) (now : ℕ) (utcMs : ℤ) : Except InferenceError Unit :=
  match h.state now with
  | .closed | .halfOpen => .ok ()
  | .opened =>
    let openedAtUnixMs := asU64OfInt
      (i64SaturatingSub utcMs ((asI64 (h.elapsedNs now-h.openedAtNs)).tdiv 1000000))
    let retryAtUnixMs :=
      u64SaturatingAdd openedAtUnixMs (asU64 (Duration.asMillis h.config.openDuration))
    .error (.circuitOpen h.provider openedAtUnixMs retryAtUnixMs)

def recordSuccess (h : CircuitBreakerHandle) : CircuitBreakerHandle :=
  { h with failures := 0, openedAtNs := 0 }

def recordFailure (h : CircuitBreakerHandle) (now : ℕ) : CircuitBreakerHandle :=
  let n := asU32 (h.failures+1)
  if n ≥ h.config.failureThreshold.toNat ∧ h.openedAtNs = 0 then
    { h with failures := n, openedAtNs := h.elapsedNs now }
  else { h with failures := n }

/-- What `run` does once the wrapped future has returned. -/
def recordOutcome (h : CircuitBreakerHandle) (now : ℕ) :
    Except InferenceError Unit → CircuitBreakerHandle
  | .ok _ => h.recordSuccess
  | .error e => if e.countsAsCircuitFailure then h.recordFailure now else h

/-- A whole `run` call that no other call overlaps: the future starts at one reading of
the clock and returns its result at another. -/
def run (h : CircuitBreakerHandle) (started finished : ℕ) (utcMs : ℤ)
    (f : Except InferenceError Unit) : CircuitBreakerHandle × Except InferenceError Unit :=
  match h.check started utcMs with
  | .error e => (h,.error e)
  | .ok _ => (h.recordOutcome finished f,f)

def forceOpen (h : CircuitBreakerHandle) (now duration : ℕ) : Option CircuitBreakerHandle :=
  (Instant.add now duration).map fun deadline => { h with forcedOpenUntil := some deadline }

/-- `ForceOpen` at the actor. A panic comes before the deadline is written. -/
def handleForceOpen (h : CircuitBreakerHandle) (now duration : ℕ) : CircuitBreakerHandle :=
  (h.forceOpen now duration).getD h

variable {h : CircuitBreakerHandle} {now : ℕ}

/-- An override is set if its deadline is a reading of the clock. -/
theorem handleForceOpen_cases (h : CircuitBreakerHandle) (now d : ℕ) :
    (now+d < Instant.limit ∧ h.handleForceOpen now d = { h with forcedOpenUntil := some (now+d) }) ∨
    (Instant.limit ≤ now+d ∧ h.handleForceOpen now d = h) := by
  unfold handleForceOpen forceOpen Instant.add
  split
  case isTrue hlt => exact .inl ⟨hlt,rfl⟩
  case isFalse hge => exact .inr ⟨Nat.le_of_not_lt hge,rfl⟩

/-- The part of the handle that no override touches. -/
theorem handleForceOpen_frame (h : CircuitBreakerHandle) (now d : ℕ) :
    (h.handleForceOpen now d).config = h.config ∧ (h.handleForceOpen now d).epoch = h.epoch ∧
    (h.handleForceOpen now d).provider = h.provider ∧ (h.handleForceOpen now d).openedAtNs = h.openedAtNs := by
  obtain ⟨-,heq⟩ | ⟨-,heq⟩ := h.handleForceOpen_cases now d <;> rw [heq] <;> exact ⟨rfl,rfl,rfl,rfl⟩

/-- No operator override was ever given. -/
def Unforced (h : CircuitBreakerHandle) : Prop := h.forcedOpenUntil = none

theorem Unforced.forcedOpen (hu : h.Unforced) (now : ℕ) : h.forcedOpen now = false := by
  simp [CircuitBreakerHandle.forcedOpen,show h.forcedOpenUntil = none from hu]

/-- An override that has run out stays out. -/
theorem forcedOpen_eq_false_of_le {t : ℕ} (hf : h.forcedOpen t = false) (ht : t ≤ now) :
    h.forcedOpen now = false := by
  unfold forcedOpen at *
  split at hf
  · simp only [decide_eq_false_iff_not] at hf ⊢
    omega
  · rfl

theorem forcedOpen_of_state (hs : h.state now ≠ .opened) : h.forcedOpen now = false := by
  by_contra hf
  simp [state,hf] at hs

theorem state_eq_closed_iff (hf : h.forcedOpen now = false) :
    h.state now = .closed ↔ h.openedAtNs = 0 := by
  simp only [state,hf]
  split_ifs <;> simp_all

theorem state_eq_halfOpen_iff (hf : h.forcedOpen now = false) : h.state now = .halfOpen ↔
    h.openedAtNs ≠ 0 ∧ h.config.openNs ≤ h.elapsedNs now-h.openedAtNs := by
  simp only [state,hf]
  split_ifs <;> simp_all

theorem state_eq_opened_iff (hf : h.forcedOpen now = false) : h.state now = .opened ↔
    h.openedAtNs ≠ 0 ∧ h.elapsedNs now-h.openedAtNs < h.config.openNs := by
  simp only [state,hf]
  split_ifs <;> simp_all

/-- The gate refuses exactly in the open state, and always with `CircuitOpen`. -/
theorem check_cases (h : CircuitBreakerHandle) (now : ℕ) (utcMs : ℤ) :
    (h.state now ≠ .opened ∧ h.check now utcMs = .ok ()) ∨
    (h.state now = .opened ∧ ∃ o r, h.check now utcMs = .error (.circuitOpen h.provider o r)) := by
  cases hs : h.state now with
  | closed => left; simp [check,hs]
  | opened => right; simp [check,hs]
  | halfOpen => left; simp [check,hs]

theorem check_of_opened (hs : h.state now = .opened) (utcMs : ℤ) :
    ∃ o r, h.check now utcMs = .error (.circuitOpen h.provider o r) := by
  rcases check_cases h now utcMs with ⟨hn,-⟩ | ⟨-,hc⟩
  · exact absurd hs hn
  · exact hc

theorem check_eq_ok_iff {utcMs : ℤ} : h.check now utcMs = .ok () ↔ h.state now ≠ .opened := by
  rcases check_cases h now utcMs with ⟨hs,hc⟩ | ⟨hs,o,r,hc⟩ <;> simp [hs,hc]

/-- A failure can set the opening time once and changes nothing else but the counter. -/
theorem recordFailure_cases (h : CircuitBreakerHandle) (now : ℕ) :
    (h.openedAtNs = 0 ∧ h.config.failureThreshold.toNat ≤ asU32 (h.failures+1) ∧
      h.recordFailure now =
        { h with failures := asU32 (h.failures+1), openedAtNs := h.elapsedNs now }) ∨
    ((h.openedAtNs = 0 → asU32 (h.failures+1) < h.config.failureThreshold.toNat) ∧
      h.recordFailure now = { h with failures := asU32 (h.failures+1) }) := by
  by_cases hc : asU32 (h.failures+1) ≥ h.config.failureThreshold.toNat ∧ h.openedAtNs = 0
  · exact .inl ⟨hc.2,hc.1,by simp only [recordFailure,if_pos hc]⟩
  · refine .inr ⟨fun ho => ?_,by simp only [recordFailure,if_neg hc]⟩
    by_contra hn
    exact hc ⟨by omega,ho⟩

/-- The part of the handle that no operation of a `run` call touches. -/
theorem recordOutcome_frame (h : CircuitBreakerHandle) (now : ℕ)
    (f : Except InferenceError Unit) :
    (h.recordOutcome now f).config = h.config ∧ (h.recordOutcome now f).epoch = h.epoch ∧
    (h.recordOutcome now f).provider = h.provider ∧
    (h.recordOutcome now f).forcedOpenUntil = h.forcedOpenUntil := by
  cases f with
  | ok v => exact ⟨rfl,rfl,rfl,rfl⟩
  | error e =>
    simp only [recordOutcome]
    split
    · rcases recordFailure_cases h now with ⟨-,-,hr⟩ | ⟨-,hr⟩ <;> rw [hr] <;> exact ⟨rfl,rfl,rfl,rfl⟩
    · exact ⟨rfl,rfl,rfl,rfl⟩

/-- Once the circuit is open, only a success moves the opening time. -/
theorem recordOutcome_openedAtNs_of_ne_zero (ho : h.openedAtNs ≠ 0) (now : ℕ)
    {f : Except InferenceError Unit} (hf : ∀ v, f ≠ .ok v) : (h.recordOutcome now f).openedAtNs = h.openedAtNs := by
  cases f with
  | ok v => exact absurd rfl (hf v)
  | error e =>
    simp only [recordOutcome]
    split
    · rcases recordFailure_cases h now with ⟨hz,-,-⟩ | ⟨-,hr⟩
      · exact absurd hz ho
      · rw [hr]
    · rfl

/-- While the low word of the clock has moved by less than the open period, the
circuit that opened at `t` is still open, also across a wrap of that word. -/
theorem state_eq_opened_of_lt (hf : h.forcedOpen now = false) {t : ℕ} (ht : h.epoch ≤ t) (hnow : t ≤ now)
    (ho : h.openedAtNs = h.elapsedNs t) (hz : h.openedAtNs ≠ 0)
    (hlt : now-t < h.config.openNs) : h.state now = .opened := by
  refine (state_eq_opened_iff hf).mpr ⟨hz,?_⟩
  have hle : h.elapsedNs now-h.elapsedNs t ≤ (now-h.epoch)-(t-h.epoch) := asU64_sub_le (by omega)
  rw [ho]
  omega

end CircuitBreakerHandle
end RakkaInference
