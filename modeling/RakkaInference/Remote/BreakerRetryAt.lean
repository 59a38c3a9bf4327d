import RakkaInference.Remote.BreakerOverride

/-! The times that `CircuitOpen` tells its receiver, against the clock. The wall clock is
in nanoseconds; the breaker reads it in milliseconds, and it advances with the monotonic
clock. -/
namespace RakkaInference
open Machine

namespace CircuitBreakerHandle
variable {h : CircuitBreakerHandle} {now epoch : ℕ}

/-- What the open state has lasted for, as the error reads it. -/
def openFor (h : CircuitBreakerHandle) (now : ℕ) : ℕ := h.elapsedNs now-h.openedAtNs

/-- The wall clock at `T`, when it shows `utcNs` at `now`. -/
def wallAt (now : ℕ) (utcNs : ℤ) (T : ℕ) : ℤ := utcNs+((T : ℤ)-now)

/-- A refusal whose times are right to two milliseconds, for all times before the horizon. -/
def Truthful (h : CircuitBreakerHandle) (now : ℕ) (utcNs : ℤ) (horizon : ℕ) : Prop :=
  ∃ openedAt retryAt : ℕ,
    h.check now (utcNs/1000000) = .error (.circuitOpen h.provider openedAt retryAt) ∧
    (openedAt : ℤ) ≤ utcNs/1000000 ∧
    ∀ T, now ≤ T → T < horizon →
      (wallAt now utcNs T < ((retryAt : ℤ)-2)*1000000 →
        ∃ o r, h.check T (wallAt now utcNs T/1000000) = .error (.circuitOpen h.provider o r)) ∧
      (((retryAt : ℤ)+2)*1000000 ≤ wallAt now utcNs T →
        h.check T (wallAt now utcNs T/1000000) = .ok ())

/-- An opening is recorded with a reading of the clock from the past. -/
theorem openedAtNs_call_le (ho : h.openedAtNs ≤ now-h.epoch) {t : ℕ} (ht : now ≤ t) (c : BreakerCall) :
    (h.call t c).openedAtNs ≤ t-h.epoch := by
  have hsub : now-h.epoch ≤ t-h.epoch := Nat.sub_le_sub_right ht _
  have hfail : (h.recordFailure t).openedAtNs ≤ t-h.epoch := by
    rcases h.recordFailure_cases t with ⟨-,-,hr⟩ | ⟨-,hr⟩
    · rw [hr]
      exact Nat.mod_le _ _
    · rw [hr]
      exact ho.trans hsub
  cases c with
  | recordSuccess => exact Nat.zero_le _
  | recordFailure => exact hfail
  | forceOpen d =>
    rw [call,(h.handleForceOpen_frame t d).2.2.2]
    exact ho.trans hsub
  | complete outcome =>
    cases outcome with
    | ok v => exact Nat.zero_le _
    | error e =>
      simp only [call,recordOutcome]
      split
      · exact hfail
      · exact ho.trans hsub

theorem openedAtNs_replay_le {calls : List (ℕ × BreakerCall)} {t : ℕ} (ho : h.openedAtNs ≤ t-h.epoch)
    (hord : List.IsChain (· ≤ ·) (t::calls.map Prod.fst++[now])) :
    (h.replay calls).openedAtNs ≤ now-h.epoch ∧ t ≤ now := by
  induction calls generalizing h t with
  | nil =>
    have htn : t ≤ now := by simpa using hord
    exact ⟨ho.trans (Nat.sub_le_sub_right htn _),htn⟩
  | cons c calls ih =>
    simp only [List.map_cons,List.cons_append] at hord
    obtain ⟨htc,hrest⟩ := List.isChain_cons_cons.mp hord
    have hep := (h.frame_call c.1 c.2).2.1
    have hcall := openedAtNs_call_le ho htc c.2
    rw [← hep] at hcall
    obtain ⟨h1,h2⟩ := ih hcall hrest
    rw [hep] at h1
    exact ⟨h1,htc.trans h2⟩

/-- As long as the clock's word lasts, an open period of less than that word ends when it
should. -/
theorem state_eq_opened_iff_of_lt {T : ℕ} (hD : h.config.openDuration < 2^64) (ho : h.openedAtNs ≤ T-h.epoch)
    (hT : T < h.epoch+2^64) : h.state T = .opened ↔
      h.forcedOpen T = true ∨ h.openedAtNs ≠ 0 ∧ T < h.epoch+h.openedAtNs+h.config.openDuration := by
  have hclock : h.elapsedNs T = T-h.epoch := asU64_of_lt (by omega)
  have hopen : h.config.openNs = h.config.openDuration := asU64_of_lt hD
  cases hf : h.forcedOpen T with
  | true => simp [state,hf]
  | false =>
    rw [state_eq_opened_iff hf,hclock,hopen]
    simp only [Bool.false_eq_true,false_or,ne_eq]
    constructor
    · rintro ⟨hz,hlt⟩
      exact ⟨hz,by omega⟩
    · rintro ⟨hz,hlt⟩
      exact ⟨hz,by omega⟩

/-- What the refusal says, when no cast cuts anything off. -/
theorem check_opened_eq {w : ℤ} (hs : h.state now = .opened) (hD : h.config.openDuration < 2^64)
    (hage : h.openFor now < 2^63) (hw : ((h.openFor now/1000000 : ℕ) : ℤ) ≤ w) (hw63 : w < 2^63) :
    ∃ openedAt retryAt : ℕ, h.check now w = .error (.circuitOpen h.provider openedAt retryAt) ∧
      (openedAt : ℤ) = w-(h.openFor now/1000000 : ℕ) ∧
      retryAt = openedAt+h.config.openDuration/1000000 := by
  have hi64 : asI64 (h.elapsedNs now-h.openedAtNs) = (h.openFor now : ℤ) := by
    apply Int.bmod_eq_of_le <;> unfold openFor at * <;> omega
  have hdiv : (h.openFor now : ℤ).tdiv 1000000 = (h.openFor now/1000000 : ℕ) := by
    rw [Int.tdiv_eq_ediv_of_nonneg (by omega)]
    omega
  have hsat : i64SaturatingSub w (h.openFor now/1000000 : ℕ) = w-(h.openFor now/1000000 : ℕ) := by
    unfold i64SaturatingSub
    omega
  have hms : asU64 (Duration.asMillis h.config.openDuration) = h.config.openDuration/1000000 := by
    unfold Duration.asMillis
    exact asU64_of_lt (by omega)
  obtain ⟨m,hm⟩ := Int.eq_ofNat_of_zero_le (a := w-(h.openFor now/1000000 : ℕ)) (by omega)
  have hword : asU64OfInt (w-(h.openFor now/1000000 : ℕ)) = m := by
    unfold asU64OfInt
    rw [hm]
    omega
  have hadd : u64SaturatingAdd m (h.config.openDuration/1000000) = m+h.config.openDuration/1000000 := by
    unfold u64SaturatingAdd
    omega
  refine ⟨m,m+h.config.openDuration/1000000,?_,hm.symm,rfl⟩
  simp only [check,hs]
  rw [hi64,hdiv,hsat,hword,hms,hadd]

/-- The time on the monotonic clock that the refusal announces: the end of the open period
counted from `openedAtNs`, up to the rounding of three readings to milliseconds. -/
def roundedEnd (h : CircuitBreakerHandle) (now : ℕ) (utcNs : ℤ) : ℤ :=
  h.epoch+h.openedAtNs+(h.config.openDuration/1000000*1000000 : ℕ)+(h.openFor now%1000000 : ℕ)-
    utcNs%1000000

/-- An override that is in effect ends when the refusal says; where the circuit is open
by itself, it may end earlier. -/
def OverrideAgrees (h : CircuitBreakerHandle) (now : ℕ) (utcNs : ℤ) (horizon : ℕ) : Prop :=
  ∀ deadline, h.forcedOpenUntil = some deadline → now < deadline →
    ((min deadline horizon : ℕ) : ℤ) ≤ h.roundedEnd now utcNs+2000000 ∧
    (h.openedAtNs = 0 → min (h.roundedEnd now utcNs-2000000) horizon ≤ deadline)

variable {utcNs : ℤ} {horizon : ℕ}

/-- The three roundings together move the announced time by less than two milliseconds. -/
theorem roundedEnd_near (h : CircuitBreakerHandle) (now : ℕ) (utcNs : ℤ) :
    h.roundedEnd now utcNs-2000000 < (h.epoch+h.openedAtNs+h.config.openDuration : ℕ) ∧
    ((h.epoch+h.openedAtNs+h.config.openDuration : ℕ) : ℤ) < h.roundedEnd now utcNs+2000000 := by
  unfold roundedEnd
  omega

/-- Before the horizon, truth is a matter of when the state leaves `opened`. -/
theorem truthful_iff_state (hs : h.state now = .opened) (hD : h.config.openDuration < 2^64)
    (ho : h.openedAtNs ≤ now-h.epoch) (he : h.epoch ≤ now)
    (hage : h.openFor now < 2^63) (hw : ((h.openFor now/1000000 : ℕ) : ℤ) ≤ utcNs/1000000)
    (hw63 : utcNs/1000000 < 2^63) (hclock : now < h.epoch+2^64) :
    h.Truthful now utcNs horizon ↔ ∀ T, now ≤ T → T < horizon →
      ((T : ℤ) < h.roundedEnd now utcNs-2000000 → h.state T = .opened) ∧
      (h.roundedEnd now utcNs+2000000 ≤ T → h.state T ≠ .opened) := by
  obtain ⟨o,r,hcheck,hopened,hretry⟩ := check_opened_eq hs hD hage hw hw63
  have hfor : h.openFor now = now-h.epoch-h.openedAtNs := by
    unfold openFor elapsedNs
    rw [asU64_of_lt (by omega)]
  have hbefore : ∀ T : ℕ, wallAt now utcNs T < ((r : ℤ)-2)*1000000 ↔
      (T : ℤ) < h.roundedEnd now utcNs-2000000 := by
    intro T
    unfold wallAt roundedEnd
    omega
  have hafter : ∀ T : ℕ, ((r : ℤ)+2)*1000000 ≤ wallAt now utcNs T ↔
      h.roundedEnd now utcNs+2000000 ≤ T := by
    intro T
    unfold wallAt roundedEnd
    omega
  have hrefused : ∀ T w, (∃ o r, h.check T w = .error (.circuitOpen h.provider o r)) ↔
      h.state T = .opened := by
    intro T w
    refine ⟨?_,fun hT => check_of_opened hT w⟩
    rintro ⟨o,r,hc⟩
    by_contra hT
    rw [check_eq_ok_iff.mpr hT] at hc
    exact nomatch hc
  constructor
  · rintro ⟨o',r',hc,-,htimes⟩ T hnT hT
    rw [hcheck] at hc
    obtain ⟨rfl,rfl⟩ : o = o' ∧ r = r' := by simpa using hc
    obtain ⟨hf,hk⟩ := htimes T hnT hT
    rw [hbefore,hrefused] at hf
    rw [hafter,check_eq_ok_iff] at hk
    exact ⟨hf,hk⟩
  · intro hstate
    refine ⟨o,r,hcheck,by omega,?_⟩
    intro T hnT hT
    rw [hbefore,hrefused,hafter,check_eq_ok_iff]
    exact hstate T hnT hT

/-- A refusal tells the truth exactly when an override in effect agrees with it. -/
theorem truthful_iff_overrideAgrees (hs : h.state now = .opened) (hD : h.config.openDuration < 2^64)
    (ho : h.openedAtNs ≤ now-h.epoch) (he : h.epoch ≤ now)
    (hage : h.openFor now < 2^63) (hw : ((h.openFor now/1000000 : ℕ) : ℤ) ≤ utcNs/1000000)
    (hw63 : utcNs/1000000 < 2^63) (hnow : now < horizon) (hhor : horizon ≤ h.epoch+2^64) :
    h.Truthful now utcNs horizon ↔ h.OverrideAgrees now utcNs horizon := by
  rw [truthful_iff_state hs hD ho he hage hw hw63 (by omega)]
  obtain ⟨hnear1,hnear2⟩ := h.roundedEnd_near now utcNs
  have hstate : ∀ T, now ≤ T → T < horizon → (h.state T = .opened ↔
      h.forcedOpen T = true ∨ h.openedAtNs ≠ 0 ∧ T < h.epoch+h.openedAtNs+h.config.openDuration) :=
    fun T hnT hT => state_eq_opened_iff_of_lt hD (by omega) (by omega)
  constructor
  · intro htimes deadline hdeadline hlt
    have hforced : ∀ T, h.forcedOpen T = true ↔ T < deadline := by simp [forcedOpen,hdeadline]
    constructor
    · -- otherwise the override still refuses one nanosecond before it ends
      by_contra hlate
      have hT := htimes (min deadline horizon-1) (by omega) (by omega)
      apply hT.2 (by omega)
      rw [hstate _ (by omega) (by omega),hforced]
      left
      omega
    · intro hz
      by_contra hearly
      have hT := (htimes deadline (by omega) (by omega)).1 (by omega)
      rw [hstate _ (by omega) (by omega),hforced] at hT
      omega
  · intro hagree T hnT hT
    rw [ne_eq,hstate T hnT hT]
    cases hdeadline : h.forcedOpenUntil with
    | none =>
      have hforced : ∀ T, h.forcedOpen T = false := fun T => Unforced.forcedOpen hdeadline T
      have hz := (hstate now le_rfl hnow).mp hs
      simp only [hforced,Bool.false_eq_true,false_or] at hz ⊢
      omega
    | some deadline =>
      have hforced : ∀ T, h.forcedOpen T = true ↔ T < deadline := by simp [forcedOpen,hdeadline]
      have hz := (hstate now le_rfl hnow).mp hs
      rw [hforced] at hz ⊢
      by_cases hlt : now < deadline
      · have hends := hagree deadline hdeadline hlt
        omega
      · omega

/-- For every history of a breaker: a `CircuitOpen` error tells the truth exactly when the
override, if one is in effect, ends at the announced time. -/
theorem circuitOpen_truthful_iff (provider : ProviderKind) (config : CircuitBreakerConfig)
    (calls : List (ℕ × BreakerCall)) (hord : InOrder epoch now calls)
    (hs : ((new provider config epoch).replay calls).state now = .opened)
    (hD : config.openDuration < 2^64)
    (hage : ((new provider config epoch).replay calls).openFor now < 2^63)
    (hw : ((((new provider config epoch).replay calls).openFor now/1000000 : ℕ) : ℤ) ≤ utcNs/1000000)
    (hw63 : utcNs/1000000 < 2^63) (hnow : now < horizon) (hhor : horizon ≤ epoch+2^64) :
    ((new provider config epoch).replay calls).Truthful now utcNs horizon ↔
      ((new provider config epoch).replay calls).OverrideAgrees now utcNs horizon := by
  obtain ⟨hconfig,hepoch,-⟩ := frame_replay (new provider config epoch) calls
  obtain ⟨ho,he⟩ := openedAtNs_replay_le (h := new provider config epoch) (Nat.zero_le _) hord
  apply truthful_iff_overrideAgrees hs
  · rw [hconfig]
    exact hD
  · rw [hepoch]
    exact ho
  · rw [hepoch]
    exact he
  · exact hage
  · exact hw
  · exact hw63
  · exact hnow
  · rw [hepoch]
    exact hhor

/-- A circuit that opened by itself at one second, refusing at two. -/
theorem circuitOpen_truthful_unforced :
    InOrder 0 2000000000 [(1000000000,.recordFailure)] ∧
    ((new .openAi { failureThreshold := 1 } 0).replay [(1000000000,.recordFailure)]).Truthful
      2000000000 1700000000000000000 (2^64) := by
  have hord : InOrder 0 2000000000 [(1000000000,.recordFailure)] := by
    simp [InOrder]
  refine ⟨hord,(circuitOpen_truthful_iff .openAi { failureThreshold := 1 } _ hord (by decide) (by decide)
    (by decide) (by decide) (by decide) (by decide) (by decide)).mpr ?_⟩
  intro deadline hdeadline
  exact nomatch hdeadline

/-- A fresh breaker that an operator forces open for a minute announces its own half
minute, and still refuses fifteen seconds after that. -/
theorem forceOpen_announces_open_duration :
    ((new .openAi {} 0).replay [(0,.forceOpen 60000000000)]).check 0 1700000000000 =
      .error (.circuitOpen .openAi 1700000000000 1700000030000) ∧
    ((new .openAi {} 0).replay [(0,.forceOpen 60000000000)]).check 45000000000 1700000045000 ≠ .ok () ∧
    ¬ ((new .openAi {} 0).replay [(0,.forceOpen 60000000000)]).Truthful 0 1700000000000000000 (2^64) := by
  set h := (new .openAi {} 0).replay [(0,.forceOpen 60000000000)]
  have hzero : h.openFor 0 = 0 := rfl
  have hdur : h.config.openDuration = 30000000000 := rfl
  have hopen : h.state 0 = .opened := by decide
  obtain ⟨o,r,hcheck,ho,hr⟩ := check_opened_eq (w := 1700000000000) hopen (by decide) (by decide)
    (by decide) (by decide)
  obtain rfl : o = 1700000000000 := by omega
  obtain rfl : r = 1700000030000 := by omega
  refine ⟨hcheck,?_,?_⟩
  · rw [ne_eq,check_eq_ok_iff,not_not]
    decide
  rw [truthful_iff_overrideAgrees (by decide) (by decide) (by decide) (by decide) (by decide) (by decide)
    (by decide) (by decide) (by decide)]
  intro hagree
  have hends := (hagree 60000000000 rfl (by decide)).1
  revert hends
  decide

end CircuitBreakerHandle
end RakkaInference
