import RakkaInference.Remote.BreakerRuns

/-! When the circuit opens. The breaker is compared with a ledger that only counts: the
failures since the last success, and the moment at which they reached the threshold. -/
namespace RakkaInference
open Machine

namespace BreakerSystem
variable {ι : Type*} [DecidableEq ι] {s t : BreakerSystem ι} {a : BreakerAction ι}
  {config : CircuitBreakerConfig} {epoch : ℕ} {provider : ProviderKind}

/-- The abstract count behind the breaker: the counted failures since the last success,
and when they reached the threshold. Errors that do not count change nothing. -/
structure Ledger where
  now : ℕ
  streak : ℕ
  trippedAt : Option ℕ

namespace Ledger

def start (epoch : ℕ) : Ledger := ⟨epoch,0,none⟩

def record (threshold : ℕ) (l : Ledger) : BreakerAction ι → Ledger
  | .tick ns => { l with now := l.now+ns }
  | .finish _ (.ok _) => { l with streak := 0, trippedAt := none }
  | .finish _ (.error e) =>
    if e.countsAsCircuitFailure then
      { l with
        streak := l.streak+1
        trippedAt := if l.streak+1 = threshold then some l.now else l.trippedAt }
    else l
  | _ => l

end Ledger

/-- A counted failure is not recorded at a moment whose cast to nanoseconds is the
sentinel zero. -/
def RecordedOffZero (s : BreakerSystem ι) (a : BreakerAction ι) : Prop :=
  ∀ r e, a = .finish r (.error e) → e.countsAsCircuitFailure → s.handle.elapsedNs s.now ≠ 0

/-- The handle stores the ledger: the low word of the count, and the clock's reading when
the threshold was reached. -/
structure Books (config : CircuitBreakerConfig) (epoch : ℕ) (s : BreakerSystem ι) (l : Ledger) :
    Prop extends Sound config epoch s where
  now_eq : l.now = s.now
  failures_eq : s.handle.failures = asU32 l.streak
  below : l.streak < config.failureThreshold.toNat → s.handle.openedAtNs = 0
  reached : config.failureThreshold.toNat ≤ l.streak → ∃ t, l.trippedAt = some t ∧ epoch ≤ t ∧
    t ≤ s.now ∧ s.handle.openedAtNs = s.handle.elapsedNs t ∧ s.handle.openedAtNs ≠ 0

omit [DecidableEq ι] in
theorem books_init (hk : 1 ≤ config.failureThreshold.toNat) :
    Books config epoch (init provider config epoch : BreakerSystem ι) (Ledger.start epoch) :=
  ⟨sound_init,rfl,rfl,fun _ => rfl,fun h => by simp only [Ledger.start] at h; omega⟩

omit [DecidableEq ι] in
/-- What leaves the handle and the clock alone leaves the books alone. -/
theorem Books.same {l : Ledger} (hb : Books config epoch s l) (ht : Sound config epoch t)
    (hnow : t.now = s.now) (hh : t.handle = s.handle) : Books config epoch t l := by
  obtain ⟨-,hn,hfail,hbelow,hreached⟩ := hb
  refine ⟨ht,by rw [hnow,hn],by rw [hh,hfail],?_,?_⟩
  · rw [hh]
    exact hbelow
  · rw [hh,hnow]
    exact hreached

omit [DecidableEq ι] in
/-- A counted failure opens the circuit when it is the first to reach the threshold. -/
theorem Books.recordFailure {l : Ledger} (hb : Books config epoch s l) (ht : Sound config epoch t)
    (hnow : t.now = s.now) (hzero : s.handle.elapsedNs s.now ≠ 0)
    (hh : t.handle = s.handle.recordFailure s.now) :
    Books config epoch t { l with
      streak := l.streak+1
      trippedAt := if l.streak+1 = config.failureThreshold.toNat then some l.now else l.trippedAt } := by
  obtain ⟨hs,hn,hfail,hbelow,hreached⟩ := hb
  have hlt := config.failureThreshold.toNat_lt
  have hcount := s.handle.recordFailure_cases s.now
  rw [← hh,hfail,asU32_succ,hs.config_eq] at hcount
  obtain ⟨hshut,hge,hr⟩ | ⟨hno,hr⟩ := hcount
  · have hst : l.streak < config.failureThreshold.toNat := by
      by_contra hge'
      obtain ⟨-,-,-,-,-,hne⟩ := hreached (by omega)
      exact hne hshut
    have heq : l.streak+1 = config.failureThreshold.toNat := by
      have hle := asU32_le (l.streak+1)
      omega
    rw [if_pos heq]
    refine ⟨ht,hn.trans hnow.symm,by rw [hr],fun hlt' => ?_,fun _ => ⟨s.now,?_⟩⟩
    · exact absurd hlt' heq.ge.not_gt
    · rw [hr,hnow]
      exact ⟨by rw [hn],hs.epoch_le,le_rfl,rfl,hzero⟩
  · refine ⟨ht,hn.trans hnow.symm,by rw [hr],fun hlt' => ?_,fun hge => ?_⟩
    · rw [hr]
      exact hbelow (Nat.lt_of_succ_lt hlt')
    · have hst : config.failureThreshold.toNat ≤ l.streak := by
        by_contra hst
        have hcount := hno (hbelow (by omega))
        rw [asU32_of_lt (by omega)] at hcount
        exact absurd hge (by simpa using hcount)
      obtain ⟨u,hu,h1,h2,h3,h4⟩ := hreached hst
      rw [if_neg (by omega),hr,hnow]
      exact ⟨u,hu,h1,h2,h3,h4⟩

omit [DecidableEq ι] in
theorem books_finish {r : ι} {f : Except InferenceError Unit} {l : Ledger}
    (hk : 1 ≤ config.failureThreshold.toNat) (hb : Books config epoch s l)
    (hz : RecordedOffZero s (.finish r f)) (ht : Sound config epoch t) (hnow : t.now = s.now)
    (hh : t.handle = s.handle.recordOutcome s.now f) :
    Books config epoch t (l.record config.failureThreshold.toNat (.finish r f)) := by
  cases f with
  | ok v =>
    refine ⟨ht,hb.now_eq.trans hnow.symm,?_,?_,?_⟩
    · rw [hh]
      rfl
    · intro _
      rw [hh]
      rfl
    · intro hle
      simp only [Ledger.record] at hle
      omega
  | error e =>
    cases hc : e.countsAsCircuitFailure with
    | false =>
      simp only [Ledger.record,hc,Bool.false_eq_true,if_false]
      apply hb.same ht hnow
      rw [hh]
      simp [CircuitBreakerHandle.recordOutcome,hc]
    | true =>
      simp only [Ledger.record,hc,if_true]
      apply hb.recordFailure ht hnow (hz r e rfl hc)
      rw [hh]
      simp [CircuitBreakerHandle.recordOutcome,hc]

theorem books_step {l : Ledger} (hk : 1 ≤ config.failureThreshold.toNat)
    (hb : Books config epoch s l) (ha : Unattended a ∧ RecordedOffZero s a)
    (h : step s a = some t) :
    Books config epoch t (l.record config.failureThreshold.toNat a) := by
  have ht := sound_step hb.toSound ha.1 h
  obtain ⟨hs,hn,hfail,hbelow,hreached⟩ := hb
  cases move_of_step h with
  | tick ns =>
    refine ⟨ht,by simp only [Ledger.record,hn],hfail,hbelow,fun hle => ?_⟩
    obtain ⟨u,hu,h1,h2,h3⟩ := hreached hle
    exact ⟨u,hu,h1,Nat.le_add_right_of_le h2,h3⟩
  | refused hr hst => exact ⟨ht,hn,hfail,hbelow,hreached⟩
  | admitted hr hst => exact ⟨ht,hn,hfail,hbelow,hreached⟩
  | finish hr hnow hh hadm hopen =>
    exact books_finish hk ⟨hs,hn,hfail,hbelow,hreached⟩ ha.2 ht hnow hh
  | abandon hr => exact ⟨ht,hn,hfail,hbelow,hreached⟩
  | forceOpen d => exact absurd rfl (ha.1 d)

/-- The ledger of a run that starts with a fresh breaker. -/
def ledger (config : CircuitBreakerConfig) (epoch : ℕ) (as : List (BreakerAction ι)) : Ledger :=
  as.foldl (fun l a => l.record config.failureThreshold.toNat a) (Ledger.start epoch)

theorem books_exec {as : List (BreakerAction ι)} (hk : 1 ≤ config.failureThreshold.toNat)
    (ha : ∀ a ∈ as, Unattended a) (hz : Throughout step RecordedOffZero (init provider config epoch) as)
    (h : exec step (init provider config epoch) as = some s) :
    Books config epoch s (ledger config epoch as) :=
  exec_simulation (fun _ _ _ _ hb hP hstep => books_step hk hb hP hstep) (books_init hk)
    ((throughout_of_forall (fun _ => ha) _).and hz) h

/-- Closed below the threshold; open, and refusing every check, for the open period from
the moment the threshold was reached. -/
structure OpeningLaw (config : CircuitBreakerConfig) (s : BreakerSystem ι) (l : Ledger) : Prop where
  closed : l.streak < config.failureThreshold.toNat → ∀ T, s.now ≤ T → s.handle.state T = .closed
  refused : config.failureThreshold.toNat ≤ l.streak → ∃ t, l.trippedAt = some t ∧ t ≤ s.now ∧
    ∀ T, s.now ≤ T → T < t+config.openDuration → s.handle.state T = .opened ∧
      ∀ utcMs, ∃ o r, s.handle.check T utcMs = .error (.circuitOpen s.handle.provider o r)

omit [DecidableEq ι] in
theorem openingLaw_of_books {l : Ledger} (hb : Books config epoch s l)
    (hD : config.openDuration < 2^64 ∨ config.openNs = 2^64-1) : OpeningLaw config s l := by
  refine ⟨fun hlt T _ => ?_,fun hge => ?_⟩
  · exact (CircuitBreakerHandle.state_eq_closed_iff (hb.unforced.forcedOpen T)).mpr (hb.below hlt)
  · obtain ⟨t,ht,het,htn,ho,hz⟩ := hb.reached hge
    refine ⟨t,ht,htn,fun T hT hlt => ?_⟩
    have hst : s.handle.state T = .opened := by
      rcases hD with hD | hD
      · refine CircuitBreakerHandle.state_eq_opened_of_lt (hb.unforced.forcedOpen T)
          (by rw [hb.epoch_eq]; exact het) (htn.trans hT) ho hz ?_
        rw [hb.config_eq,CircuitBreakerConfig.openNs,asU64_of_lt hD]
        omega
      · refine (CircuitBreakerHandle.state_eq_opened_iff (hb.unforced.forcedOpen T)).mpr ⟨hz,?_⟩
        have := asU64_lt (T-s.handle.epoch)
        rw [hb.config_eq,hD]
        change asU64 (T-s.handle.epoch)-_ < _
        omega
    exact ⟨hst,CircuitBreakerHandle.check_of_opened hst⟩

/-- One call on a breaker that is not open, failing at once with a counted error. -/
def failure : List (BreakerAction ℕ) := [.start 0 0,.finish 0 (.error (.timeout 0))]

def failures : ℕ → List (BreakerAction ℕ)
  | 0 => []
  | n+1 => failure++failures n

/-- Failures short of the threshold only advance the counter. -/
theorem exec_failures {s : BreakerSystem ℕ} (hu : s.handle.Unforced) (ho : s.handle.openedAtNs = 0)
    (hr : s.admitted 0 = none) (n : ℕ)
    (hn : n = 0 ∨ s.handle.failures+n < s.handle.config.failureThreshold.toNat) :
    exec step s (failures n) =
      some { s with handle := { s.handle with failures := s.handle.failures+n } } := by
  induction n generalizing s with
  | zero => rfl
  | succ n ih =>
    have hlt := s.handle.config.failureThreshold.toNat_lt
    have hclosed := (CircuitBreakerHandle.state_eq_closed_iff (hu.forcedOpen s.now)).mpr ho
    have hc : s.handle.check s.now 0 = .ok () :=
      CircuitBreakerHandle.check_eq_ok_iff.mpr (by rw [hclosed]; decide)
    have h32 : asU32 (s.handle.failures+1) = s.handle.failures+1 := Nat.mod_eq_of_lt (by omega)
    have hrec : s.handle.recordOutcome s.now (.error (.timeout 0)) =
        { s.handle with failures := s.handle.failures+1 } := by
      change s.handle.recordFailure s.now = _
      rcases s.handle.recordFailure_cases s.now with ⟨-,hge,-⟩ | ⟨-,h⟩
      · omega
      · rw [h,h32]
    have hone : exec step s failure =
        some { s with handle := { s.handle with failures := s.handle.failures+1 } } := by
      simp [failure,exec,step,hr,hc,setAdmitted,hrec,opens,ho]
    refine exec_append_iff.mpr ⟨_,hone,?_⟩
    have hrest := ih (s := { s with handle := { s.handle with failures := s.handle.failures+1 } })
      hu ho hr (by dsimp only; omega)
    rw [hrest,show s.handle.failures+(n+1) = s.handle.failures+1+n by omega]

/-- The shortest run that opens a fresh breaker: failures, all at the first nanosecond. -/
def trip (config : CircuitBreakerConfig) : List (BreakerAction ℕ) :=
  .tick 1::failures (config.failureThreshold.toNat-1)++failure

theorem exec_trip (provider : ProviderKind) (config : CircuitBreakerConfig) (epoch : ℕ) :
    ∃ s t, exec step (init provider config epoch)
        (.tick 1::failures (config.failureThreshold.toNat-1)++[.start 0 0]) = some s ∧
      step s (.finish 0 (.error (.timeout 0))) = some t ∧ s.handle.state s.now = .closed ∧
      t.now = epoch+1 ∧ t.admitted = (fun _ => none) ∧ t.handle.Unforced ∧
      t.handle.config = config ∧ t.handle.epoch = epoch ∧ t.handle.openedAtNs = 1 := by
  have hlt := config.failureThreshold.toNat_lt
  set n := config.failureThreshold.toNat-1 with hn
  set s₀ : BreakerSystem ℕ := ⟨epoch+1,.new provider config epoch,fun _ => none,0,0⟩ with hs₀
  have hcalm := exec_failures (s := s₀) rfl rfl rfl n (by
    simp only [hs₀,CircuitBreakerHandle.new]
    omega)
  set s₁ : BreakerSystem ℕ := { s₀ with handle := { s₀.handle with failures := s₀.handle.failures+n } }
    with hs₁
  have hu : s₁.handle.Unforced := rfl
  have hclosed : ∀ T, s₁.handle.state T = .closed := fun T =>
    (CircuitBreakerHandle.state_eq_closed_iff (hu.forcedOpen T)).mpr rfl
  have hc : s₁.handle.check s₁.now 0 = .ok () :=
    CircuitBreakerHandle.check_eq_ok_iff.mpr (by rw [hclosed]; decide)
  have hfail : s₁.handle.failures = n := by simp [hs₁,hs₀,CircuitBreakerHandle.new]
  have hrec : s₁.handle.recordFailure (epoch+1) =
      { s₁.handle with failures := asU32 (n+1), openedAtNs := 1 } := by
    have helapsed : s₁.handle.elapsedNs (epoch+1) = 1 := by
      simp [hs₁,hs₀,CircuitBreakerHandle.new,CircuitBreakerHandle.elapsedNs,asU64]
    rcases s₁.handle.recordFailure_cases (epoch+1) with ⟨-,-,h⟩ | ⟨hno,-⟩
    · rw [h,hfail,helapsed]
    · have hcfg : s₁.handle.config = config := rfl
      have := hno rfl
      rw [hfail,hcfg] at this
      unfold asU32 at this
      omega
  refine ⟨s₁.setAdmitted 0 (some ⟨.closed,0⟩),
    ⟨epoch+1,{ s₁.handle with failures := asU32 (n+1), openedAtNs := 1 },fun _ => none,1,epoch+1⟩,
    ?_,?_,hclosed _,rfl,rfl,rfl,rfl,rfl,rfl⟩
  · refine exec_append_iff.mpr ⟨s₁,exec_cons_iff.mpr ⟨s₀,rfl,hcalm⟩,?_⟩
    refine exec_cons_iff.mpr ⟨_,?_,rfl⟩
    have hadm : s₁.admitted 0 = none := rfl
    simp only [step,hadm,hc,hclosed]
    rfl
  · have hadm : (s₁.setAdmitted 0 (some ⟨.closed,0⟩)).admitted 0 = some ⟨.closed,0⟩ := by
      simp [setAdmitted]
    have hout : (s₁.setAdmitted 0 (some ⟨.closed,0⟩)).handle.recordOutcome
        (s₁.setAdmitted 0 (some ⟨.closed,0⟩)).now (.error (.timeout 0)) =
        { s₁.handle with failures := asU32 (n+1), openedAtNs := 1 } := hrec
    simp only [step,hadm,hout]
    simp [setAdmitted,opens,hs₁,hs₀,CircuitBreakerHandle.new]

theorem trip_eq (config : CircuitBreakerConfig) : trip config =
    (.tick 1::failures (config.failureThreshold.toNat-1)++[.start 0 0])++
      [.finish 0 (.error (.timeout 0))] := by
  simp [trip,failure]

theorem mem_failures {n : ℕ} {a : BreakerAction ℕ} (h : a ∈ failures n) :
    a = .start 0 0 ∨ a = .finish 0 (.error (.timeout 0)) := by
  induction n with
  | zero => simp [failures] at h
  | succ n ih =>
    rcases List.mem_append.mp h with h | h
    · simpa [failure] using h
    · exact ih h

theorem mem_trip {a : BreakerAction ℕ} (h : a ∈ trip config) :
    a = .tick 1 ∨ a = .start 0 0 ∨ a = .finish 0 (.error (.timeout 0)) := by
  rcases List.mem_append.mp h with h | h
  · rcases List.mem_cons.mp h with h | h
    · exact .inl h
    · exact .inr (mem_failures h)
  · exact .inr (by simpa [failure] using h)

theorem unattended_of_mem_trip {a : BreakerAction ℕ} (h : a ∈ trip config) : Unattended a := by
  intro d
  rcases mem_trip h with rfl | rfl | rfl <;> simp

/-- The failures of the shortest opening run are recorded one nanosecond in. -/
theorem recordedOffZero_trip {t : BreakerSystem ℕ}
    (h : exec step (init provider config epoch) (trip config) = some t) :
    Throughout step RecordedOffZero (init provider config epoch) (trip config) := by
  refine ⟨fun r e he => by simp at he,fun s hs => ?_⟩
  obtain rfl : s = { (init provider config epoch : BreakerSystem ℕ) with now := epoch+1 } := by
    simpa [step,init] using hs.symm
  obtain ⟨u,hu,hrest⟩ := exec_cons_iff.mp h
  obtain rfl := Option.some.inj (hs.symm.trans hu)
  refine throughout_of_invariant
    (I := fun s : BreakerSystem ℕ => s.now = epoch+1 ∧ s.handle.epoch = epoch)
    (P := fun _ a => a = .start 0 0 ∨ a = .finish 0 (.error (.timeout 0))) ?_ ?_ ⟨rfl,rfl⟩ ?_ hrest
  · rintro s a t ⟨hn,he⟩ ha hstep
    cases move_of_step hstep with
    | tick ns => simp at ha
    | refused hr hs => exact ⟨hn,he⟩
    | admitted hr hs => exact ⟨hn,he⟩
    | finish hr hnow hh hadm hopen =>
      rw [hnow,hh,(s.handle.recordOutcome_frame s.now _).2.1]
      exact ⟨hn,he⟩
    | abandon hr => exact ⟨hn,he⟩
    | forceOpen d => simp at ha
  · rintro s a t ⟨hn,he⟩ - - r e - -
    simp [CircuitBreakerHandle.elapsedNs,hn,he,asU64]
  · refine throughout_of_forall (fun _ a ha => ?_) _
    rcases List.mem_append.mp ha with ha | ha
    · exact mem_failures ha
    · simpa [failure] using ha

/-- A tripped breaker reads half-open after the open period as the comparison reads it. -/
theorem state_tripped {h : CircuitBreakerHandle} (hu : h.Unforced) (ho : h.openedAtNs = 1)
    (hw : h.config.openNs < 2^64-1) : h.state (h.epoch+1+h.config.openNs) = .halfOpen := by
  rw [CircuitBreakerHandle.state_eq_halfOpen_iff (hu.forcedOpen _),CircuitBreakerHandle.elapsedNs,
    show h.epoch+1+h.config.openNs-h.epoch = h.config.openNs+1 by omega,asU64_of_lt (by omega),ho]
  omega

/-- Every run without overrides whose failures are recorded off the sentinel keeps the
opening law exactly when the open period fits the word in which it is compared, or is cut
down to the largest word, which no elapsed time reaches. -/
theorem openingLaw_iff (provider : ProviderKind) (epoch : ℕ)
    (hk : 1 ≤ config.failureThreshold.toNat) :
    (∀ (as : List (BreakerAction ℕ)) (s : BreakerSystem ℕ), (∀ a ∈ as, Unattended a) →
      Throughout step RecordedOffZero (init provider config epoch) as →
      exec step (init provider config epoch) as = some s →
      OpeningLaw config s (ledger config epoch as)) ↔
    config.openDuration < 2^64 ∨ config.openNs = 2^64-1 := by
  constructor
  · intro h
    by_contra hD
    simp only [not_or,not_lt] at hD
    have hw : config.openNs < 2^64-1 := by
      have := asU64_lt config.openDuration
      have hne := hD.2
      unfold CircuitBreakerConfig.openNs at hne ⊢
      omega
    obtain ⟨s,t,hs,hst,-,hnow,-,hu,hcfg,hep,ho⟩ := exec_trip provider config epoch
    have htrip : exec step (init provider config epoch) (trip config) = some t := by
      rw [trip_eq]
      exact exec_snoc_iff.mpr ⟨s,hs,hst⟩
    have hrun : exec step (init provider config epoch) (trip config++[.tick config.openNs]) =
        some { t with now := t.now+config.openNs } := exec_snoc_iff.mpr ⟨t,htrip,rfl⟩
    have hun : ∀ a ∈ trip config++[.tick config.openNs], Unattended a := by
      intro a ha
      rcases List.mem_append.mp ha with ha | ha
      · exact unattended_of_mem_trip ha
      · obtain rfl := List.mem_singleton.mp ha
        exact fun d => by simp
    have hz : Throughout step RecordedOffZero (init provider config epoch)
        (trip config++[.tick config.openNs]) :=
      (throughout_append_iff htrip).mpr ⟨recordedOffZero_trip htrip,
        fun r e he => by simp at he,fun _ _ => trivial⟩
    have hbooks := books_exec hk hun hz hrun
    have hge : config.failureThreshold.toNat ≤ (ledger config epoch
        (trip config++[.tick config.openNs])).streak := by
      by_contra hlt
      have hzero := hbooks.below (by omega)
      rw [show ({ t with now := t.now+config.openNs } : BreakerSystem ℕ).handle = t.handle from rfl,
        ho] at hzero
      omega
    obtain ⟨u,hu₁,hle,hlaw⟩ := (h _ _ hun hz hrun).refused hge
    obtain ⟨v,hv,hev,hvn,heq,-⟩ := hbooks.reached hge
    obtain rfl : u = v := Option.some.inj (hu₁.symm.trans hv)
    -- the threshold was reached one nanosecond in, so the law still asks for refusals
    have hu1 : u = epoch+1 := by
      change t.handle.openedAtNs = asU64 (u-t.handle.epoch) at heq
      rw [ho,hep] at heq
      simp only at hvn
      unfold asU64 at heq
      omega
    have hopened := (hlaw (t.now+config.openNs) le_rfl (by omega)).1
    have hhalf := state_tripped hu ho (by rw [hcfg]; exact hw)
    rw [hep,hcfg,← hnow] at hhalf
    rw [show ({ t with now := t.now+config.openNs } : BreakerSystem ℕ).handle = t.handle from rfl,
      hhalf] at hopened
    contradiction
  · exact fun hD as s ha hz h => openingLaw_of_books (books_exec hk ha hz h) hD

/-- The default breaker of a remote deployment keeps the opening law on the ten timeouts
that open it. -/
theorem openingLaw_default : 1 ≤ ({} : CircuitBreakerConfig).failureThreshold.toNat ∧
    ∃ s : BreakerSystem ℕ, exec step (init .openAi {} 0) (trip {}) = some s ∧
      s.handle.state s.now = .opened ∧ OpeningLaw {} s (ledger {} 0 (trip {})) := by
  obtain ⟨s,t,hs,hst,-,hnow,-,hu,hcfg,hep,ho⟩ := exec_trip .openAi {} 0
  have htrip : exec step (init .openAi {} 0) (trip {}) = some t := by
    rw [trip_eq]
    exact exec_snoc_iff.mpr ⟨s,hs,hst⟩
  have hk : 1 ≤ ({} : CircuitBreakerConfig).failureThreshold.toNat := by decide
  have hlaw := (openingLaw_iff .openAi 0 hk).mpr (.inl (by decide)) _ t
    (fun a ha => unattended_of_mem_trip ha) (recordedOffZero_trip htrip) htrip
  refine ⟨hk,t,htrip,?_,hlaw⟩
  rw [CircuitBreakerHandle.state_eq_opened_iff (hu.forcedOpen _),CircuitBreakerHandle.elapsedNs,hnow,
    hep,ho,hcfg]
  decide

/-- An open period of 18 446 744 073 710 milliseconds, just past 2^64 nanoseconds. -/
def longConfig : CircuitBreakerConfig :=
  { failureThreshold := 1, openDuration := Duration.fromMillis 18446744073710 }

def longRun : List (BreakerAction ℕ) :=
  [.tick 1,.start 0 0,.finish 0 (.error (.timeout 0)),.tick 448384]

/-- The cast cuts that period down to 448 384 nanoseconds: one counted failure opens the
circuit at nanosecond one, and a check at nanosecond 448 385 already passes. -/
theorem openingLaw_fails_past_word : ∃ s : BreakerSystem ℕ,
    exec step (init .openAi longConfig 0) longRun = some s ∧ (∀ a ∈ longRun, Unattended a) ∧
    Throughout step RecordedOffZero (init .openAi longConfig 0) longRun ∧
    (ledger longConfig 0 longRun).trippedAt = some 1 ∧ s.now = 448385 ∧
    s.now < 1+longConfig.openDuration ∧ s.handle.check s.now 0 = .ok () ∧
    ¬ OpeningLaw longConfig s (ledger longConfig 0 longRun) := by
  have hun : ∀ a ∈ longRun, Unattended a := by
    intro a ha d
    simp only [longRun,List.mem_cons,List.not_mem_nil,or_false] at ha
    rcases ha with rfl | rfl | rfl | rfl <;> simp
  refine ⟨_,rfl,hun,?_,rfl,rfl,by decide,rfl,fun h => ?_⟩
  · refine ⟨fun _ _ he => by simp at he,fun s hs => ⟨fun _ _ he => by simp at he,fun t ht => ?_⟩⟩
    obtain rfl := Option.some.inj hs
    obtain rfl := Option.some.inj ht
    refine ⟨fun _ _ _ _ => by decide,fun u hu => ?_⟩
    obtain rfl := Option.some.inj hu
    exact ⟨fun _ _ he => by simp at he,fun _ _ => trivial⟩
  · obtain ⟨t,ht,-,hr⟩ := h.refused (by decide)
    obtain rfl : 1 = t := Option.some.inj ht
    have hst := (hr 448385 (by decide) (by decide)).1
    exact absurd hst (by decide)

end BreakerSystem
end RakkaInference
