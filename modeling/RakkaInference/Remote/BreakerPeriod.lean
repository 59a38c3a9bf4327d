import RakkaInference.Remote.BreakerRuns

/-! The open period of the circuit breaker over whole runs: how long the circuit stays
open, what closes it, and what the failure of a half-open probe does to it. -/
namespace RakkaInference
open Machine

namespace BreakerSystem
variable {ι : Type*} [DecidableEq ι] {s t : BreakerSystem ι} {a : BreakerAction ι}
  {config : CircuitBreakerConfig} {epoch : ℕ} {provider : ProviderKind}

/-- A success that is recorded while the circuit is not closed belongs to a probe: a call
that the check let through in the half-open state since the circuit last opened. -/
def ClosedByProbe (s : BreakerSystem ι) (a : BreakerAction ι) : Prop :=
  ∀ r v, a = .finish r (.ok v) → s.handle.state s.now ≠ .closed →
    ∃ adm, s.admitted r = some adm ∧ adm.state = .halfOpen ∧ adm.opening = s.openings

/-- The circuit is not closed before its open period is over. -/
def StaysOpen (s : BreakerSystem ι) : Prop :=
  0 < s.openings → ∀ T, s.now ≤ T → T < s.lastOpening+s.handle.config.openDuration →
    s.handle.state T ≠ .closed

/-- Only a probe's success takes the circuit back to closed. -/
def ReturnsByProbe (s : BreakerSystem ι) (a : BreakerAction ι) : Prop :=
  ∀ t, step s a = some t → s.handle.state s.now ≠ .closed → t.handle.state t.now = .closed →
    ∃ r v adm, a = .finish r (.ok v) ∧ s.admitted r = some adm ∧ adm.state = .halfOpen ∧
      adm.opening = s.openings

/-- Calls admitted half-open since the last opening have seen the open period go by. -/
def ProbesAged (s : BreakerSystem ι) : Prop :=
  ∀ r adm, s.admitted r = some adm → adm.opening ≤ s.openings ∧
    (adm.state = .halfOpen → adm.opening = s.openings →
      s.lastOpening+s.handle.config.openNs ≤ s.now)

/-- A closed circuit that has been open before was open for its whole period. -/
def HeldOpen (s : BreakerSystem ι) : Prop :=
  0 < s.openings → s.handle.openedAtNs = 0 → s.lastOpening+s.handle.config.openNs ≤ s.now

omit [DecidableEq ι] in
/-- The half-open state is only seen once the open period has gone by. -/
theorem lastOpening_add_le_of_halfOpen (hs : Sound config epoch s)
    (hh : s.handle.state s.now = .halfOpen) :
    s.lastOpening+s.handle.config.openNs ≤ s.now := by
  obtain ⟨ho,hle⟩ := (CircuitBreakerHandle.state_eq_halfOpen_iff (hs.unforced.forcedOpen _)).mp hh
  obtain ⟨-,he,hl,heq⟩ := hs.opened ho
  have hsub : s.handle.elapsedNs s.now-s.handle.elapsedNs s.lastOpening ≤
      (s.now-s.handle.epoch)-(s.lastOpening-s.handle.epoch) := asU64_sub_le (by omega)
  have hep := hs.epoch_eq
  rw [heq] at hle
  omega

theorem probesAged_step (hs : Sound config epoch s) (hp : ProbesAged s)
    (h : step s a = some t) : ProbesAged t := by
  cases move_of_step h with
  | tick ns =>
    intro q adm hq
    obtain ⟨h1,h2⟩ := hp q adm hq
    exact ⟨h1,fun hst heq => Nat.le_add_right_of_le (h2 hst heq)⟩
  | refused hr hst => exact hp
  | admitted hr hst =>
    intro q adm hq
    simp only [setAdmitted,Function.update_apply] at hq
    split at hq
    · obtain rfl := Option.some.inj hq
      exact ⟨le_rfl,fun hst _ => lastOpening_add_le_of_halfOpen (s := s) hs hst⟩
    · exact hp q adm hq
  | @finish r f adm t hr hnow hh hadm hopen =>
    have hc : t.handle.config = s.handle.config := by
      rw [hh]
      exact (s.handle.recordOutcome_frame s.now f).1
    intro q adm' hq
    rw [hadm,Function.update_apply] at hq
    split at hq
    · contradiction
    · obtain ⟨h1,h2⟩ := hp q adm' hq
      rcases hopen with ⟨-,hn,-⟩ | ⟨-,hn,hl⟩
      · exact ⟨by omega,fun _ heq => by omega⟩
      · rw [hn,hl,hnow,hc]
        exact ⟨h1,h2⟩
  | abandon hr =>
    intro q adm' hq
    simp only [setAdmitted,Function.update_apply] at hq
    split at hq
    · contradiction
    · exact hp q adm' hq
  | forceOpen d =>
    intro q adm hq
    obtain ⟨hcfg,-⟩ := s.handle.handleForceOpen_frame s.now d
    change _ ∧ (_ → _ → s.lastOpening+(s.handle.handleForceOpen s.now d).config.openNs ≤ s.now)
    rw [hcfg]
    exact hp q adm hq

theorem heldOpen_step (hs : Sound config epoch s) (hp : ProbesAged s) (hh : HeldOpen s)
    (hc : ClosedByProbe s a) (h : step s a = some t) : HeldOpen t := by
  rcases handle_cases h with ⟨he,hn,hl,hle⟩ | ⟨r,f,rfl,hnow,hrec,hopen⟩ | ⟨d,-,rfl⟩
  · intro ho hz
    rw [hn] at ho
    rw [he] at hz
    rw [hl,he]
    exact (hh ho hz).trans hle
  · have hcfg : t.handle.config = s.handle.config := by
      rw [hrec]
      exact (s.handle.recordOutcome_frame s.now f).1
    intro ho hz
    rcases hopen with ⟨hb,-,-⟩ | ⟨-,hn,hl⟩
    · exact absurd hz (opens_eq_true_iff.mp hb).2
    rw [hn] at ho
    rw [hl,hnow,hcfg]
    by_cases hso : s.handle.openedAtNs = 0
    · exact hh ho hso
    · rcases recordOutcome_opens s.handle s.now f with ⟨⟨v,rfl⟩,-⟩ | ⟨-,hz',-⟩ | ⟨-,hr⟩
      · have hst : s.handle.state s.now ≠ .closed := fun he =>
          hso ((CircuitBreakerHandle.state_eq_closed_iff (hs.unforced.forcedOpen _)).mp he)
        obtain ⟨adm',ha,hhalf,hgen⟩ := hc r v rfl hst
        exact (hp r adm' ha).2 hhalf hgen
      · exact absurd hz' hso
      · exact absurd (hr.symm.trans (by rw [← hrec,hz])) hso
  · obtain ⟨hcfg,-,-,hopened⟩ := s.handle.handleForceOpen_frame s.now d
    intro ho hz
    change (s.handle.handleForceOpen s.now d).openedAtNs = 0 at hz
    change s.lastOpening+(s.handle.handleForceOpen s.now d).config.openNs ≤ s.now
    rw [hopened] at hz
    rw [hcfg]
    exact hh ho hz

theorem returnsByProbe_step (hs : Sound config epoch s) (ha : Unattended a)
    (hc : ClosedByProbe s a) : ReturnsByProbe s a := by
  intro t h hst hcl
  have ht := sound_step hs ha h
  have hso : s.handle.openedAtNs ≠ 0 := fun hz =>
    hst ((CircuitBreakerHandle.state_eq_closed_iff (hs.unforced.forcedOpen _)).mpr hz)
  have hto := (CircuitBreakerHandle.state_eq_closed_iff (ht.unforced.forcedOpen _)).mp hcl
  rcases handle_cases h with hq | ⟨r,f,rfl,-,hrec,-⟩ | ⟨d,-,rfl⟩
  · rw [hq.handle_eq] at hto
    exact absurd hto hso
  · rcases recordOutcome_opens s.handle s.now f with ⟨⟨v,rfl⟩,-⟩ | ⟨-,hz',-⟩ | ⟨-,hr⟩
    · obtain ⟨adm',had,hhalf,hgen⟩ := hc r v rfl hst
      exact ⟨r,v,adm',rfl,had,hhalf,hgen⟩
    · exact absurd hz' hso
    · exact absurd (hr.symm.trans (by rw [← hrec,hto])) hso
  · exact absurd ((s.handle.handleForceOpen_frame s.now d).2.2.2.symm.trans hto) hso

/-- The run stays open for its whole period after each opening, and afterwards closes only
through a probe. -/
def OpenPeriodLaw (s : BreakerSystem ι) (as : List (BreakerAction ι)) : Prop :=
  Always step StaysOpen s as ∧ Throughout step ReturnsByProbe s as

/-- With an open period that fits the clock's word, a run keeps the law exactly when every
success recorded while the circuit is not closed is a probe's. -/
theorem openPeriodLaw_iff (hD : config.openDuration < 2^64) {as : List (BreakerAction ι)}
    (ha : ∀ a ∈ as, Unattended a) (h : exec step (init provider config epoch) as = some t) :
    OpenPeriodLaw (init provider config epoch) as ↔
      Throughout step ClosedByProbe (init provider config epoch) as := by
  have hun : Throughout step (fun _ a => Unattended a) (init provider config epoch) as :=
    throughout_of_forall (fun _ => ha) _
  constructor
  · rintro ⟨-,hret⟩
    refine throughout_of_invariant (I := Sound config epoch)
      (fun s a t hs hP hstep => sound_step hs hP.1 hstep) ?_ sound_init (hun.and hret) h
    rintro s a t hs ⟨hat,hr⟩ hstep r v rfl hst
    have ht := sound_step hs hat hstep
    have hcl : t.handle.state t.now = .closed := by
      rw [CircuitBreakerHandle.state_eq_closed_iff (ht.unforced.forcedOpen _)]
      have hrec := handle_of_finish hstep
      rw [hrec]
      rfl
    obtain ⟨q,w,adm,he,had,hhalf,hgen⟩ := hr t hstep hst hcl
    cases he
    exact ⟨adm,had,hhalf,hgen⟩
  · intro hc
    constructor
    · have hinv : Always step (fun s => Sound config epoch s ∧ ProbesAged s ∧ HeldOpen s)
          (init provider config epoch) as := by
        refine always_of_invariant ?_ ?_ (hun.and hc)
        · rintro s a t ⟨hs,hp,hh⟩ ⟨hat,hcl⟩ hstep
          exact ⟨sound_step hs hat hstep,probesAged_step hs hp hstep,
            heldOpen_step hs hp hh hcl hstep⟩
        · exact ⟨sound_init,fun _ _ hr => by simp [init] at hr,fun ho => by simp [init] at ho⟩
      intro pre u hpre hu ho T hT hlt hcl
      obtain ⟨hs,-,hh⟩ := hinv pre u hpre hu
      have hz := (CircuitBreakerHandle.state_eq_closed_iff (hs.unforced.forcedOpen _)).mp hcl
      have hle := hh ho hz
      rw [CircuitBreakerConfig.openNs,hs.config_eq,asU64_of_lt hD] at hle
      rw [hs.config_eq] at hlt
      omega
    · exact throughout_of_invariant (fun s a t hs hP hstep => sound_step hs hP.1 hstep)
        (fun s a t hs hP _ => returnsByProbe_step hs hP.1 hP.2) sound_init (hun.and hc) h

/-- A breaker that opens on the first counted failure, for ten nanoseconds. -/
def hairTrigger : CircuitBreakerConfig := { failureThreshold := 1, openDuration := 10 }

def probeRun : List (BreakerAction ℕ) :=
  [.tick 1,.start 0 0,.finish 0 (.error (.timeout 0)),.tick 10,.start 1 0,.finish 1 (.ok ())]

/-- A run whose only success is that of a probe keeps the law. -/
theorem openPeriodLaw_probeRun : hairTrigger.openDuration < 2^64 ∧
    OpenPeriodLaw (init .openAi hairTrigger 0) probeRun := by
  have hun : ∀ a ∈ probeRun, Unattended a := by
    intro a ha d
    simp only [probeRun,List.mem_cons,List.not_mem_nil,or_false] at ha
    rcases ha with rfl | rfl | rfl | rfl | rfl | rfl <;> simp
  refine ⟨by decide,(openPeriodLaw_iff (by decide) hun rfl).mpr ?_⟩
  refine ⟨fun _ _ he => by simp at he,fun s₁ h₁ => ⟨fun _ _ he => by simp at he,fun s₂ h₂ => ?_⟩⟩
  obtain rfl := Option.some.inj h₁
  obtain rfl := Option.some.inj h₂
  refine ⟨fun _ _ he => by simp at he,fun s₃ h₃ => ⟨fun _ _ he => by simp at he,fun s₄ h₄ => ?_⟩⟩
  obtain rfl := Option.some.inj h₃
  obtain rfl := Option.some.inj h₄
  refine ⟨fun _ _ he => by simp at he,fun s₅ h₅ => ?_⟩
  obtain rfl := Option.some.inj h₅
  refine ⟨fun r v he _ => ?_,fun _ _ => trivial⟩
  cases he
  exact ⟨⟨.halfOpen,1⟩,rfl,rfl,rfl⟩

def lateRun : List (BreakerAction ℕ) :=
  [.tick 1,.start 0 0,.start 1 0,.finish 1 (.error (.timeout 0)),.finish 0 (.ok ())]

/-- Call 0 is admitted while the circuit is closed, call 1's failure opens it at nanosecond
one, and the late success of call 0 closes it again within the open period. -/
theorem openPeriodLaw_fails_late_success : ∃ s t : BreakerSystem ℕ,
    exec step (init .openAi hairTrigger 0) (lateRun.take 4) = some s ∧
    s.handle.state s.now = .opened ∧ s.lastOpening = 1 ∧ s.admitted 0 = some ⟨.closed,0⟩ ∧
    step s (.finish 0 (.ok ())) = some t ∧ t.now < s.lastOpening+hairTrigger.openDuration ∧
    t.handle.state t.now = .closed ∧ ¬ OpenPeriodLaw (init .openAi hairTrigger 0) lateRun := by
  refine ⟨_,_,rfl,rfl,rfl,rfl,rfl,by decide,rfl,fun h => ?_⟩
  exact h.1 lateRun _ List.prefix_rfl rfl (by decide) 1 (by decide) (by decide) rfl

/-- Nothing but the passage of time and outcomes other than a success. -/
def Unsuccessful (a : BreakerAction ι) : Prop := Unattended a ∧ ∀ r v, a ≠ .finish r (.ok v)

/-- An open circuit keeps its opening time until a success is recorded. -/
theorem handle_step_of_unsuccessful (ho : s.handle.openedAtNs ≠ 0) (ha : Unsuccessful a)
    (h : step s a = some t) :
    t.handle.openedAtNs = s.handle.openedAtNs ∧ t.handle.config = s.handle.config ∧
    t.handle.epoch = s.handle.epoch ∧ t.handle.provider = s.handle.provider ∧
    t.handle.forcedOpenUntil = s.handle.forcedOpenUntil ∧ s.now ≤ t.now := by
  rcases handle_cases h with ⟨he,-,-,hle⟩ | ⟨r,f,rfl,hnow,hrec,-⟩ | ⟨d,rfl,-⟩
  · rw [he]
    exact ⟨rfl,rfl,rfl,rfl,rfl,hle⟩
  · obtain ⟨h1,h2,h3,h4⟩ := s.handle.recordOutcome_frame s.now f
    have h5 := CircuitBreakerHandle.recordOutcome_openedAtNs_of_ne_zero ho s.now
      (f := f) (fun v hv => ha.2 r v (by rw [hv]))
    rw [hrec]
    exact ⟨h5,h1,h2,h3,h4,hnow.ge⟩
  · exact absurd rfl (ha.1 d)

/-- The circuit refuses every check of a whole open period from now on. -/
def RefusesForPeriod (s : BreakerSystem ι) : Prop :=
  ∀ T, s.now ≤ T → T < s.now+s.handle.config.openDuration → ∀ utcMs, ∃ o r,
    s.handle.check T utcMs = .error (.circuitOpen s.handle.provider o r)

omit [DecidableEq ι] in
/-- Refusing for a whole period from a half-open state would need the clock's word to have
wrapped since, because a recorded failure leaves the opening time where it was. -/
theorem refusesForPeriod_iff (he : s.handle.epoch ≤ s.now) (hf : s.handle.forcedOpen s.now = false)
    (ho : s.handle.openedAtNs ≠ 0)
    (hw : 0 < s.handle.config.openNs → s.handle.openedAtNs+s.handle.config.openNs < 2^64) :
    RefusesForPeriod s ↔ s.handle.config.openDuration = 0 ∨
      s.handle.config.openDuration < 2^64 ∧ s.handle.elapsedNs s.now ≤ s.handle.openedAtNs := by
  have hk : ∀ k, s.handle.elapsedNs (s.now+k) = asU64 (s.now-s.handle.epoch+k) := by
    intro k
    rw [CircuitBreakerHandle.elapsedNs,show s.now+k-s.handle.epoch = s.now-s.handle.epoch+k by omega]
  have hstate : ∀ k, s.handle.state (s.now+k) = .opened ↔
      asU64 (s.now-s.handle.epoch+k)-s.handle.openedAtNs < s.handle.config.openNs := by
    intro k
    rw [CircuitBreakerHandle.state_eq_opened_iff
      (CircuitBreakerHandle.forcedOpen_eq_false_of_le hf (Nat.le_add_right _ k)),hk k]
    exact and_iff_right ho
  have hrefuse : RefusesForPeriod s ↔ ∀ k < s.handle.config.openDuration,
      asU64 (s.now-s.handle.epoch+k)-s.handle.openedAtNs < s.handle.config.openNs := by
    constructor
    · intro h k hlt
      rw [← hstate]
      obtain ⟨o,r,hc⟩ := h (s.now+k) (Nat.le_add_right _ _) (by omega) 0
      by_contra hn
      rw [CircuitBreakerHandle.check_eq_ok_iff.mpr hn] at hc
      contradiction
    · intro h T hT hlt utcMs
      obtain ⟨k,rfl⟩ := Nat.exists_eq_add_of_le hT
      have hs := (hstate k).mpr (h k (by omega))
      exact CircuitBreakerHandle.check_of_opened hs utcMs
  rw [hrefuse]
  exact asU64_window_iff hw

/-- After the failure of a call that was admitted half-open, the breaker refuses for a new
open period only if that period is empty, or the 64-bit nanosecond clock has wrapped to at
most the old opening time: the failure itself changes nothing. -/
theorem refusesForPeriod_after_probe_iff {as bs : List (BreakerAction ι)} {s₁ s₂ s₃ : BreakerSystem ι}
    {r : ι} {utcMs : ℤ} {e : InferenceError}
    (h : exec step (init provider config epoch) as = some s)
    (hs : s.handle.state s.now = .halfOpen) (h₁ : step s (.start r utcMs) = some s₁)
    (hb : ∀ b ∈ bs, Unsuccessful b) (h₂ : exec step s₁ bs = some s₂)
    (h₃ : step s₂ (.finish r (.error e)) = some s₃) :
    RefusesForPeriod s₃ ↔ config.openDuration = 0 ∨
      config.openDuration < 2^64 ∧ asU64 (s₃.now-epoch) ≤ s.handle.openedAtNs := by
  have hf : s.handle.forcedOpen s.now = false :=
    CircuitBreakerHandle.forcedOpen_of_state (by rw [hs]; decide)
  obtain ⟨ho,hle⟩ := (CircuitBreakerHandle.state_eq_halfOpen_iff hf).mp hs
  have hframe := framed_exec h
  -- from the admission to the failure nothing moves the opening time
  have hcalls : ∀ b ∈ BreakerAction.start r utcMs::bs++[.finish r (.error e)], Unsuccessful b := by
    intro b hmem
    rcases List.mem_append.mp hmem with hmem | hmem
    · rcases List.mem_cons.mp hmem with rfl | hmem
      · exact ⟨fun _ => by simp,fun _ _ => by simp⟩
      · exact hb b hmem
    · obtain rfl := List.mem_singleton.mp hmem
      exact ⟨fun _ => by simp,fun _ _ => by simp⟩
  have hrun : exec step s (.start r utcMs::bs++[.finish r (.error e)]) = some s₃ :=
    exec_snoc_iff.mpr ⟨s₂,exec_cons_iff.mpr ⟨s₁,h₁,h₂⟩,h₃⟩
  obtain ⟨hopen,hcfg,hep,hfo,hnow⟩ : s₃.handle.openedAtNs = s.handle.openedAtNs ∧
      s₃.handle.config = s.handle.config ∧ s₃.handle.epoch = s.handle.epoch ∧
      s₃.handle.forcedOpenUntil = s.handle.forcedOpenUntil ∧ s.now ≤ s₃.now := by
    refine exec_invariant (I := fun u => u.handle.openedAtNs = s.handle.openedAtNs ∧
      u.handle.config = s.handle.config ∧ u.handle.epoch = s.handle.epoch ∧
      u.handle.forcedOpenUntil = s.handle.forcedOpenUntil ∧ s.now ≤ u.now) ?_
      ⟨rfl,rfl,rfl,rfl,le_rfl⟩ (throughout_of_forall (fun _ => hcalls) _) hrun
    rintro u b v ⟨k1,k2,k3,k4,k5⟩ hub hstep
    obtain ⟨m1,m2,m3,-,m4,m5⟩ := handle_step_of_unsuccessful (by rw [k1]; exact ho) hub hstep
    exact ⟨m1.trans k1,m2.trans k2,m3.trans k3,m4.trans k4,k5.trans m5⟩
  have hf₃ : s₃.handle.forcedOpen s₃.now = false := by
    refine CircuitBreakerHandle.forcedOpen_eq_false_of_le ?_ hnow
    simpa only [CircuitBreakerHandle.forcedOpen,hfo] using hf
  have hword := asU64_lt (s.now-s.handle.epoch)
  rw [refusesForPeriod_iff (by rw [hep,hframe.epoch_eq]; exact hframe.epoch_le.trans hnow) hf₃
    (by rw [hopen]; exact ho) ?_,CircuitBreakerHandle.elapsedNs,hcfg,hep,hopen,hframe.config_eq,
    hframe.epoch_eq]
  intro hpos
  rw [hcfg] at hpos
  rw [hopen,hcfg]
  change s.handle.config.openNs ≤ asU64 (s.now-s.handle.epoch)-s.handle.openedAtNs at hle
  omega

/-- The run up to the half-open state: one counted failure, and the open period. -/
def halfOpenRun : List (BreakerAction ℕ) :=
  [.tick 1,.start 0 0,.finish 0 (.error (.timeout 0)),.tick 10]

/-- A probe that fails at nanosecond twelve leaves the circuit half-open: the check at that
very nanosecond passes. -/
theorem refusesForPeriod_fails_after_probe : ∃ s s₁ s₂ s₃ : BreakerSystem ℕ,
    exec step (init .openAi hairTrigger 0) halfOpenRun = some s ∧
    s.handle.state s.now = .halfOpen ∧ step s (.start 1 0) = some s₁ ∧
    exec step s₁ [.tick 1] = some s₂ ∧ step s₂ (.finish 1 (.error (.timeout 0))) = some s₃ ∧
    InferenceError.countsAsCircuitFailure (.timeout 0) ∧ s₃.now = 12 ∧
    s₃.handle.check 12 0 = .ok () ∧ ¬ RefusesForPeriod s₃ := by
  refine ⟨_,_,_,_,rfl,rfl,rfl,rfl,rfl,rfl,rfl,rfl,fun h => ?_⟩
  obtain ⟨o,r,hc⟩ := h 12 (by decide) (by decide) 0
  cases hc

/-- A probe that is in flight until the nanosecond clock wraps: its failure finds the
circuit open again, and checks are refused for a whole period. -/
theorem refusesForPeriod_after_probe_wrapped : ∃ s s₁ s₂ s₃ : BreakerSystem ℕ,
    exec step (init .openAi hairTrigger 0) halfOpenRun = some s ∧
    s.handle.state s.now = .halfOpen ∧ step s (.start 1 0) = some s₁ ∧
    exec step s₁ [.tick (2^64-11)] = some s₂ ∧
    step s₂ (.finish 1 (.error (.timeout 0))) = some s₃ ∧ s₃.now = 2^64 ∧ RefusesForPeriod s₃ := by
  obtain ⟨s,s₁,s₂,s₃,h,hs,h₁,h₂,h₃,ho,hn⟩ : ∃ s s₁ s₂ s₃ : BreakerSystem ℕ,
      exec step (init .openAi hairTrigger 0) halfOpenRun = some s ∧
      s.handle.state s.now = .halfOpen ∧ step s (.start 1 0) = some s₁ ∧
      exec step s₁ [.tick (2^64-11)] = some s₂ ∧
      step s₂ (.finish 1 (.error (.timeout 0))) = some s₃ ∧ s.handle.openedAtNs = 1 ∧
      s₃.now = 2^64 := ⟨_,_,_,_,rfl,rfl,rfl,rfl,rfl,rfl,rfl⟩
  have hb : ∀ b ∈ [BreakerAction.tick (ι := ℕ) (2^64-11)], Unsuccessful b := by
    intro b hb
    obtain rfl := List.mem_singleton.mp hb
    exact ⟨fun _ => by simp,fun _ _ => by simp⟩
  refine ⟨s,s₁,s₂,s₃,h,hs,h₁,h₂,h₃,hn,?_⟩
  refine (refusesForPeriod_after_probe_iff h hs h₁ hb h₂ h₃).mpr (.inr ⟨by decide,?_⟩)
  rw [hn,ho]
  decide

end BreakerSystem
end RakkaInference
