import RakkaInference.Remote.BreakerOpening

/-! How many calls the half-open state lets through before the outcome of one of them is
known. The check reads the handle and writes nothing, so a call that has passed leaves no
trace that the next one could see. -/
namespace RakkaInference
open Machine

namespace BreakerSystem
variable {ι : Type*} [DecidableEq ι]

/-- The action is a call whose check passes. -/
def passes (s : BreakerSystem ι) : BreakerAction ι → Bool
  | .start r utcMs => (s.admitted r).isNone && (s.handle.check s.now utcMs).isOk
  | _ => false

/-- The number of calls of a run whose check passes. -/
def admissions : BreakerSystem ι → List (BreakerAction ι) → ℕ
  | _,[] => 0
  | s,a::as => (if passes s a then 1 else 0)+((step s a).map fun t => admissions t as).getD 0

/-- The action does not record the outcome of a call that was admitted half-open. -/
def AwaitsProbe (s : BreakerSystem ι) (a : BreakerAction ι) : Prop :=
  ∀ r f adm, a = .finish r f → s.admitted r = some adm → adm.state ≠ .halfOpen

/-- From each moment at which the circuit becomes half-open until the outcome of a call
admitted half-open is recorded, at most `half_open_max_probes` calls pass. -/
def ProbeLimit (s₀ : BreakerSystem ι) (maxProbes : ℕ) : Prop :=
  ∀ as a bs s t u, exec step s₀ as = some s → s.handle.state s.now ≠ .halfOpen →
    step s a = some t → t.handle.state t.now = .halfOpen → Throughout step AwaitsProbe t bs →
    exec step t bs = some u → admissions t bs ≤ maxProbes

/-- Calls `k`, …, `k+n-1`, all started at one moment. -/
def probes (k n : ℕ) : List (BreakerAction ℕ) := (List.range' k n).map fun r => .start r 0

/-- In the half-open state every one of them passes. -/
theorem exec_probes {s : BreakerSystem ℕ} (hs : s.handle.state s.now = .halfOpen) (n : ℕ) {k : ℕ}
    (hr : ∀ r, k ≤ r → s.admitted r = none) :
    (∃ t, exec step s (probes k n) = some t) ∧ admissions s (probes k n) = n := by
  induction n generalizing s k with
  | zero => exact ⟨⟨s,rfl⟩,rfl⟩
  | succ n ih =>
    have hc : s.handle.check s.now 0 = .ok () :=
      CircuitBreakerHandle.check_eq_ok_iff.mpr (by rw [hs]; decide)
    have hone : step s (.start k 0) = some (s.setAdmitted k (some ⟨.halfOpen,s.openings⟩)) := by
      simp only [step,hr k le_rfl,hc,hs]
    have hpass : passes s (.start k 0) = true := by
      simp only [passes,hr k le_rfl,hc]
      rfl
    have hrest : ∀ r, k+1 ≤ r →
        (s.setAdmitted k (some ⟨.halfOpen,s.openings⟩)).admitted r = none := by
      intro r hle
      have hne : r ≠ k := by omega
      simp only [setAdmitted,Function.update_of_ne hne]
      exact hr r (by omega)
    obtain ⟨⟨t,ht⟩,hn⟩ := ih (s := s.setAdmitted k (some ⟨.halfOpen,s.openings⟩)) hs hrest
    refine ⟨⟨t,exec_cons_iff.mpr ⟨_,hone,ht⟩⟩,?_⟩
    change (if passes s (.start k 0) then 1 else 0)+
      ((step s (.start k 0)).map fun t => admissions t (probes (k+1) n)).getD 0 = n+1
    rw [hpass,hone,Option.map_some,Option.getD_some,hn,if_pos rfl,Nat.add_comm]

theorem awaitsProbe_probes (s : BreakerSystem ℕ) (k n : ℕ) :
    Throughout step AwaitsProbe s (probes k n) := by
  refine throughout_of_forall (fun _ a ha r f adm he => ?_) s
  obtain ⟨q,-,rfl⟩ := List.mem_map.mp ha
  simp at he

omit [DecidableEq ι] in
/-- An open period of the largest word never ends, because no two readings of the clock
are that far apart. -/
theorem state_ne_halfOpen {s : BreakerSystem ι} (hw : s.handle.config.openNs = 2^64-1) :
    s.handle.state s.now ≠ .halfOpen := by
  intro hs
  have hf : s.handle.forcedOpen s.now = false :=
    CircuitBreakerHandle.forcedOpen_of_state (by rw [hs]; decide)
  obtain ⟨ho,hle⟩ := (CircuitBreakerHandle.state_eq_halfOpen_iff hf).mp hs
  have hlt : s.handle.elapsedNs s.now < 2^64 := asU64_lt _
  omega

/-- A fresh breaker can be driven into the half-open state with no call in flight. -/
theorem exists_halfOpen (provider : ProviderKind) (config : CircuitBreakerConfig) (epoch : ℕ)
    (hw : config.openNs < 2^64-1) : ∃ (as : List (BreakerAction ℕ)) (a : BreakerAction ℕ) (s t : BreakerSystem ℕ),
      exec step (init provider config epoch) as = some s ∧ s.handle.state s.now ≠ .halfOpen ∧
      step s a = some t ∧ t.handle.state t.now = .halfOpen ∧ t.admitted = fun _ => none := by
  obtain ⟨s,t,hs,hst,hcl,hnow,hadm,hu,hcfg,hep,ho⟩ := exec_trip provider config epoch
  have hhalf := state_tripped hu ho (by rw [hcfg]; exact hw)
  rw [hep,hcfg,← hnow] at hhalf
  by_cases hz : config.openNs = 0
  · -- an empty period is over at the failure that opens the circuit
    refine ⟨_,_,s,t,hs,by rw [hcl]; decide,hst,?_,hadm⟩
    rwa [hz] at hhalf
  · refine ⟨_,.tick config.openNs,t,{ t with now := t.now+config.openNs },
      exec_snoc_iff.mpr ⟨s,hs,hst⟩,?_,rfl,hhalf,hadm⟩
    intro hh
    obtain ⟨-,hle⟩ := (CircuitBreakerHandle.state_eq_halfOpen_iff (hu.forcedOpen _)).mp hh
    rw [hcfg,CircuitBreakerHandle.elapsedNs,hnow,hep,ho,Nat.add_sub_cancel_left] at hle
    exact hz (by simpa [asU64] using hle)

/-- The probe limit is kept exactly by the breakers that never become half-open: from any
other half-open state one call more than the limit passes. -/
theorem probeLimit_iff (provider : ProviderKind) (config : CircuitBreakerConfig) (epoch : ℕ) :
    ProbeLimit (init provider config epoch : BreakerSystem ℕ) config.halfOpenMaxProbes.toNat ↔
      config.openNs = 2^64-1 := by
  constructor
  · intro h
    by_contra hne
    have hw : config.openNs < 2^64-1 := by
      have hlt := asU64_lt config.openDuration
      unfold CircuitBreakerConfig.openNs at hne ⊢
      omega
    obtain ⟨as,a,s,t,has,hs,ha,ht,hadm⟩ := exists_halfOpen provider config epoch hw
    obtain ⟨⟨u,hu⟩,hn⟩ := exec_probes ht (config.halfOpenMaxProbes.toNat+1) (k := 0)
      (fun r _ => by rw [hadm])
    have hle := h as a _ s t u has hs ha ht (awaitsProbe_probes t 0 _) hu
    omega
  · intro hw as a bs s t u has _ ha ht _ _
    have hframe := framed_exec (exec_snoc_iff.mpr ⟨s,has,ha⟩)
    exact absurd ht (state_ne_halfOpen (by rw [hframe.config_eq]; exact hw))

/-- The default limit is one probe, and two calls pass at nanosecond eleven. -/
theorem probeLimit_fails_two_calls : ∃ (s t u : BreakerSystem ℕ),
    exec step (init .openAi { failureThreshold := 1, openDuration := 10 } 0)
      [.tick 1,.start 0 0,.finish 0 (.error (.timeout 0))] = some s ∧
    s.handle.state s.now = .opened ∧ step s (.tick 10) = some t ∧
    t.handle.state t.now = .halfOpen ∧ t.handle.config.halfOpenMaxProbes = 1 ∧
    exec step t [.start 1 0,.start 2 0] = some u ∧ admissions t [.start 1 0,.start 2 0] = 2 ∧
    ¬ ProbeLimit (init .openAi { failureThreshold := 1, openDuration := 10 } 0 : BreakerSystem ℕ) 1 := by
  refine ⟨_,_,_,rfl,rfl,rfl,rfl,rfl,rfl,rfl,fun h => ?_⟩
  have hle := h [.tick 1,.start 0 0,.finish 0 (.error (.timeout 0))] (.tick 10) (probes 1 2) _ _ _
    rfl (by decide) rfl rfl (awaitsProbe_probes _ 1 2) rfl
  exact absurd hle (by decide)

end BreakerSystem
end RakkaInference
