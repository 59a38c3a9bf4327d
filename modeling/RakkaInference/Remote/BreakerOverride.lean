import Mathlib.Data.List.Chain
import RakkaInference.Remote.BreakerRuns

/-! The breaker as a history of calls with the times at which they were handled, and what
an operator's override leaves behind in it. -/
namespace RakkaInference
open Machine

/-- A call that writes to the breaker. -/
inductive BreakerCall
  | recordSuccess
  | recordFailure
  /-- The future of a `run` call returns. -/
  | complete (outcome : Except InferenceError Unit)
  | forceOpen (duration : ℕ)

def BreakerCall.forces : BreakerCall → Bool
  | .forceOpen _ => true
  | _ => false

namespace CircuitBreakerHandle

def call (h : CircuitBreakerHandle) (now : ℕ) : BreakerCall → CircuitBreakerHandle
  | .recordSuccess => h.recordSuccess
  | .recordFailure => h.recordFailure now
  | .complete outcome => h.recordOutcome now outcome
  | .forceOpen duration => h.handleForceOpen now duration

def replay (h : CircuitBreakerHandle) (calls : List (ℕ × BreakerCall)) : CircuitBreakerHandle :=
  calls.foldl (fun h c => h.call c.1 c.2) h

/-- The same breaker without its override. -/
def unforce (h : CircuitBreakerHandle) : CircuitBreakerHandle := { h with forcedOpenUntil := none }

variable {h : CircuitBreakerHandle} {now : ℕ}

@[simp] theorem replay_nil (h : CircuitBreakerHandle) : h.replay [] = h := rfl

theorem replay_cons (h : CircuitBreakerHandle) (c : ℕ × BreakerCall) (calls : List (ℕ × BreakerCall)) :
    h.replay (c::calls) = (h.call c.1 c.2).replay calls := rfl

theorem replay_append (h : CircuitBreakerHandle) (calls calls' : List (ℕ × BreakerCall)) :
    h.replay (calls++calls') = (h.replay calls).replay calls' := List.foldl_append

/-- A failure is counted in the same way with and without an override. -/
theorem unforce_recordFailure (h : CircuitBreakerHandle) (now : ℕ) :
    (h.recordFailure now).unforce = h.unforce.recordFailure now := by
  by_cases hc : asU32 (h.failures+1) ≥ h.config.failureThreshold.toNat ∧ h.openedAtNs = 0
  · have hu : asU32 (h.unforce.failures+1) ≥ h.unforce.config.failureThreshold.toNat ∧
        h.unforce.openedAtNs = 0 := hc
    simp only [recordFailure,if_pos hc,if_pos hu]
    rfl
  · have hu : ¬ (asU32 (h.unforce.failures+1) ≥ h.unforce.config.failureThreshold.toNat ∧
        h.unforce.openedAtNs = 0) := hc
    simp only [recordFailure,if_neg hc,if_neg hu]
    rfl

/-- Calls other than overrides neither read nor write the override. -/
theorem unforce_call {c : BreakerCall} (hc : c.forces = false) :
    (h.call now c).unforce = h.unforce.call now c := by
  cases c with
  | recordSuccess => rfl
  | recordFailure => exact unforce_recordFailure h now
  | complete outcome =>
    cases outcome with
    | ok v => rfl
    | error e =>
      simp only [call,recordOutcome]
      split
      · exact unforce_recordFailure h now
      · rfl
  | forceOpen d => simp [BreakerCall.forces] at hc

theorem unforce_forceOpen (h : CircuitBreakerHandle) (now d : ℕ) :
    (h.call now (.forceOpen d)).unforce = h.unforce := by
  rw [call]
  obtain ⟨-,heq⟩ | ⟨-,heq⟩ := h.handleForceOpen_cases now d
  · rw [heq]
    rfl
  · rw [heq]

/-- A history leaves the counter and the opening time as the history without its overrides
does. -/
theorem unforce_replay (h : CircuitBreakerHandle) (calls : List (ℕ × BreakerCall)) :
    (h.replay calls).unforce = h.unforce.replay (calls.filter fun c => !c.2.forces) := by
  induction calls generalizing h with
  | nil => rfl
  | cons c calls ih =>
    rw [replay_cons,ih]
    cases hc : c.2.forces with
    | false =>
      rw [List.filter_cons_of_pos (by simp [hc]),replay_cons,unforce_call hc]
    | true =>
      rw [List.filter_cons_of_neg (by simp [hc])]
      obtain ⟨d,hd⟩ : ∃ d, c.2 = .forceOpen d := by
        cases hk : c.2 with
        | forceOpen d => exact ⟨d,rfl⟩
        | recordSuccess => simp [hk,BreakerCall.forces] at hc
        | recordFailure => simp [hk,BreakerCall.forces] at hc
        | complete outcome => simp [hk,BreakerCall.forces] at hc
      rw [hd,unforce_forceOpen]

theorem forcedOpenUntil_call {c : BreakerCall} (hc : c.forces = false) :
    (h.call now c).forcedOpenUntil = h.forcedOpenUntil := by
  cases c with
  | recordSuccess => rfl
  | recordFailure => exact (h.recordOutcome_frame now (.error (.timeout 0))).2.2.2
  | complete outcome => exact (h.recordOutcome_frame now outcome).2.2.2
  | forceOpen d => simp [BreakerCall.forces] at hc

theorem forcedOpenUntil_replay {calls : List (ℕ × BreakerCall)}
    (hc : ∀ c ∈ calls, c.2.forces = false) : (h.replay calls).forcedOpenUntil = h.forcedOpenUntil := by
  induction calls generalizing h with
  | nil => rfl
  | cons c calls ih =>
    rw [replay_cons,ih fun d hd => hc d (List.mem_cons_of_mem _ hd),
      forcedOpenUntil_call (hc c List.mem_cons_self)]

/-- The part of the handle that no call touches. -/
theorem frame_call (h : CircuitBreakerHandle) (now : ℕ) (c : BreakerCall) :
    (h.call now c).config = h.config ∧ (h.call now c).epoch = h.epoch ∧
    (h.call now c).provider = h.provider := by
  have hout : ∀ f, (h.recordOutcome now f).config = h.config ∧ (h.recordOutcome now f).epoch = h.epoch ∧
      (h.recordOutcome now f).provider = h.provider := by
    intro f
    obtain ⟨h1,h2,h3,-⟩ := h.recordOutcome_frame now f
    exact ⟨h1,h2,h3⟩
  cases c with
  | recordSuccess => exact ⟨rfl,rfl,rfl⟩
  | recordFailure => exact hout (.error (.timeout 0))
  | complete outcome => exact hout outcome
  | forceOpen d =>
    obtain ⟨h1,h2,h3,-⟩ := h.handleForceOpen_frame now d
    exact ⟨h1,h2,h3⟩

theorem frame_replay (h : CircuitBreakerHandle) (calls : List (ℕ × BreakerCall)) :
    (h.replay calls).config = h.config ∧ (h.replay calls).epoch = h.epoch ∧
    (h.replay calls).provider = h.provider := by
  induction calls generalizing h with
  | nil => exact ⟨rfl,rfl,rfl⟩
  | cons c calls ih =>
    obtain ⟨h1,h2,h3⟩ := ih (h.call c.1 c.2)
    obtain ⟨k1,k2,k3⟩ := h.frame_call c.1 c.2
    exact ⟨h1.trans k1,h2.trans k2,h3.trans k3⟩

/-- An override that is not in effect does not show. -/
theorem state_unforce (hf : h.forcedOpen now = false) : h.unforce.state now = h.state now := by
  have hu : h.unforce.forcedOpen now = false := rfl
  simp only [state,hf,hu]
  rfl

theorem check_unforce (hf : h.forcedOpen now = false) (utcMs : ℤ) :
    h.unforce.check now utcMs = h.check now utcMs := by
  unfold check
  rw [state_unforce hf]
  rfl

/-- Until it ends an override refuses every check, and from then on the breaker is in every respect the one on which
the same outcomes were recorded and no override was ever given. -/
structure OverrideLaw (provider : ProviderKind) (config : CircuitBreakerConfig) (epoch t d : ℕ)
    (before after : List (ℕ × BreakerCall)) : Prop where
  refused : ∀ T utcMs, T < Instant.limit → t ≤ T → T < t+d → ∃ o r,
    ((new provider config epoch).replay (before++(t,.forceOpen d)::after)).check T utcMs =
      .error (.circuitOpen provider o r)
  traceless : ∀ T, T < Instant.limit → t+d ≤ T →
    ((new provider config epoch).replay (before++(t,.forceOpen d)::after)).state T =
      ((new provider config epoch).replay ((before.filter fun c => !c.2.forces)++after)).state T ∧
    ∀ utcMs, ((new provider config epoch).replay (before++(t,.forceOpen d)::after)).check T utcMs =
      ((new provider config epoch).replay ((before.filter fun c => !c.2.forces)++after)).check T utcMs

theorem replay_forced (h : CircuitBreakerHandle) (before after : List (ℕ × BreakerCall)) (t d : ℕ) :
    h.replay (before++(t,.forceOpen d)::after) = ((h.replay before).handleForceOpen t d).replay after := by
  rw [replay_append,replay_cons]
  rfl

theorem override_law (provider : ProviderKind) (config : CircuitBreakerConfig) (epoch : ℕ) {t d : ℕ}
    (hdeadline : t+d < Instant.limit) (before : List (ℕ × BreakerCall)) {after : List (ℕ × BreakerCall)}
    (ha : ∀ c ∈ after, c.2.forces = false) : OverrideLaw provider config epoch t d before after := by
  have hforced : ((new provider config epoch).replay (before++(t,.forceOpen d)::after)).forcedOpenUntil =
      some (t+d) := by
    rw [replay_forced,forcedOpenUntil_replay ha]
    obtain ⟨-,heq⟩ | ⟨hge,-⟩ := ((new provider config epoch).replay before).handleForceOpen_cases t d
    · rw [heq]
    · exact absurd hdeadline (Nat.not_lt.mpr hge)
  have htwin : ((new provider config epoch).replay (before++(t,.forceOpen d)::after)).unforce =
      (new provider config epoch).replay ((before.filter fun c => !c.2.forces)++after) := by
    have hafter : after.filter (fun c => !c.2.forces) = after := by
      apply List.filter_eq_self.mpr
      intro c hc
      simp [ha c hc]
    have hforce : ((t,.forceOpen d)::after : List (ℕ × BreakerCall)).filter (fun c => !c.2.forces) =
        after := by
      rw [List.filter_cons_of_neg (by simp [BreakerCall.forces]),hafter]
    rw [unforce_replay,List.filter_append,hforce]
    rfl
  have hprovider : ((new provider config epoch).replay (before++(t,.forceOpen d)::after)).provider = provider :=
    (frame_replay _ _).2.2
  constructor
  case refused =>
    intro T utcMs _ _ hT
    have hin : ((new provider config epoch).replay (before++(t,.forceOpen d)::after)).forcedOpen T = true := by
      simp only [forcedOpen,hforced,decide_eq_true_eq]
      exact hT
    have hstate : ((new provider config epoch).replay (before++(t,.forceOpen d)::after)).state T = .opened :=
      if_pos hin
    obtain ⟨o,r,hcheck⟩ := check_of_opened hstate utcMs
    rw [hprovider] at hcheck
    exact ⟨o,r,hcheck⟩
  case traceless =>
    intro T _ hT
    have hout : ((new provider config epoch).replay (before++(t,.forceOpen d)::after)).forcedOpen T = false := by
      simp only [forcedOpen,hforced,decide_eq_false_iff_not]
      exact Nat.not_lt.mpr hT
    rw [← htwin]
    exact ⟨(state_unforce hout).symm,fun utcMs => (check_unforce hout utcMs).symm⟩

/-- A deadline that is set is a reading of the clock. -/
theorem deadline_lt_limit (calls : List (ℕ × BreakerCall)) (hd : ∀ u ∈ h.forcedOpenUntil, u < Instant.limit) :
    ∀ u ∈ (h.replay calls).forcedOpenUntil, u < Instant.limit := by
  induction calls generalizing h with
  | nil => exact hd
  | cons c calls ih =>
    apply ih
    obtain ⟨now,c⟩ := c
    cases hc : c.forces with
    | false =>
      rw [forcedOpenUntil_call hc]
      exact hd
    | true =>
      cases c with
      | forceOpen d =>
        obtain ⟨hlt,heq⟩ | ⟨-,heq⟩ := h.handleForceOpen_cases now d
        · intro u hu
          change u ∈ (h.handleForceOpen now d).forcedOpenUntil at hu
          rw [heq] at hu
          rwa [← Option.some.inj hu]
        · change ∀ u ∈ (h.handleForceOpen now d).forcedOpenUntil, u < Instant.limit
          rw [heq]
          exact hd
      | recordSuccess | recordFailure | complete outcome => simp [BreakerCall.forces] at hc

/-- An override whose deadline is no reading of the clock is lost, and a check can get through before it. -/
theorem not_override_law (provider : ProviderKind) (config : CircuitBreakerConfig) (epoch : ℕ) {t d : ℕ}
    (ht : t < Instant.limit) (hdeadline : Instant.limit ≤ t+d) (before : List (ℕ × BreakerCall)) :
    ¬OverrideLaw provider config epoch t d before [(t,.recordSuccess)] := by
  intro hlaw
  have hdeadlines : ∀ u ∈ ((new provider config epoch).replay before).forcedOpenUntil, u < Instant.limit :=
    deadline_lt_limit before nofun
  obtain ⟨hlt,-⟩ | ⟨-,hlost⟩ := ((new provider config epoch).replay before).handleForceOpen_cases t d
  · exact absurd hlt (Nat.not_lt.mpr hdeadline)
  -- when the overrides before it have run out
  obtain ⟨T,htT,hT,hout⟩ : ∃ T, t ≤ T ∧ T < Instant.limit ∧
      ((new provider config epoch).replay before).forcedOpen T = false := by
    unfold forcedOpen
    cases hu : ((new provider config epoch).replay before).forcedOpenUntil with
    | none => exact ⟨t,le_rfl,ht,rfl⟩
    | some u => exact ⟨max t u,le_max_left t u,max_lt ht (hdeadlines u hu),
      decide_eq_false (not_lt.mpr (le_max_right t u))⟩
  obtain ⟨o,r,hcheck⟩ := hlaw.refused T 0 hT htT (hT.trans_le hdeadline)
  rw [replay_forced,hlost] at hcheck
  have hout' : ((new provider config epoch).replay before).recordSuccess.forcedOpen T = false := hout
  have hclosed : (((new provider config epoch).replay before).replay [(t,.recordSuccess)]).state T = .closed :=
    (state_eq_closed_iff hout').mpr rfl
  rw [check_eq_ok_iff.mpr (by rw [hclosed]; exact nofun)] at hcheck
  exact nomatch hcheck

/-- The law holds of an override, whatever is recorded after it, exactly when its deadline is a reading of
the clock. -/
theorem override_leaves_no_trace_iff (provider : ProviderKind) (config : CircuitBreakerConfig) (epoch : ℕ) {t : ℕ}
    (d : ℕ) (ht : t < Instant.limit) (before : List (ℕ × BreakerCall)) :
    (∀ after, (∀ c ∈ after, c.2.forces = false) → OverrideLaw provider config epoch t d before after) ↔
      t+d < Instant.limit := by
  constructor
  · intro hlaw
    by_contra hdeadline
    exact not_override_law provider config epoch ht (Nat.le_of_not_lt hdeadline) before
      (hlaw [(t,.recordSuccess)] (by simp [BreakerCall.forces]))
  · exact fun hdeadline after ha => override_law provider config epoch hdeadline before ha

/-- The override in the middle of an open period, with an outcome recorded under it. -/
theorem override_leaves_no_trace_midway :
    OverrideLaw .openAi { failureThreshold := 1, openDuration := 4 } 0 2 10 [(1,.recordFailure)]
    [(5,.recordFailure)] ∧
    ((new .openAi { failureThreshold := 1, openDuration := 4 } 0).replay
      ([(1,.recordFailure)]++(2,.forceOpen 10)::[(5,.recordFailure)])).state 12 = .halfOpen := by
  have hlaw := (override_leaves_no_trace_iff .openAi { failureThreshold := 1, openDuration := 4 } 0 10
    (by decide : 2 < Instant.limit) [(1,.recordFailure)]).mpr (by decide) [(5,.recordFailure)] (by decide)
  exact ⟨hlaw,(hlaw.traceless 12 (by decide) (by decide)).1.trans rfl⟩

/-- The longest duration forces nothing open. -/
theorem override_lost_longest :
    ((new .openAi {} 0).replay [(0,.forceOpen (2^64*1000000000-1))]).check 0 0 = .ok () ∧
    ¬∀ after, (∀ c ∈ after, c.2.forces = false) → OverrideLaw .openAi {} 0 0 (2^64*1000000000-1) [] after := by
  constructor
  · rw [check_eq_ok_iff]
    decide
  · intro hlaw
    obtain ⟨o,r,hcheck⟩ := (hlaw [] nofun).refused 0 0 (by decide) le_rfl (by decide)
    have hok : ((new .openAi {} 0).replay ([]++(0,.forceOpen (2^64*1000000000-1))::[])).check 0 0 = .ok () :=
      check_eq_ok_iff.mpr (by decide)
    rw [hok] at hcheck
    exact nomatch hcheck

/-- The calls were handled in order, between the construction and now. -/
def InOrder (epoch now : ℕ) (calls : List (ℕ × BreakerCall)) : Prop :=
  List.IsChain (· ≤ ·) (epoch::calls.map Prod.fst++[now])

theorem InOrder.snoc {epoch t : ℕ} {calls : List (ℕ × BreakerCall)} {c : BreakerCall}
    (h : InOrder epoch now calls) (ht : now ≤ t) :
    InOrder epoch t (calls++[(now,c)]) := by
  unfold InOrder at *
  rw [List.map_append,← List.cons_append]
  refine h.append (.singleton t) ?_
  intro x hx y hy
  obtain rfl : now = x := by simpa only [List.map_cons,List.map_nil,List.getLast?_concat,Option.mem_some_iff,
    eq_comm] using hx
  obtain rfl : t = y := by simpa using hy
  exact ht

theorem InOrder.later {epoch t : ℕ} {calls : List (ℕ × BreakerCall)}
    (h : InOrder epoch now calls) (ht : now ≤ t) :
    InOrder epoch t calls := by
  unfold InOrder at *
  have hlast := List.isChain_append.mp h
  refine hlast.1.append (.singleton t) ?_
  intro x hx y hy
  have hxn := hlast.2.2 x hx now (by simp)
  obtain rfl : t = y := by simpa using hy
  exact hxn.trans ht

end CircuitBreakerHandle

namespace BreakerSystem
variable {ι : Type*} [DecidableEq ι] {s : BreakerSystem ι} {config : CircuitBreakerConfig} {epoch : ℕ}
  {provider : ProviderKind}

/-- Every interleaving of `run` calls and overrides is a history of calls. -/
theorem exec_replay {as : List (BreakerAction ι)} (h : exec step (init provider config epoch) as = some s) :
    ∃ calls, CircuitBreakerHandle.InOrder epoch s.now calls ∧
      s.handle = (CircuitBreakerHandle.new provider config epoch).replay calls := by
  refine exec_preserves (I := fun s : BreakerSystem ι => ∃ calls,
    CircuitBreakerHandle.InOrder epoch s.now calls ∧
      s.handle = (CircuitBreakerHandle.new provider config epoch).replay calls) ?_ ?_ h
  · rintro s a t ⟨calls,hord,hs⟩ hstep
    rcases handle_cases hstep with ⟨hh,-,-,hle⟩ | ⟨r,f,-,hnow,hh,-⟩ | ⟨d,-,rfl⟩
    · exact ⟨calls,hord.later hle,hh.trans hs⟩
    · refine ⟨calls++[(s.now,.complete f)],hord.snoc hnow.ge,?_⟩
      rw [CircuitBreakerHandle.replay_append,← hs]
      exact hh
    · refine ⟨calls++[(s.now,.forceOpen d)],hord.snoc le_rfl,?_⟩
      rw [CircuitBreakerHandle.replay_append,← hs]
      rfl
  · exact ⟨[],.cons_cons le_rfl (.singleton _),rfl⟩

end BreakerSystem
end RakkaInference
