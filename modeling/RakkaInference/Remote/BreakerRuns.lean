import RakkaInference.Machine.Runs
import RakkaInference.Remote.CircuitBreaker

/-! Interleavings of concurrent `run` calls on one breaker. A call is its check, any
number of actions of the other calls, and then the recording of its outcome, or nothing
if its future is dropped. The clock advances between actions. -/
namespace RakkaInference
open Machine

/-- What is remembered of a call that has passed its check: the state that the check
saw, and how often the circuit had opened by then. -/
structure Admission where
  state : CircuitState
  opening : ℕ

/-- The breaker, the calls that are between their check and their outcome, and how
often and when last the circuit has opened. -/
structure BreakerSystem (ι : Type*) where
  now : ℕ
  handle : CircuitBreakerHandle
  admitted : ι → Option Admission
  openings : ℕ
  lastOpening : ℕ

inductive BreakerAction (ι : Type*)
  | tick (ns : ℕ)
  | start (r : ι) (utcMs : ℤ)
  | finish (r : ι) (outcome : Except InferenceError Unit)
  | abandon (r : ι)
  | forceOpen (duration : ℕ)

namespace BreakerSystem
variable {ι : Type*} [DecidableEq ι]

def init (provider : ProviderKind) (config : CircuitBreakerConfig) (epoch : ℕ) : BreakerSystem ι :=
  ⟨epoch,.new provider config epoch,fun _ => none,0,0⟩

/-- An outcome opens the circuit when it moves the opening time away from zero. -/
def opens (h h' : CircuitBreakerHandle) : Bool := h.openedAtNs = 0 ∧ h'.openedAtNs ≠ 0

@[simp] theorem opens_eq_true_iff {h h' : CircuitBreakerHandle} :
    opens h h' = true ↔ h.openedAtNs = 0 ∧ h'.openedAtNs ≠ 0 := by simp [opens]

def setAdmitted (s : BreakerSystem ι) (r : ι) (adm : Option Admission) : BreakerSystem ι :=
  { s with admitted := Function.update s.admitted r adm }

def step (s : BreakerSystem ι) : BreakerAction ι → Option (BreakerSystem ι)
  | .tick ns => some { s with now := s.now+ns }
  | .start r utcMs =>
    match s.admitted r, s.handle.check s.now utcMs with
    | some _,_ => none
    | none,.error _ => some s
    | none,.ok _ => some (s.setAdmitted r (some ⟨s.handle.state s.now,s.openings⟩))
  | .finish r outcome =>
    match s.admitted r with
    | none => none
    | some _ =>
      let h := s.handle.recordOutcome s.now outcome
      some { s with
        handle := h
        admitted := Function.update s.admitted r none
        openings := if opens s.handle h then s.openings+1 else s.openings
        lastOpening := if opens s.handle h then s.now else s.lastOpening }
  | .abandon r =>
    match s.admitted r with
    | none => none
    | some _ => some (s.setAdmitted r none)
  | .forceOpen duration => some { s with handle := s.handle.handleForceOpen s.now duration }

variable {s t : BreakerSystem ι} {a : BreakerAction ι}

/-- Everything that an action can do. -/
inductive Move (s : BreakerSystem ι) : BreakerAction ι → BreakerSystem ι → Prop
  | tick (ns : ℕ) : Move s (.tick ns) { s with now := s.now+ns }
  | refused {r : ι} {utcMs : ℤ} (hr : s.admitted r = none) (hs : s.handle.state s.now = .opened) :
      Move s (.start r utcMs) s
  | admitted {r : ι} {utcMs : ℤ} (hr : s.admitted r = none) (hs : s.handle.state s.now ≠ .opened) :
      Move s (.start r utcMs) (s.setAdmitted r (some ⟨s.handle.state s.now,s.openings⟩))
  | finish {r : ι} {outcome : Except InferenceError Unit} {adm : Admission} {t : BreakerSystem ι}
      (hr : s.admitted r = some adm) (hnow : t.now = s.now)
      (hh : t.handle = s.handle.recordOutcome s.now outcome)
      (hadm : t.admitted = Function.update s.admitted r none)
      (hopen : opens s.handle t.handle = true ∧ t.openings = s.openings+1 ∧ t.lastOpening = s.now ∨
        opens s.handle t.handle = false ∧ t.openings = s.openings ∧ t.lastOpening = s.lastOpening) :
      Move s (.finish r outcome) t
  | abandon {r : ι} {adm : Admission} (hr : s.admitted r = some adm) :
      Move s (.abandon r) (s.setAdmitted r none)
  | forceOpen (d : ℕ) : Move s (.forceOpen d) { s with handle := s.handle.handleForceOpen s.now d }

theorem move_of_step (h : step s a = some t) : Move s a t := by
  cases a with
  | tick ns =>
    obtain rfl := Option.some.inj h
    exact .tick ns
  | start r utcMs =>
    cases hr : s.admitted r with
    | some adm => simp [step,hr] at h
    | none =>
      rcases s.handle.check_cases s.now utcMs with ⟨hs,hc⟩ | ⟨hs,o,q,hc⟩
      · obtain rfl : s.setAdmitted r (some ⟨s.handle.state s.now,s.openings⟩) = t := by
          simpa [step,hr,hc] using h
        exact .admitted hr hs
      · obtain rfl : s = t := by simpa [step,hr,hc] using h
        exact .refused hr hs
  | finish r outcome =>
    cases hr : s.admitted r with
    | none => simp [step,hr] at h
    | some adm =>
      simp only [step,hr,Option.some.injEq] at h
      subst h
      refine .finish hr rfl rfl rfl ?_
      cases ho : opens s.handle (s.handle.recordOutcome s.now outcome) <;> simp
  | abandon r =>
    cases hr : s.admitted r with
    | none => simp [step,hr] at h
    | some adm =>
      obtain rfl : s.setAdmitted r none = t := by simpa [step,hr] using h
      exact .abandon hr
  | forceOpen d =>
    obtain rfl := Option.some.inj h
    exact .forceOpen d

/-- No outcome is recorded: the breaker is as it was, and time may have passed. -/
structure Quiet (s t : BreakerSystem ι) : Prop where
  handle_eq : t.handle = s.handle
  openings_eq : t.openings = s.openings
  lastOpening_eq : t.lastOpening = s.lastOpening
  now_le : s.now ≤ t.now

/-- What an action does to the breaker: nothing, the recording of an outcome, or an
override. -/
theorem handle_cases (h : step s a = some t) :
    Quiet s t ∨
    (∃ r outcome, a = .finish r outcome ∧ t.now = s.now ∧
      t.handle = s.handle.recordOutcome s.now outcome ∧
      (opens s.handle t.handle = true ∧ t.openings = s.openings+1 ∧ t.lastOpening = s.now ∨
        opens s.handle t.handle = false ∧ t.openings = s.openings ∧
          t.lastOpening = s.lastOpening)) ∨
    (∃ d, a = .forceOpen d ∧ t = { s with handle := s.handle.handleForceOpen s.now d }) := by
  cases move_of_step h with
  | tick ns => exact .inl ⟨rfl,rfl,rfl,Nat.le_add_right _ _⟩
  | refused hr hs => exact .inl ⟨rfl,rfl,rfl,le_rfl⟩
  | admitted hr hs => exact .inl ⟨rfl,rfl,rfl,le_rfl⟩
  | finish hr hnow hh hadm hopen => exact .inr (.inl ⟨_,_,rfl,hnow,hh,hopen⟩)
  | abandon hr => exact .inl ⟨rfl,rfl,rfl,le_rfl⟩
  | forceOpen d => exact .inr (.inr ⟨d,rfl,rfl⟩)

theorem handle_of_finish {r : ι} {outcome : Except InferenceError Unit}
    (h : step s (.finish r outcome) = some t) : t.handle = s.handle.recordOutcome s.now outcome := by
  cases move_of_step h with
  | finish hr hnow hh hadm hopen => exact hh

/-- A call that nothing overlaps is one `run`. -/
theorem exec_single (s : BreakerSystem ι) (r : ι) (ns : ℕ) (utcMs : ℤ)
    (outcome : Except InferenceError Unit) (hr : s.admitted r = none)
    (hc : s.handle.check s.now utcMs = .ok ()) :
    (exec step s [.start r utcMs,.tick ns,.finish r outcome]).map handle =
      some (s.handle.run s.now (s.now+ns) utcMs outcome).1 := by
  simp [exec,step,hr,hc,setAdmitted,CircuitBreakerHandle.run]

/-- The actions of a run without operator overrides. -/
def Unattended (a : BreakerAction ι) : Prop := ∀ d, a ≠ .forceOpen d

/-- What no action changes. -/
structure Framed (config : CircuitBreakerConfig) (epoch : ℕ) (s : BreakerSystem ι) : Prop where
  config_eq : s.handle.config = config
  epoch_eq : s.handle.epoch = epoch
  epoch_le : epoch ≤ s.now

/-- What the breaker keeps along every run without overrides: the reading of the clock at
the last opening, for as long as it is not closed. -/
structure Sound (config : CircuitBreakerConfig) (epoch : ℕ) (s : BreakerSystem ι) : Prop
    extends Framed config epoch s where
  unforced : s.handle.Unforced
  opened : s.handle.openedAtNs ≠ 0 → 0 < s.openings ∧ epoch ≤ s.lastOpening ∧
    s.lastOpening ≤ s.now ∧ s.handle.openedAtNs = s.handle.elapsedNs s.lastOpening

variable {config : CircuitBreakerConfig} {epoch : ℕ} {provider : ProviderKind}

omit [DecidableEq ι] in
theorem framed_init : Framed config epoch (init provider config epoch : BreakerSystem ι) :=
  ⟨rfl,rfl,le_rfl⟩

theorem framed_step (hs : Framed config epoch s) (h : step s a = some t) :
    Framed config epoch t := by
  obtain ⟨hcfg,hep,hle⟩ := hs
  rcases handle_cases h with hq | ⟨r,f,-,hnow,hh,-⟩ | ⟨d,-,rfl⟩
  · rw [← hq.handle_eq] at hcfg hep
    exact ⟨hcfg,hep,hle.trans hq.now_le⟩
  · obtain ⟨hc,he,-⟩ := s.handle.recordOutcome_frame s.now f
    rw [← hh] at hc he
    exact ⟨hc.trans hcfg,he.trans hep,by omega⟩
  · obtain ⟨hc,he,-⟩ := s.handle.handleForceOpen_frame s.now d
    exact ⟨hc.trans hcfg,he.trans hep,hle⟩

theorem framed_exec {as : List (BreakerAction ι)}
    (h : exec step (init provider config epoch) as = some s) : Framed config epoch s :=
  exec_preserves (fun _ _ _ hs hstep => framed_step hs hstep) framed_init h

omit [DecidableEq ι] in
theorem sound_init : Sound config epoch (init provider config epoch : BreakerSystem ι) :=
  ⟨framed_init,rfl,fun h => absurd rfl h⟩

/-- Recording an outcome closes the circuit, opens it, or leaves its opening time. -/
theorem recordOutcome_opens (h : CircuitBreakerHandle) (now : ℕ) (f : Except InferenceError Unit) :
    (∃ v, f = .ok v) ∧ (h.recordOutcome now f).openedAtNs = 0 ∨
    (∃ e, f = .error e ∧ e.countsAsCircuitFailure) ∧ h.openedAtNs = 0 ∧
      (h.recordOutcome now f).openedAtNs = h.elapsedNs now ∨
    (∃ e, f = .error e) ∧ (h.recordOutcome now f).openedAtNs = h.openedAtNs := by
  cases f with
  | ok v => exact .inl ⟨⟨v,rfl⟩,rfl⟩
  | error e =>
    right
    cases hc : e.countsAsCircuitFailure with
    | false => exact .inr ⟨⟨e,rfl⟩,by simp [CircuitBreakerHandle.recordOutcome,hc]⟩
    | true =>
      simp only [CircuitBreakerHandle.recordOutcome,hc,if_true]
      rcases h.recordFailure_cases now with ⟨hz,-,hr⟩ | ⟨-,hr⟩
      · exact .inl ⟨⟨e,rfl,hc⟩,hz,by rw [hr]⟩
      · exact .inr ⟨⟨e,rfl⟩,by rw [hr]⟩

theorem sound_step (hs : Sound config epoch s) (ha : Unattended a) (h : step s a = some t) :
    Sound config epoch t := by
  have hframe := framed_step hs.toFramed h
  obtain ⟨⟨-,-,hle⟩,hun,hop⟩ := hs
  rcases handle_cases h with ⟨hh,hn,hl,hle⟩ | ⟨r,f,rfl,hnow,hh,hopen⟩ | ⟨d,rfl,-⟩
  · rw [← hh] at hun
    refine ⟨hframe,hun,?_⟩
    rw [hh,hn,hl]
    intro ho
    obtain ⟨h1,h2,h3,h4⟩ := hop ho
    exact ⟨h1,h2,h3.trans hle,h4⟩
  · obtain ⟨-,he,-,hf⟩ := s.handle.recordOutcome_frame s.now f
    rw [← hh] at he hf
    refine ⟨hframe,hf.trans hun,fun ho => ?_⟩
    have hclock : ∀ n, t.handle.elapsedNs n = s.handle.elapsedNs n := by
      intro n
      simp only [CircuitBreakerHandle.elapsedNs,he]
    rcases hopen with ⟨hb,hn,hl⟩ | ⟨hb,hn,hl⟩
    · have hz := (opens_eq_true_iff.mp hb).1
      rcases recordOutcome_opens s.handle s.now f with ⟨-,hr⟩ | ⟨-,-,hr⟩ | ⟨-,hr⟩ <;> rw [← hh] at hr
      · exact absurd hr ho
      · rw [hl,hnow,hclock]
        exact ⟨by omega,hle,le_rfl,hr⟩
      · exact absurd (hr.trans hz) ho
    · have hz : s.handle.openedAtNs ≠ 0 := by
        intro hz
        rw [opens_eq_true_iff.mpr ⟨hz,ho⟩] at hb
        contradiction
      rcases recordOutcome_opens s.handle s.now f with ⟨-,hr⟩ | ⟨-,hz',-⟩ | ⟨-,hr⟩
      · exact absurd (by rw [hh,hr]) ho
      · exact absurd hz' hz
      · rw [← hh] at hr
        rw [hn,hl,hnow,hclock,hr]
        exact hop hz
  · exact absurd rfl (ha d)

end BreakerSystem
end RakkaInference
