import Mathlib.Order.Nat
import RakkaInference.Machine.Runs
import RakkaInference.Core.Error

/-! When a link is pinged, and when it is dead. -/
namespace RakkaInference.Ws
open Machine

structure KeepaliveConfig where
  pingInterval : ℕ := Duration.fromSecs 15
  idleTimeout : ℕ := Duration.fromSecs 60

inductive KeepaliveAction
  | idle
  | sendPing
  | dead
  deriving DecidableEq

structure Keepalive where
  cfg : KeepaliveConfig
  lastSeen : ℕ
  lastPing : Option ℕ

namespace Keepalive

def new (cfg : KeepaliveConfig) (now : ℕ) : Keepalive := { cfg, lastSeen := now, lastPing := none }

def observe (k : Keepalive) (now : ℕ) : Keepalive := { k with lastSeen := now, lastPing := none }

/-- The differences of times are saturating. -/
def tick (k : Keepalive) (now : ℕ) : Keepalive × KeepaliveAction :=
  let sinceSeen := now-k.lastSeen
  if k.cfg.idleTimeout ≠ 0 ∧ sinceSeen ≥ k.cfg.idleTimeout then (k,.dead)
  else if k.cfg.pingInterval = 0 then (k,.idle)
  else
    let needPing := match k.lastPing with
      | none => decide (sinceSeen ≥ k.cfg.pingInterval)
      | some prev => decide (now-prev ≥ k.cfg.pingInterval)
    if needPing then ({ k with lastPing := some now },.sendPing) else (k,.idle)

/-- The time from which the next ping is counted. -/
def since (k : Keepalive) : ℕ := k.lastPing.getD k.lastSeen

def Silent (k : Keepalive) (now : ℕ) : Prop := 0 < k.cfg.idleTimeout ∧ k.lastSeen+k.cfg.idleTimeout ≤ now

def Due (k : Keepalive) (now : ℕ) : Prop := 0 < k.cfg.pingInterval ∧ k.since+k.cfg.pingInterval ≤ now

/-- What a tick does. -/
theorem tick_cases (k : Keepalive) (now : ℕ) :
    (k.Silent now ∧ k.tick now = (k,.dead)) ∨
    (¬ k.Silent now ∧ ¬ k.Due now ∧ k.tick now = (k,.idle)) ∨
    (¬ k.Silent now ∧ k.Due now ∧ k.tick now = ({ k with lastPing := some now },.sendPing)) := by
  have hsilent : k.cfg.idleTimeout ≠ 0 ∧ now-k.lastSeen ≥ k.cfg.idleTimeout ↔ k.Silent now := by
    unfold Silent
    omega
  by_cases hs : k.Silent now
  · exact .inl ⟨hs,if_pos (hsilent.mpr hs)⟩
  · refine .inr ?_
    unfold tick
    dsimp only
    rw [if_neg (mt hsilent.mp hs)]
    by_cases hzero : k.cfg.pingInterval = 0
    · refine .inl ⟨hs,?_,if_pos hzero⟩
      unfold Due
      omega
    · rw [if_neg hzero]
      have hneed : (match k.lastPing with
          | none => decide (now-k.lastSeen ≥ k.cfg.pingInterval)
          | some prev => decide (now-prev ≥ k.cfg.pingInterval)) = true ↔ k.Due now := by
        unfold Due since
        cases k.lastPing with
        | none =>
          rw [decide_eq_true_iff,Option.getD_none]
          omega
        | some prev =>
          rw [decide_eq_true_iff,Option.getD_some]
          omega
      by_cases hdue : k.Due now
      · exact .inr ⟨hs,hdue,if_pos (hneed.mpr hdue)⟩
      · exact .inl ⟨hs,hdue,if_neg (mt hneed.mp hdue)⟩

end Keepalive

/-- A call at a time. -/
inductive KeepaliveCall
  | observe (now : ℕ)
  | tick (now : ℕ)

def KeepaliveCall.time : KeepaliveCall → ℕ
  | .observe now => now
  | .tick now => now

/-- The tracker, and what its calls have come to. -/
structure KeepaliveHistory where
  keepalive : Keepalive
  /-- The time of the last call. -/
  now : ℕ
  /-- The time of the last frame, or of the construction. -/
  observed : ℕ
  /-- The times of all pings, the last one first. -/
  pings : List ℕ := []
  /-- The link has been dead since the last frame. -/
  dead : Bool := false

namespace KeepaliveHistory

def start (cfg : KeepaliveConfig) (now : ℕ) : KeepaliveHistory := { keepalive := .new cfg now, now, observed := now }

/-- The calls come at times that do not decrease. -/
def step (s : KeepaliveHistory) (call : KeepaliveCall) : Option KeepaliveHistory :=
  if call.time < s.now then none
  else match call with
    | .observe now => some { s with keepalive := s.keepalive.observe now, now, observed := now, dead := false }
    | .tick now => some
        { keepalive := (s.keepalive.tick now).1
          now
          observed := s.observed
          pings := if (s.keepalive.tick now).2 = .sendPing then now::s.pings else s.pings
          dead := s.dead || (s.keepalive.tick now).2 = .dead }

/-- What a tick answers after these calls. -/
structure TickLaw (cfg : KeepaliveConfig) (s : KeepaliveHistory) (now : ℕ) (answer : KeepaliveAction) : Prop where
  dead_iff : answer = .dead ↔ 0 < cfg.idleTimeout ∧ s.observed+cfg.idleTimeout ≤ now
  stays_dead : s.dead → answer = .dead
  spaced : answer = .sendPing → ∀ ping ∈ s.pings, ping+cfg.pingInterval ≤ now
  quiet : answer = .sendPing → s.observed+cfg.pingInterval ≤ now
  pings : 0 < cfg.pingInterval → answer ≠ .dead → s.observed+cfg.pingInterval ≤ now →
    (∀ ping, s.pings.head? = some ping → ping+cfg.pingInterval ≤ now) → answer = .sendPing
  disabled : cfg.pingInterval = 0 → answer ≠ .sendPing

def CallLaw (cfg : KeepaliveConfig) (s : KeepaliveHistory) : KeepaliveCall → Prop
  | .observe _ => True
  | .tick now => TickLaw cfg s now (s.keepalive.tick now).2

/-- The tracker has the time of the last frame, and that of the last ping if there was one since then. -/
structure Tracked (cfg : KeepaliveConfig) (s : KeepaliveHistory) : Prop where
  cfg_eq : s.keepalive.cfg = cfg
  lastSeen_eq : s.keepalive.lastSeen = s.observed
  since_eq : s.keepalive.since = s.observed ∨ s.pings.head? = some s.keepalive.since
  observed_le : s.observed ≤ s.keepalive.since
  pings_le : ∀ ping ∈ s.pings, ping ≤ s.keepalive.since
  since_le : s.keepalive.since ≤ s.now
  silent : s.dead → s.keepalive.Silent s.now

variable {cfg : KeepaliveConfig} {s t : KeepaliveHistory} {call : KeepaliveCall} {now : ℕ}

theorem tracked_start (cfg : KeepaliveConfig) (now : ℕ) : Tracked cfg (start cfg now) :=
  ⟨rfl,rfl,.inl rfl,le_rfl,nofun,le_rfl,nofun⟩

/-- A link that is silent stays so. -/
theorem silent_mono {k : Keepalive} (h : k.Silent s.now) (hnow : s.now ≤ now) : k.Silent now :=
  ⟨h.1,h.2.trans hnow⟩

theorem Tracked.observe (h : Tracked cfg s) (hnow : s.now ≤ now) :
    Tracked cfg { s with keepalive := s.keepalive.observe now, now, observed := now, dead := false } := by
  constructor
  case cfg_eq => exact h.cfg_eq
  case lastSeen_eq => rfl
  case since_eq => exact .inl rfl
  case observed_le => exact le_rfl
  case pings_le => exact fun ping hping => ((h.pings_le ping hping).trans h.since_le).trans hnow
  case since_le => exact le_rfl
  case silent => exact nofun

theorem Tracked.step (h : Tracked cfg s) (hstep : s.step call = some t) : Tracked cfg t := by
  unfold KeepaliveHistory.step at hstep
  split at hstep
  · exact nomatch hstep
  case isFalse hnow =>
    have hnow := Nat.le_of_not_lt hnow
    cases call with
    | observe now =>
      obtain rfl := Option.some.inj hstep
      exact h.observe hnow
    | tick now =>
      obtain rfl := Option.some.inj hstep
      change s.now ≤ now at hnow
      obtain ⟨hs,htick⟩ | ⟨-,-,htick⟩ | ⟨-,-,htick⟩ := s.keepalive.tick_cases now
      · rw [htick]
        exact ⟨h.cfg_eq,h.lastSeen_eq,h.since_eq,h.observed_le,h.pings_le,h.since_le.trans hnow,fun _ => hs⟩
      · rw [htick]
        refine ⟨h.cfg_eq,h.lastSeen_eq,h.since_eq,h.observed_le,h.pings_le,h.since_le.trans hnow,?_⟩
        intro hdead
        exact silent_mono (h.silent (by simpa using hdead)) hnow
      · rw [htick]
        constructor
        case cfg_eq => exact h.cfg_eq
        case lastSeen_eq => exact h.lastSeen_eq
        case since_eq => exact .inr rfl
        case observed_le => exact (h.observed_le.trans h.since_le).trans hnow
        case pings_le =>
          intro ping hping
          obtain rfl | hping := List.mem_cons.mp hping
          · exact le_rfl
          · exact ((h.pings_le ping hping).trans h.since_le).trans hnow
        case since_le => exact le_rfl
        case silent =>
          intro hdead
          exact silent_mono (h.silent (by simpa using hdead)) hnow

theorem Tracked.silent_iff (h : Tracked cfg s) :
    s.keepalive.Silent now ↔ 0 < cfg.idleTimeout ∧ s.observed+cfg.idleTimeout ≤ now := by
  rw [Keepalive.Silent,h.cfg_eq,h.lastSeen_eq]

theorem Tracked.due_iff (h : Tracked cfg s) :
    s.keepalive.Due now ↔ 0 < cfg.pingInterval ∧ s.keepalive.since+cfg.pingInterval ≤ now := by
  rw [Keepalive.Due,h.cfg_eq]

/-- A tick that finds the link silent or not, and a ping due or not. -/
theorem Tracked.tickLaw (h : Tracked cfg s) (hnow : s.now ≤ now) : TickLaw cfg s now (s.keepalive.tick now).2 := by
  have hobserved := h.observed_le
  obtain ⟨hs,htick⟩ | ⟨hs,hdue,htick⟩ | ⟨hs,hdue,htick⟩ := s.keepalive.tick_cases now
  · rw [htick]
    rw [h.silent_iff] at hs
    exact ⟨iff_of_true rfl hs,fun _ => rfl,nofun,nofun,fun _ hne => absurd rfl hne,nofun⟩
  · rw [htick]
    constructor
    case dead_iff => exact iff_of_false nofun (mt h.silent_iff.mpr hs)
    case stays_dead => exact fun hdead => absurd (silent_mono (h.silent hdead) hnow) hs
    case spaced => exact nofun
    case quiet => exact nofun
    case pings =>
      intro hpos _ hseen hpings
      refine absurd (h.due_iff.mpr ⟨hpos,?_⟩) hdue
      obtain hsince | hsince := h.since_eq
      · rw [hsince]
        exact hseen
      · exact hpings _ hsince
    case disabled => exact nofun
  · rw [htick]
    rw [h.due_iff] at hdue
    constructor
    case dead_iff => exact iff_of_false nofun (mt h.silent_iff.mpr hs)
    case stays_dead => exact fun hdead => absurd (silent_mono (h.silent hdead) hnow) hs
    case spaced =>
      intro _ ping hping
      exact (Nat.add_le_add_right (h.pings_le ping hping) _).trans hdue.2
    case quiet => exact fun _ => (Nat.add_le_add_right hobserved _).trans hdue.2
    case pings => exact fun _ _ _ _ => rfl
    case disabled => exact fun hzero => absurd hzero hdue.1.ne'

/-- Every tick of a sequence of calls at times that do not decrease. -/
theorem keepalive_law (cfg : KeepaliveConfig) (now : ℕ) (calls : List KeepaliveCall) (s : KeepaliveHistory)
    (h : exec step (start cfg now) calls = some s) : Throughout step (CallLaw cfg) (start cfg now) calls := by
  refine throughout_preserves (I := Tracked cfg) (fun _ _ _ hs hstep => hs.step hstep) ?_ (tracked_start cfg now) h
  intro s call t hs hstep
  cases call with
  | observe now => trivial
  | tick now =>
    unfold KeepaliveHistory.step at hstep
    split at hstep
    · exact nomatch hstep
    case isFalse hnow => exact hs.tickLaw (Nat.le_of_not_lt hnow)

/-- A ping after five seconds, one five seconds later, and a link that is dead after twenty. -/
def quietCalls : List KeepaliveCall :=
  [.tick (Duration.fromSecs 5),.tick (Duration.fromSecs 6),.tick (Duration.fromSecs 10),.tick (Duration.fromSecs 20)]

theorem keepalive_law_quiet :
    Throughout step (CallLaw ⟨Duration.fromSecs 5,Duration.fromSecs 20⟩)
      (start ⟨Duration.fromSecs 5,Duration.fromSecs 20⟩ 0) quietCalls :=
  keepalive_law ⟨Duration.fromSecs 5,Duration.fromSecs 20⟩ 0 quietCalls _ rfl

/-- Without an interval no ping is sent, at whatever distance from the last frame and the last ping. -/
theorem keepalive_silent_without_interval :
    ¬ ∀ (cfg : KeepaliveConfig) (now : ℕ), ((start cfg now).keepalive.tick now).2 ≠ .dead →
      (start cfg now).observed+cfg.pingInterval ≤ now →
      (∀ ping, (start cfg now).pings.head? = some ping → ping+cfg.pingInterval ≤ now) →
      ((start cfg now).keepalive.tick now).2 = .sendPing := by
  intro h
  have hping := h ⟨0,Duration.fromSecs 60⟩ 0 (by decide) (by decide) nofun
  exact absurd hping (by decide)

end KeepaliveHistory
end RakkaInference.Ws
