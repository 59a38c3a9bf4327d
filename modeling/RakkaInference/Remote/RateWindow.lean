import RakkaInference.Machine.Ledger
import RakkaInference.Machine.Runs
import RakkaInference.Remote.RateLimit

/-! One rate limiter and every acquire that it has answered. The window is rotated lazily,
by the first acquire that finds it expired. -/
namespace RakkaInference
open Machine

/-- What the counter of the distributed-data library keeps for each node. -/
class GCounter.Entries (γ : Type) [GCounter γ] where
  entry : γ → String → ℕ
  entry_new : ∀ node, entry GCounter.new node = 0
  entry_increment : ∀ c node n, entry (GCounter.increment c node n) node = entry c node+n

instance : GCounter.Entries (String → ℕ) where
  entry := fun c node => c node
  entry_new := fun _ => rfl
  entry_increment := fun c node n => by simp [GCounter.increment]

/-- An acquire that was answered, and the start of the window that it was decided in. -/
structure Answered where
  time : ℕ
  window : ℕ
  request : AcquirePermit
  answer : Except InferenceError Permit

def Answered.granted (b : Budget) (e : Answered) : ℕ :=
  match e.answer with
  | .ok permit => b.granted permit
  | .error _ => 0

structure LimiterSystem (γ : Type) where
  now : ℕ
  limiter : RateLimiterActor γ
  log : List Answered

namespace LimiterSystem
variable {γ : Type} [GCounter γ]

def init (γ : Type) [GCounter γ] (nodeId : String) (limits : RateLimits) (now : ℕ) : LimiterSystem γ :=
  ⟨now,.new nodeId limits,[]⟩

/-- Some time passes and an acquire is handled. -/
def step (s : LimiterSystem γ) (a : ℕ × AcquirePermit) : Option (LimiterSystem γ) :=
  let now := s.now+a.1
  let (limiter,answer) := s.limiter.acquire now a.2
  some ⟨now,limiter,s.log++[⟨now,limiter.window.startedAt.getD now,a.2,answer⟩]⟩

/-- What the limiter answers to the next acquire. -/
def answer (s : LimiterSystem γ) (a : ℕ × AcquirePermit) : Except InferenceError Permit :=
  (s.limiter.acquire (s.now+a.1) a.2).2

/-- The limiter as the next acquire finds it, after a rotation if one is due. -/
def rotated (s : LimiterSystem γ) (a : ℕ × AcquirePermit) : RateLimiterActor γ :=
  s.limiter.rotateWindowIfNeeded (s.now+a.1)

variable {s t : LimiterSystem γ} {a : ℕ × AcquirePermit} {b : Budget}

/-- What the answers so far have granted in the window that started at `w`. -/
def grantedIn (s : LimiterSystem γ) (b : Budget) (w : ℕ) : ℕ :=
  total (Answered.granted b) (fun e => e.window = w) s.log

/-- What the answers so far have granted from one time to another. -/
def grantedBetween (s : LimiterSystem γ) (b : Budget) (first last : ℕ) : ℕ :=
  total (Answered.granted b) (fun e => first ≤ e.time ∧ e.time ≤ last) s.log

theorem step_eq (s : LimiterSystem γ) (a : ℕ × AcquirePermit) :
    step s a = some ⟨s.now+a.1,(s.limiter.acquire (s.now+a.1) a.2).1,
      s.log++[⟨s.now+a.1,(s.limiter.acquire (s.now+a.1) a.2).1.window.startedAt.getD (s.now+a.1),a.2,
        s.answer a⟩]⟩ := rfl

variable [GCounter.Entries γ]

/-- The limits hold in every window, the current window and the counters carry what was
granted in it, and no time shorter than a minute sees more than twice a limit. -/
structure Law (s : LimiterSystem γ) : Prop where
  window : ∀ (b : Budget) limit, b.limit s.limiter.limits = some limit → ∀ w, s.grantedIn b w ≤ limit
  current : ∀ (b : Budget) w, s.limiter.window.startedAt = some w → b.spent s.limiter.window = s.grantedIn b w
  entry : ∀ b : Budget,
    GCounter.Entries.entry (b.counter s.limiter) s.limiter.nodeId = b.spent s.limiter.window
  interval : ∀ (b : Budget) limit, b.limit s.limiter.limits = some limit → ∀ first last,
    last < first+Duration.fromSecs 60 → s.grantedBetween b first last ≤ 2*limit

/-- A refusal leaves the limiter as it found it, an expired window rotated, and names a
budget that the request exceeds; no addition leaves its word. -/
structure StepLaw (s : LimiterSystem γ) (a : ℕ × AcquirePermit) : Prop where
  refused : ∀ e, s.answer a = .error e → (s.limiter.acquire (s.now+a.1) a.2).1 = s.rotated a ∧
    ∃ b : Budget, b.Exceeded (s.rotated a) a.2
  unexpired : ∀ w, s.limiter.window.startedAt = some w → s.now+a.1 < w+Duration.fromSecs 60 →
    s.rotated a = s.limiter
  word : ∀ b : Budget, b.spent (s.rotated a).window+b.asked a.2 < 2^64 ∧
    GCounter.Entries.entry (b.counter (s.rotated a)) (s.rotated a).nodeId+b.asked a.2 < 2^64

/-- The invariant behind the law. -/
structure Kept (node : String) (limits : RateLimits) (s : LimiterSystem γ) : Prop where
  node_eq : s.limiter.nodeId = node
  limits_eq : s.limiter.limits = limits
  fresh : s.limiter.window.startedAt = none → s.log = []
  started : ∀ w, s.limiter.window.startedAt = some w → w ≤ s.now
  latest : ∀ w, s.limiter.window.startedAt = some w → ∀ e ∈ s.log,
    e.window = w ∨ e.window+Duration.fromSecs 60 ≤ w
  windowed : Windowed Answered.window Answered.time (Duration.fromSecs 60) s.log
  current : ∀ (b : Budget) w, s.limiter.window.startedAt = some w → b.spent s.limiter.window = s.grantedIn b w
  entry : ∀ b : Budget, GCounter.Entries.entry (b.counter s.limiter) node = b.spent s.limiter.window
  within : ∀ (b : Budget) limit, b.limit limits = some limit → ∀ w, s.grantedIn b w ≤ limit

variable {node : String} {limits : RateLimits}

theorem Kept.init (node : String) (limits : RateLimits) (start : ℕ) :
    Kept node limits (LimiterSystem.init γ node limits start) where
  node_eq := rfl
  limits_eq := rfl
  fresh := fun _ => rfl
  started := fun w hw => nomatch hw
  latest := fun w hw => nomatch hw
  windowed := ⟨(fun e he => nomatch he),fun e he => nomatch he⟩
  current := fun b w hw => nomatch hw
  entry := fun b => by cases b <;> exact GCounter.Entries.entry_new node
  within := fun b limit _ w => Nat.zero_le limit

/-- The first half of an acquire: time passes and the window is rotated if it is due. -/
theorem Kept.rotate (h : Kept node limits s) (a : ℕ × AcquirePermit) :
    Kept node limits ⟨s.now+a.1,s.rotated a,s.log⟩ ∧
    ∃ w, (s.rotated a).window.startedAt = some w ∧ s.now+a.1 < w+Duration.fromSecs 60 := by
  by_cases hlive : ∃ w, s.limiter.window.startedAt = some w ∧ s.now+a.1 < w+Duration.fromSecs 60
  · obtain ⟨w,hw,hlt⟩ := hlive
    have hsame : s.rotated a = s.limiter := RateLimiterActor.rotateWindowIfNeeded_of_lt hw hlt
    rw [hsame]
    refine ⟨?_,w,hw,hlt⟩
    exact { h with started := fun w hw => (h.started w hw).trans (Nat.le_add_right _ _) }
  · push Not at hlive
    have hnew := RateLimiterActor.rotateWindowIfNeeded_of_le hlive
    have hpast : ∀ e ∈ s.log, e.window+Duration.fromSecs 60 ≤ s.now+a.1 := by
      intro e he
      cases hstart : s.limiter.window.startedAt with
      | none =>
        rw [h.fresh hstart] at he
        exact nomatch he
      | some w =>
        have hw := hlive w hstart
        rcases h.latest w hstart e he with heq | hle
        · omega
        · omega
    have hminute : 0 < Duration.fromSecs 60 := by decide
    have hnone : ∀ b : Budget, total (Answered.granted b) (fun e => e.window = s.now+a.1) s.log = 0 := by
      intro b
      apply total_eq_zero
      intro e he
      have := hpast e he
      omega
    unfold rotated
    rw [hnew]
    refine ⟨?_,s.now+a.1,rfl,by omega⟩
    exact
      { node_eq := h.node_eq
        limits_eq := h.limits_eq
        fresh := fun hw => nomatch hw
        started := fun w hw => (Option.some.inj hw).ge
        latest := fun w hw e he => .inr ((hpast e he).trans_eq (Option.some.inj hw))
        windowed := h.windowed
        current := by
          intro b w hw
          obtain rfl : s.now+a.1 = w := Option.some.inj hw
          have hz := hnone b
          cases b <;> exact hz.symm
        entry := fun b => by cases b <;> exact GCounter.Entries.entry_new node
        within := h.within }

theorem Kept.snoc (h : Kept node limits s) {w : ℕ} (hw : s.limiter.window.startedAt = some w)
    (hlt : s.now < w+Duration.fromSecs 60) {l : RateLimiterActor γ} {e : Answered}
    (hnode : l.nodeId = s.limiter.nodeId) (hlimits : l.limits = s.limiter.limits)
    (hstart : l.window.startedAt = s.limiter.window.startedAt)
    (hwin : e.window = w) (htime : e.time = s.now)
    (hspent : ∀ b : Budget, b.spent l.window = b.spent s.limiter.window+e.granted b)
    (hentry : ∀ b : Budget, GCounter.Entries.entry (b.counter l) node =
      GCounter.Entries.entry (b.counter s.limiter) node+e.granted b)
    (hlimit : ∀ (b : Budget) limit, b.limit limits = some limit → b.spent l.window ≤ limit) :
    Kept node limits ⟨s.now,l,s.log++[e]⟩ := by
  have hcurrent : ∀ b : Budget, b.spent l.window = grantedIn ⟨s.now,l,s.log++[e]⟩ b w := by
    intro b
    unfold grantedIn
    rw [total_snoc,if_pos hwin,hspent b,h.current b w hw]
    rfl
  have hstarted : ∀ v, l.window.startedAt = some v → w = v := by
    intro v hv
    exact Option.some.inj (hw.symm.trans (hstart.symm.trans hv))
  constructor
  case node_eq => exact hnode.trans h.node_eq
  case limits_eq => exact hlimits.trans h.limits_eq
  case fresh =>
    intro hn
    exact nomatch hw.symm.trans (hstart.symm.trans hn)
  case started =>
    intro v hv
    exact h.started v (hstart.symm.trans hv)
  case latest =>
    intro v hv d hd
    obtain rfl := hstarted v hv
    rcases List.mem_append.mp hd with hd | hd
    · exact h.latest w hw d hd
    · obtain rfl := List.mem_singleton.mp hd
      exact .inl hwin
  case windowed =>
    apply h.windowed.snoc
    · rw [hwin,htime]
      exact ⟨h.started w hw,hlt⟩
    · rw [hwin]
      exact h.latest w hw
  case current =>
    intro b v hv
    obtain rfl := hstarted v hv
    exact hcurrent b
  case entry =>
    intro b
    rw [hentry b,h.entry b,hspent b]
  case within =>
    intro b limit hl v
    by_cases hv : w = v
    · obtain rfl := hv
      exact (hcurrent b).symm.trans_le (hlimit b limit hl)
    · -- the windows before the current one keep what they have
      unfold grantedIn
      rw [total_snoc,if_neg (by rw [hwin]; exact hv),Nat.add_zero]
      exact h.within b limit hl v

/-- The second half: the request is decided in the current window and its answer logged. -/
theorem Kept.decided (h : Kept node limits s) {w : ℕ} (hw : s.limiter.window.startedAt = some w)
    (hlt : s.now < w+Duration.fromSecs 60) (req : AcquirePermit) :
    Kept node limits ⟨s.now,(s.limiter.spend req).1,s.log++[⟨s.now,w,req,(s.limiter.spend req).2⟩]⟩ := by
  rcases s.limiter.spend_cases req with ⟨-,hsame,err,hanswer⟩ | ⟨hfree,hcharged,hanswer⟩
  · rw [hsame,hanswer]
    apply h.snoc hw hlt rfl rfl rfl rfl rfl
    · intro b
      rfl
    · intro b
      rfl
    · intro b limit hl
      rw [h.current b w hw]
      exact h.within b limit hl w
  · rw [hanswer]
    have hgranted : ∀ b : Budget,
        Answered.granted b ⟨s.now,w,req,.ok ⟨req.requests,req.tokens⟩⟩ = b.asked req := by
      intro b
      cases b <;> rfl
    apply h.snoc hw hlt hcharged.nodeId hcharged.limits hcharged.startedAt rfl rfl
    · intro b
      rw [hcharged.spent b,hgranted b]
    · intro b
      rw [hcharged.counter b,h.node_eq,GCounter.Entries.entry_increment,hgranted b]
    · intro b limit hl
      rw [hcharged.spent b]
      by_contra hx
      exact hfree b ⟨limit,by rw [h.limits_eq]; exact hl,by omega⟩

theorem Kept.step (h : Kept node limits s) (hstep : step s a = some t) : Kept node limits t := by
  obtain ⟨hrot,w,hw,hlt⟩ := h.rotate a
  have hdecided := hrot.decided hw hlt a.2
  have hstart : (s.limiter.acquire (s.now+a.1) a.2).1.window.startedAt = some w := by
    rw [RateLimiterActor.acquire,RateLimiterActor.spend_startedAt]
    exact hw
  rw [step_eq,hstart] at hstep
  obtain rfl := Option.some.inj hstep
  exact hdecided

theorem Kept.law (h : Kept node limits s) : s.Law where
  window := by
    rw [h.limits_eq]
    exact h.within
  current := h.current
  entry := by
    rw [h.node_eq]
    exact h.entry
  interval := by
    rw [h.limits_eq]
    intro b limit hl first last hlast
    exact total_interval_le h.windowed (h.within b limit hl) hlast

/-- What one acquire can add to a window, and how many acquires the log may still take. -/
def Small (s : LimiterSystem γ) (a : ℕ × AcquirePermit) : Prop :=
  s.log.length < 2^32 ∧ ∀ b : Budget, b.asked a.2 < 2^32

/-- Each answer adds less than a word of 32 bits to either budget. -/
def Slow (s : LimiterSystem γ) : Prop := ∀ b : Budget, b.spent s.limiter.window ≤ 4294967295*s.log.length

omit [GCounter.Entries γ] in
theorem spent_rotated_le (s : LimiterSystem γ) (a : ℕ × AcquirePermit) (b : Budget) :
    b.spent (s.rotated a).window ≤ b.spent s.limiter.window := by
  by_cases hlive : ∃ w, s.limiter.window.startedAt = some w ∧ s.now+a.1 < w+Duration.fromSecs 60
  · obtain ⟨w,hw,hlt⟩ := hlive
    rw [rotated,RateLimiterActor.rotateWindowIfNeeded_of_lt hw hlt]
  · push Not at hlive
    rw [rotated,RateLimiterActor.rotateWindowIfNeeded_of_le hlive]
    cases b <;> exact Nat.zero_le _

omit [GCounter.Entries γ] in
theorem Slow.step (h : s.Slow) (hsmall : Small s a) (hstep : step s a = some t) : t.Slow := by
  intro b
  have hrot := (spent_rotated_le s a b).trans (h b)
  have hasked := hsmall.2 b
  have hlen : t.log.length = s.log.length+1 := by
    rw [Option.some.inj (hstep.symm.trans (step_eq s a)),List.length_append,List.length_singleton]
  have hlimiter : t.limiter = ((s.rotated a).spend a.2).1 := by
    rw [Option.some.inj (hstep.symm.trans (step_eq s a))]
    rfl
  rw [hlen,hlimiter]
  rcases (s.rotated a).spend_cases a.2 with ⟨-,hsame,-⟩ | ⟨-,hcharged,-⟩
  · rw [hsame]
    omega
  · rw [hcharged.spent b]
    omega

theorem Kept.stepLaw (h : Kept node limits s) (hslow : s.Slow) (hsmall : Small s a) : StepLaw s a where
  refused := by
    intro e he
    rcases (s.rotated a).spend_cases a.2 with ⟨hx,hsame,-⟩ | ⟨-,-,hok⟩
    · exact ⟨hsame,hx⟩
    · have hanswer : s.answer a = .ok ⟨a.2.requests,a.2.tokens⟩ := hok
      rw [hanswer] at he
      exact nomatch he
  unexpired := fun w hw hlt => RateLimiterActor.rotateWindowIfNeeded_of_lt hw hlt
  word := by
    intro b
    have hrot := (h.rotate a).1
    have hentry : GCounter.Entries.entry (b.counter (s.rotated a)) (s.rotated a).nodeId =
        b.spent (s.rotated a).window := by
      have hnode : (s.rotated a).nodeId = node := hrot.node_eq
      rw [hnode]
      exact hrot.entry b
    have hbound : b.spent (s.rotated a).window+b.asked a.2 < 2^64 := by
      have hspent := (spent_rotated_le s a b).trans (hslow b)
      have hasked := hsmall.2 b
      have hlen := hsmall.1
      omega
    rw [hentry]
    exact ⟨hbound,hbound⟩

end LimiterSystem
end RakkaInference
