import Mathlib.Algebra.BigOperators.Group.Finset.Piecewise
import Mathlib.Algebra.Order.BigOperators.Group.Finset
import RakkaInference.Machine.Runs
import RakkaInference.Machine.Slots
import RakkaInference.Remote.RateLimit

/-! Rate limiters with the same limits on several nodes, inside one window. Every granted
permit reaches the counters of all the other nodes before the next acquire. -/
namespace RakkaInference
open Machine

structure ClusterAcquire where
  node : ℕ
  elapsed : ℕ
  request : AcquirePermit

structure RateCluster (γ : Type) where
  now : ℕ
  nodes : ℕ → RateLimiterActor γ
  /-- What the nodes have granted together. -/
  granted : Budget → ℕ

namespace RateCluster
variable {γ : Type} [GCounter γ]

def init (γ : Type) [GCounter γ] (ids : ℕ → String) (limits : RateLimits) (start : ℕ) : RateCluster γ :=
  ⟨start,fun i => .new (ids i) limits,fun _ => 0⟩

/-- The gossip that follows a grant. -/
def mergeRemote (delta : γ → GCounter.Delta γ) (granter peer : RateLimiterActor γ) : RateLimiterActor γ :=
  (peer.mergeRemoteDeltaRequests (delta granter.requestsCounter)).mergeRemoteDeltaTokens
    (delta granter.tokensCounter)

/-- One of the first `k` nodes handles an acquire, less than a minute after the start. -/
def step (k start : ℕ) (delta : γ → GCounter.Delta γ) (s : RateCluster γ) (a : ClusterAcquire) :
    Option (RateCluster γ) :=
  let now := s.now+a.elapsed
  if a.node < k ∧ now < start+Duration.fromSecs 60 then
    let (limiter,answer) := (s.nodes a.node).acquire now a.request
    match answer with
    | .error _ => some { s with now := now, nodes := Function.update s.nodes a.node limiter }
    | .ok permit => some
      { now := now
        nodes := Function.update (fun j => mergeRemote delta limiter (s.nodes j)) a.node limiter
        granted := fun b => s.granted b+b.granted permit }
  else none

variable {ids : ℕ → String} {limits : RateLimits} {k start : ℕ} {delta : γ → GCounter.Delta γ}
  {s t : RateCluster γ} {a : ClusterAcquire}

/-- What a node has spent in its window. -/
def spentAt (s : RateCluster γ) (b : Budget) (i : ℕ) : ℕ := b.spent (s.nodes i).window

/-- A node that has not opened its window, or opened it within the minute. -/
def Young (start now : ℕ) (l : RateLimiterActor γ) : Prop :=
  (l.window.startedAt = none ∧ ∀ b : Budget, b.spent l.window = 0) ∨
  ∃ w, l.window.startedAt = some w ∧ start ≤ w ∧ w ≤ now

/-- The spend of a node never reaches another node's window: the cluster has granted what
the windows add up to, and only each window is within the limits. -/
structure Separate (limits : RateLimits) (k start : ℕ) (s : RateCluster γ) : Prop where
  limits_eq : ∀ i, (s.nodes i).limits = limits
  young : ∀ i, Young start s.now (s.nodes i)
  clock : start ≤ s.now
  sum : ∀ b, s.granted b = ∑ i ∈ Finset.range k, s.spentAt b i
  within : ∀ (b : Budget) limit, b.limit limits = some limit → ∀ i, s.spentAt b i ≤ limit

theorem Separate.init (ids : ℕ → String) (limits : RateLimits) (k start : ℕ) :
    Separate limits k start (RateCluster.init γ ids limits start) where
  limits_eq := fun i => rfl
  young := fun i => .inl ⟨rfl,fun b => by cases b <;> rfl⟩
  clock := le_rfl
  sum := fun b => by cases b <;> simp [RateCluster.init,spentAt,RateLimiterActor.new,Budget.spent]
  within := fun b limit _ i => by cases b <;> exact Nat.zero_le _

/-- Inside the minute a rotation changes no spend: it only starts a window that was never
started. -/
theorem Young.rotate {l : RateLimiterActor γ} {now : ℕ} (h : Young start s.now l) (hle : s.now ≤ now)
    (hstart : start ≤ now) (hlt : now < start+Duration.fromSecs 60) :
    (∀ b : Budget, b.spent (l.rotateWindowIfNeeded now).window = b.spent l.window) ∧
    (l.rotateWindowIfNeeded now).limits = l.limits ∧
    ∃ w, (l.rotateWindowIfNeeded now).window.startedAt = some w ∧ start ≤ w ∧ w ≤ now := by
  rcases h with ⟨hn,hz⟩ | ⟨w,hw,hsw,hwn⟩
  · have hnew : l.rotateWindowIfNeeded now = _ :=
      RateLimiterActor.rotateWindowIfNeeded_of_le (by simp [hn])
    rw [hnew]
    refine ⟨fun b => ?_,rfl,now,rfl,hstart,le_rfl⟩
    rw [hz b]
    cases b <;> rfl
  · have hsame : l.rotateWindowIfNeeded now = l :=
      RateLimiterActor.rotateWindowIfNeeded_of_lt hw (by omega)
    rw [hsame]
    exact ⟨fun b => rfl,rfl,w,hw,hsw,hwn.trans hle⟩

/-- A refused acquire: some budget of the node would be exceeded, and no spend changes. -/
def Refused (limits : RateLimits) (a : ClusterAcquire) (s t : RateCluster γ) : Prop :=
  (∃ (b : Budget) (limit : ℕ), b.limit limits = some limit ∧ limit < s.spentAt b a.node+b.asked a.request) ∧
  t.granted = s.granted ∧ ∀ b i, t.spentAt b i = s.spentAt b i

/-- A granted acquire: it fits both budgets of the node, and the spend of that node grows. -/
def Granted (limits : RateLimits) (a : ClusterAcquire) (s t : RateCluster γ) : Prop :=
  (∀ (b : Budget) limit, b.limit limits = some limit → s.spentAt b a.node+b.asked a.request ≤ limit) ∧
  (∀ b, t.granted b = s.granted b+b.asked a.request) ∧
  ∀ b i, t.spentAt b i = s.spentAt b i+if i = a.node then b.asked a.request else 0

/-- What survives of a node when another node's spend is merged into it. -/
theorem mergeRemote_frame (delta : γ → GCounter.Delta γ) (granter peer : RateLimiterActor γ) :
    (mergeRemote delta granter peer).window = peer.window ∧
    (mergeRemote delta granter peer).limits = peer.limits := ⟨rfl,rfl⟩

omit [GCounter γ] in
theorem Young.later {l l' : RateLimiterActor γ} {now now' : ℕ} (h : Young start now l)
    (hw : l'.window = l.window) (hle : now ≤ now') : Young start now' l' := by
  unfold Young at *
  rw [hw]
  refine h.imp_right ?_
  rintro ⟨w,hw,hsw,hwn⟩
  exact ⟨w,hw,hsw,hwn.trans hle⟩

/-- What an acquire can do to a node inside the minute. -/
theorem Young.acquire {l : RateLimiterActor γ} {now : ℕ} (h : Young start s.now l) (hle : s.now ≤ now)
    (hstart : start ≤ now) (hlt : now < start+Duration.fromSecs 60) (req : AcquirePermit) :
    (l.acquire now req).1.limits = l.limits ∧ Young start now (l.acquire now req).1 ∧
    ((∃ e, (l.acquire now req).2 = .error e) ∧
        (∃ (b : Budget) (limit : ℕ), b.limit l.limits = some limit ∧ limit < b.spent l.window+b.asked req) ∧
        (∀ b : Budget, b.spent (l.acquire now req).1.window = b.spent l.window) ∨
      (l.acquire now req).2 = .ok ⟨req.requests,req.tokens⟩ ∧
        (∀ (b : Budget) limit, b.limit l.limits = some limit → b.spent l.window+b.asked req ≤ limit) ∧
        ∀ b : Budget, b.spent (l.acquire now req).1.window = b.spent l.window+b.asked req) := by
  obtain ⟨hspent,hlim,w,hw,hsw,hwn⟩ := h.rotate hle hstart hlt
  unfold RateLimiterActor.acquire
  set r := l.rotateWindowIfNeeded now
  have hexceeded : ∀ b : Budget, b.Exceeded r req ↔
      ∃ limit, b.limit l.limits = some limit ∧ limit < b.spent l.window+b.asked req := by
    intro b
    unfold Budget.Exceeded
    rw [hlim,hspent b]
  rcases r.spend_cases req with ⟨⟨b,hb⟩,hsame,e,hanswer⟩ | ⟨hfree,hcharged,hanswer⟩
  · rw [hsame]
    exact ⟨hlim,.inr ⟨w,hw,hsw,hwn⟩,.inl ⟨⟨e,hanswer⟩,⟨b,(hexceeded b).mp hb⟩,hspent⟩⟩
  · refine ⟨hcharged.limits.trans hlim,.inr ⟨w,hcharged.startedAt.trans hw,hsw,hwn⟩,.inr ⟨hanswer,?_,?_⟩⟩
    · intro b limit hl
      by_contra hx
      exact hfree b ((hexceeded b).mpr ⟨limit,hl,by omega⟩)
    · intro b
      rw [hcharged.spent b,hspent b]

/-- What an acquire at one node leaves of the cluster. -/
theorem step_frame (hstep : step k start delta s a = some t) :
    a.node < k ∧ t.now = s.now+a.elapsed ∧ t.now < start+Duration.fromSecs 60 ∧
    t.nodes a.node = ((s.nodes a.node).acquire t.now a.request).1 ∧
    (∀ i, i ≠ a.node → (t.nodes i).window = (s.nodes i).window ∧ (t.nodes i).limits = (s.nodes i).limits) ∧
    ∀ b : Budget, t.granted b = match ((s.nodes a.node).acquire t.now a.request).2 with
      | .ok permit => s.granted b+b.granted permit
      | .error _ => s.granted b := by
  simp only [step] at hstep
  split at hstep
  case isFalse => exact nomatch hstep
  case isTrue hguard =>
    split at hstep
    case h_1 e hanswer =>
      obtain rfl := Option.some.inj hstep
      refine ⟨hguard.1,rfl,hguard.2,by simp only [Function.update_self],?_,?_⟩
      · intro i hi
        simp only [Function.update_of_ne hi,and_self]
      · intro b
        simp only [hanswer]
    case h_2 permit hanswer =>
      obtain rfl := Option.some.inj hstep
      refine ⟨hguard.1,rfl,hguard.2,by simp only [Function.update_self],?_,?_⟩
      · intro i hi
        simp only [Function.update_of_ne hi]
        exact mergeRemote_frame _ _ _
      · intro b
        simp only [hanswer]

/-- What one acquire can do inside the minute. -/
theorem Separate.step_cases (h : Separate limits k start s) (hstep : step k start delta s a = some t) :
    a.node < k ∧ t.now = s.now+a.elapsed ∧ t.now < start+Duration.fromSecs 60 ∧
    (∀ i, (t.nodes i).limits = limits) ∧ (∀ i, Young start t.now (t.nodes i)) ∧
    (Refused limits a s t ∨ Granted limits a s t) := by
  obtain ⟨hk,hnow,hlt,hnode,hothers,hgranted⟩ := step_frame hstep
  have hle : s.now ≤ t.now := by omega
  obtain ⟨hlim,hyoung,hcases⟩ := (h.young a.node).acquire hle (h.clock.trans hle) hlt a.request
  rw [← hnode] at hlim hyoung
  simp only [h.limits_eq,← hnode] at hcases
  refine ⟨hk,hnow,hlt,?_,?_,?_⟩
  · intro i
    by_cases hi : i = a.node
    · rw [hi,hlim,h.limits_eq]
    · rw [(hothers i hi).2,h.limits_eq]
  · intro i
    by_cases hi : i = a.node
    · rw [hi]
      exact hyoung
    · exact (h.young i).later (hothers i hi).1 hle
  · have hspent : ∀ (b : Budget) i, i ≠ a.node → t.spentAt b i = s.spentAt b i := by
      intro b i hi
      unfold spentAt
      rw [(hothers i hi).1]
    rcases hcases with ⟨⟨e,hanswer⟩,hfull,hsame⟩ | ⟨hanswer,hfit,hcharged⟩
    · refine .inl ⟨hfull,?_,?_⟩
      · funext b
        rw [hgranted b,hanswer]
      · intro b i
        by_cases hi : i = a.node
        · rw [hi]
          exact hsame b
        · exact hspent b i hi
    · refine .inr ⟨hfit,?_,?_⟩
      · intro b
        rw [hgranted b,hanswer]
        cases b <;> rfl
      · intro b i
        by_cases hi : i = a.node
        · rw [hi,if_pos rfl]
          exact hcharged b
        · rw [if_neg hi,hspent b i hi,Nat.add_zero]

theorem Separate.step (h : Separate limits k start s) (hstep : RateCluster.step k start delta s a = some t) :
    Separate limits k start t := by
  obtain ⟨hk,hnow,-,hlimits,hyoung,hcases⟩ := h.step_cases hstep
  have hclock : start ≤ t.now := by
    have := h.clock
    omega
  rcases hcases with ⟨-,hgranted,hspent⟩ | ⟨hfit,hgranted,hspent⟩
  · refine ⟨hlimits,hyoung,hclock,?_,?_⟩
    · intro b
      rw [hgranted,h.sum b]
      exact Finset.sum_congr rfl fun i _ => (hspent b i).symm
    · intro b limit hl i
      rw [hspent b i]
      exact h.within b limit hl i
  · refine ⟨hlimits,hyoung,hclock,?_,?_⟩
    · intro b
      rw [hgranted b,h.sum b,Finset.sum_congr rfl fun i _ => hspent b i,Finset.sum_add_distrib,
        Finset.sum_ite_eq',if_pos (Finset.mem_range.mpr hk)]
    · intro b limit hl i
      rw [hspent b i]
      split
      case isTrue hi =>
        subst hi
        exact hfit b limit hl
      case isFalse hi =>
        exact h.within b limit hl i

theorem separate_exec {as : List ClusterAcquire}
    (h : exec (RateCluster.step k start delta) (RateCluster.init γ ids limits start) as = some s) :
    Separate limits k start s :=
  exec_preserves (fun _ _ _ hs hst => hs.step hst) (Separate.init ids limits k start) h

omit [GCounter γ] in
/-- What the cluster grants in a minute is bounded by the limit of every node together. -/
theorem Separate.granted_le (h : Separate limits k start s) {b : Budget} {limit : ℕ}
    (hl : b.limit limits = some limit) : s.granted b ≤ k*limit := by
  rw [h.sum b]
  calc ∑ i ∈ Finset.range k, s.spentAt b i ≤ ∑ _i ∈ Finset.range k, limit :=
        Finset.sum_le_sum fun i _ => h.within b limit hl i
    _ = k*limit := by simp

theorem step_enabled (delta : γ → GCounter.Delta γ) (hk : a.node < k)
    (hlt : s.now+a.elapsed < start+Duration.fromSecs 60) :
    ∃ t, step k start delta s a = some t := by
  simp only [step,if_pos (And.intro hk hlt)]
  split
  · exact ⟨_,rfl⟩
  · exact ⟨_,rfl⟩

/-- A node with room in both budgets grants, whatever the other nodes have granted. -/
theorem Separate.grants (h : Separate limits k start s) (delta : γ → GCounter.Delta γ) (hk : a.node < k)
    (hlt : s.now+a.elapsed < start+Duration.fromSecs 60)
    (hroom : ∀ (b : Budget) limit, b.limit limits = some limit →
      s.spentAt b a.node+b.asked a.request ≤ limit) :
    ∃ t, RateCluster.step k start delta s a = some t ∧ t.now = s.now+a.elapsed ∧ Granted limits a s t := by
  obtain ⟨t,ht⟩ := step_enabled delta hk hlt
  obtain ⟨-,hnow,-,-,-,hcases⟩ := h.step_cases ht
  refine ⟨t,ht,hnow,hcases.resolve_left ?_⟩
  rintro ⟨⟨b,limit,hl,hx⟩,-⟩
  have := hroom b limit hl
  omega

/-- An acquire of one unit of one budget. -/
def unit : Budget → AcquirePermit
  | .requests => ⟨1,0⟩
  | .tokens => ⟨0,1⟩

theorem asked_unit (b c : Budget) : c.asked (unit b) = if c = b then 1 else 0 := by
  cases b <;> cases c <;> rfl

theorem asked_unit_lt (b c : Budget) : c.asked (unit b) < 2^32 := by
  rw [asked_unit]
  split <;> decide

omit [GCounter γ] in
theorem Separate.room_for_unit (h : Separate limits k start s) {b : Budget} {i : ℕ}
    (hroom : ∀ limit, b.limit limits = some limit → s.spentAt b i+1 ≤ limit) (c : Budget) (limit : ℕ)
    (hl : c.limit limits = some limit) : s.spentAt c i+c.asked (unit b) ≤ limit := by
  rw [asked_unit]
  split
  case isTrue hc =>
    subst hc
    exact hroom limit hl
  case isFalse hc => exact h.within c limit hl i

/-- The first node alone can use a whole budget up. -/
theorem exists_run_spending (ids : ℕ → String) (limits : RateLimits) (start : ℕ)
    (delta : γ → GCounter.Delta γ) (hk : 0 < k) (b : Budget) (n : ℕ)
    (hn : ∀ limit, b.limit limits = some limit → n ≤ limit) :
    ∃ as s, (∀ a ∈ as, ∀ c : Budget, c.asked a.request < 2^32) ∧
      exec (step k start delta) (init γ ids limits start) as = some s ∧ s.now = start ∧
      s.granted b = n ∧ s.spentAt b 0 = n ∧ ∀ i, i ≠ 0 → s.spentAt b i = 0 := by
  induction n with
  | zero =>
    refine ⟨[],init γ ids limits start,?_,rfl,rfl,rfl,?_,?_⟩
    · simp
    · cases b <;> rfl
    · intro i _
      cases b <;> rfl
  | succ n ih =>
    obtain ⟨as,s,hsmall,hrun,hnow,hgranted,hzero,hothers⟩ := ih fun limit hl => by
      have := hn limit hl
      omega
    have hsep := separate_exec hrun
    have hminute : 0 < Duration.fromSecs 60 := by decide
    obtain ⟨t,ht,htnow,-,htgranted,htspent⟩ := hsep.grants delta (a := ⟨0,0,unit b⟩) hk
      (by simp only [hnow]; omega) (hsep.room_for_unit (by rw [hzero]; exact hn))
    have hone : b.asked (unit b) = 1 := by rw [asked_unit,if_pos rfl]
    refine ⟨as++[⟨0,0,unit b⟩],t,?_,exec_snoc_iff.mpr ⟨s,hrun,ht⟩,htnow.trans hnow,?_,?_,?_⟩
    · exact all_of_snoc hsmall (asked_unit_lt b)
    · rw [htgranted,hgranted,hone]
    · rw [htspent,hzero,if_pos rfl,hone]
    · intro i hi
      rw [htspent,hothers i hi,if_neg hi]

/-- Two nodes can grant one more than a limit that is not zero. -/
theorem exists_run_exceeding (ids : ℕ → String) (limits : RateLimits) (start : ℕ)
    (delta : γ → GCounter.Delta γ) (hk : 2 ≤ k) {b : Budget} {limit : ℕ} (hl : b.limit limits = some limit)
    (hpos : 0 < limit) :
    ∃ as s, (∀ a ∈ as, ∀ c : Budget, c.asked a.request < 2^32) ∧
      exec (step k start delta) (init γ ids limits start) as = some s ∧ s.granted b = limit+1 := by
  obtain ⟨as,s,hsmall,hrun,hnow,hgranted,-,hothers⟩ := exists_run_spending ids limits start delta
    (k := k) (by omega) b limit (fun l h => by rw [hl] at h; exact (Option.some.inj h).le)
  have hsep := separate_exec hrun
  have hminute : 0 < Duration.fromSecs 60 := by decide
  obtain ⟨t,ht,-,-,htgranted,-⟩ := hsep.grants delta (a := ⟨1,0,unit b⟩) hk
    (by simp only [hnow]; omega)
    (hsep.room_for_unit fun l h => by
      rw [hl] at h
      obtain rfl := Option.some.inj h
      rw [hothers 1 one_ne_zero]
      omega)
  refine ⟨as++[⟨1,0,unit b⟩],t,?_,exec_snoc_iff.mpr ⟨s,hrun,ht⟩,?_⟩
  · exact all_of_snoc hsmall (asked_unit_lt b)
  · rw [htgranted,hgranted,asked_unit,if_pos rfl]

/-- The cluster keeps to the limits that its nodes have exactly when there is only one of
them, or when the limits let nothing through; and no sum that a node forms leaves its word. -/
theorem cluster_within_limits_iff (ids : ℕ → String) (limits : RateLimits) (k start : ℕ)
    (delta : γ → GCounter.Delta γ) {R T : ℕ} (hR : limits.requestsPerMinute = some R)
    (hT : limits.tokensPerMinute = some T) (hR64 : R+2^32 ≤ 2^64) (hT64 : T+2^32 ≤ 2^64) :
    ((∀ as s, (∀ a ∈ as, ∀ b : Budget, b.asked a.request < 2^32) →
        exec (step k start delta) (init γ ids limits start) as = some s →
        s.granted .requests ≤ R ∧ s.granted .tokens ≤ T) ↔ k ≤ 1 ∨ R = 0 ∧ T = 0) ∧
    ∀ as s, exec (step k start delta) (init γ ids limits start) as = some s →
      ∀ (b : Budget) i n, n < 2^32 → s.spentAt b i+n < 2^64 := by
  refine ⟨⟨?_,?_⟩,?_⟩
  · intro hall
    by_contra hnot
    push Not at hnot
    obtain ⟨hk,hpos⟩ := hnot
    by_cases hr : R = 0
    · obtain ⟨as,s,hsmall,hrun,hgranted⟩ := exists_run_exceeding ids limits start delta hk
        (b := .tokens) hT (by have := hpos hr; omega)
      have := (hall as s hsmall hrun).2
      omega
    · obtain ⟨as,s,hsmall,hrun,hgranted⟩ := exists_run_exceeding ids limits start delta hk
        (b := .requests) hR (by omega)
      have := (hall as s hsmall hrun).1
      omega
  · intro hcond as s _ hrun
    have hreq := (separate_exec hrun).granted_le (b := .requests) hR
    have htok := (separate_exec hrun).granted_le (b := .tokens) hT
    rcases hcond with hk | ⟨rfl,rfl⟩
    · exact ⟨hreq.trans (by simpa using Nat.mul_le_mul_right R hk),
        htok.trans (by simpa using Nat.mul_le_mul_right T hk)⟩
    · exact ⟨hreq,htok⟩
  · intro as s hrun b i n hn
    cases b with
    | requests =>
      have := (separate_exec hrun).within .requests R hR i
      omega
    | tokens =>
      have := (separate_exec hrun).within .tokens T hT i
      omega

/-- A node on its own that is asked for more than its limit. -/
theorem cluster_within_limits_alone :
    ∃ s, exec (step 1 0 (fun c : String → ℕ => c)) (init (String → ℕ) (fun _ => "a")
        { requestsPerMinute := some 1, tokensPerMinute := some 100 } 0)
        [⟨0,0,⟨1,10⟩⟩,⟨0,1,⟨1,10⟩⟩] = some s ∧ s.granted .requests ≤ 1 ∧ s.granted .tokens ≤ 100 := by
  have hrun : ∃ s, exec (step 1 0 (fun c : String → ℕ => c)) (init (String → ℕ) (fun _ => "a")
      { requestsPerMinute := some 1, tokensPerMinute := some 100 } 0)
      [⟨0,0,⟨1,10⟩⟩,⟨0,1,⟨1,10⟩⟩] = some s := ⟨_,rfl⟩
  obtain ⟨s,hs⟩ := hrun
  refine ⟨s,hs,(cluster_within_limits_iff (fun _ => "a") _ 1 0 (fun c : String → ℕ => c) rfl rfl
    (by decide) (by decide)).1.mpr (.inl le_rfl) _ s ?_ hs⟩
  intro a ha b
  simp only [List.mem_cons,List.not_mem_nil,or_false] at ha
  rcases ha with rfl | rfl <;> cases b <;> decide

/-- Two nodes with a limit of two requests grant three, and the counter of the node that
grants the third one holds all three. -/
theorem cluster_grants_past_limit :
    ∃ s, exec (step 2 0 (fun c : String → ℕ => c)) (init (String → ℕ) (fun i => if i = 0 then "a" else "b")
        { requestsPerMinute := some 2, tokensPerMinute := some 100 } 0)
        [⟨0,0,⟨1,10⟩⟩,⟨1,1,⟨1,10⟩⟩,⟨0,1,⟨1,10⟩⟩] = some s ∧
      s.granted .requests = 3 ∧ (s.nodes 0).requestsCounter "a" = 2 ∧ (s.nodes 0).requestsCounter "b" = 1 :=
  ⟨_,rfl,rfl,rfl,rfl⟩

end RateCluster
end RakkaInference
