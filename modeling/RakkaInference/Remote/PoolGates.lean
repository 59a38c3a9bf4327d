import RakkaInference.Remote.WorkerPool

/-! The two gates before every attempt, over whole runs of a pool of workers: the breaker,
to which no worker reports what its attempts come to, and the rate limiter, of which no
worker asks a permit. -/
namespace RakkaInference
open Machine WorkerEvent

namespace WorkerPool
variable {γ : Type} [GCounter γ] {n i : ℕ} {engine : ℕ → RetryEngine} {s : WorkerPool γ}
  {provider : ProviderKind} {config : CircuitBreakerConfig} {nodeId : String} {limits : RateLimits}
  {epoch : ℕ}

/-- The same job, again and again. -/
theorem exec_dispatches (job : Job) (hi : i < n) (hp : s.phase i = .idle)
    (hc : ∀ now utcMs, s.breaker.check now utcMs = .ok ())
    (hin : ∀ l, (job.inputs l).check = .ok ()) (m : ℕ) : ∃ as, exec (step n engine) s as =
      some (s.play i .idle (List.replicate m
        (RakkaInference.dispatch ⟨s.limiter.handle,engine i⟩ job)).flatten) := by
  induction m generalizing s with
  | zero => exact ⟨[],by simp [play_nil hp]⟩
  | succ m ih =>
    obtain ⟨as,has⟩ := exec_dispatch hi hp hc hin
    obtain ⟨bs,hbs⟩ := ih (s := s.play i .idle
      (RakkaInference.dispatch ⟨s.limiter.handle,engine i⟩ job)) (play_phase _ _ _ _) hc
    refine ⟨as++bs,exec_append_iff.mpr ⟨_,has,?_⟩⟩
    rw [hbs,play_play,List.replicate_succ,List.flatten_cons]
    rfl

section Breaker

/-- The attempts that have ended one after the other in a counted failure, up to the
latest, and when the latest such failure was. -/
structure Streak where
  count : ℕ := 0
  lastAt : ℕ := 0

namespace Streak

def next (k : Streak) (x : Logged) : Streak :=
  match x.event with
  | .ended (.failed err) => if err.countsAsCircuitFailure then ⟨k.count+1,x.time⟩ else ⟨0,k.lastAt⟩
  | .ended _ => ⟨0,k.lastAt⟩
  | _ => k

end Streak

def streak (log : List Logged) : Streak := log.foldl Streak.next {}

/-- An attempt that starts within the open period after a full streak is refused, and the
runner is not called for it. -/
def FailsFast (threshold openDuration : ℕ) (log : List Logged) : Prop :=
  ∀ pre x post answer, log = pre++x::post → x.event = .check answer →
    threshold ≤ (streak pre).count → (streak pre).lastAt ≤ x.time →
    x.time < (streak pre).lastAt+openDuration →
    (∃ p o r, answer = .error (.circuitOpen p o r)) ∧
      ∀ y, post.find? (fun y => y.worker == x.worker) = some y → ∀ batch, y.event ≠ .execute batch

def ping : PriorityRequest := ⟨.normal,0,⟨"r","m",[],{},true,1⟩,0⟩

/-- A request whose every attempt times out. -/
def doomed : Job where
  request := ping
  inputs := fun _ => ⟨.ok (),.failed (.timeout 0)⟩
  room := none

/-- Its attempts add to the streak, and the last of them ends with the dispatch. -/
theorem foldl_doomed (slot : WorkerSlot) (batch : ExecuteBatch) (room : Option ℕ) (k : ℕ)
    (now : ℕ) (st : Streak) : ∃ m, st.count < m ∧
      (logOf i now (executeWithRetries slot batch doomed.inputs room k).events).foldl Streak.next st =
        ⟨m,now+slept (executeWithRetries slot batch doomed.inputs room k).events⟩ := by
  induction room,k using executeWithRetries_induction slot doomed.inputs generalizing now st with
  | refused room k err hc => cases hc
  | finished room k hc hf => exact absurd rfl (hf (.timeout 0))
  | gaveUp room k err hc hf hd =>
    cases hf
    rw [executeWithRetries_gaveUp hc rfl hd]
    exact ⟨st.count+1,Nat.lt_succ_self _,rfl⟩
  | retried room k err after hc hf hd ih =>
    cases hf
    rw [executeWithRetries_retried hc rfl hd]
    obtain ⟨m,hm,heq⟩ := ih (now+after) ⟨st.count+1,now⟩
    refine ⟨m,Nat.lt_of_succ_lt hm,?_⟩
    set rest := executeWithRetries slot batch doomed.inputs room (k+1)
    change (logOf i (now+after) rest.events).foldl Streak.next ⟨st.count+1,now⟩ =
      ⟨m,now+slept ([.check (.ok ()),.execute batch,.ended (.failed (.timeout 0)),.sleep after]++rest.events)⟩
    have hslept : slept [.check (.ok ()),.execute batch,.ended (.failed (.timeout 0)),.sleep after] =
        after := by simp [slept,duration]
    rw [slept_append,hslept,← Nat.add_assoc]
    exact heq

theorem foldl_closing (now : ℕ) (st : Streak) (out : Outcome) :
    (logOf i now (closing out)).foldl Streak.next st = st ∧ slept (closing out) = 0 := by
  unfold closing
  cases out.result with
  | error err => exact ⟨rfl,rfl⟩
  | ok u => exact ⟨rfl,rfl⟩

theorem foldl_dispatch_doomed (slot : WorkerSlot) (now : ℕ) (st : Streak) : ∃ m, st.count < m ∧
    (logOf i now (RakkaInference.dispatch slot doomed)).foldl Streak.next st =
      ⟨m,now+slept (RakkaInference.dispatch slot doomed)⟩ := by
  obtain ⟨m,hm,heq⟩ := foldl_doomed (i := i) slot doomed.request.batch doomed.room 0 now st
  refine ⟨m,hm,?_⟩
  rw [RakkaInference.dispatch,logOf_append,List.foldl_append,heq,(foldl_closing _ _ _).1,slept_append,
    (foldl_closing (i := i) now st _).2,Nat.add_zero]

/-- Enough doomed requests make a full streak whose last failure is right now. -/
theorem foldl_dispatches_doomed (slot : WorkerSlot) (m now : ℕ) (st : Streak) :
    ∃ c, st.count+m < c ∧
      (logOf i now (List.replicate (m+1) (RakkaInference.dispatch slot doomed)).flatten).foldl
        Streak.next st =
        ⟨c,now+slept (List.replicate (m+1) (RakkaInference.dispatch slot doomed)).flatten⟩ := by
  induction m generalizing now st with
  | zero =>
    obtain ⟨c,hc,heq⟩ := foldl_dispatch_doomed (i := i) slot now st
    exact ⟨c,hc,by simpa using heq⟩
  | succ m ih =>
    obtain ⟨c,hc,heq⟩ := foldl_dispatch_doomed (i := i) slot now st
    obtain ⟨d,hd,hrest⟩ := ih (now+slept (RakkaInference.dispatch slot doomed))
      ⟨c,now+slept (RakkaInference.dispatch slot doomed)⟩
    refine ⟨d,by simp only at hd; omega,?_⟩
    rw [List.replicate_succ,List.flatten_cons,logOf_append,List.foldl_append,heq,hrest,slept_append,
      Nat.add_assoc]

/-- Whatever the breaker's threshold and the workers' retry policies are, the pool fails
fast in every run only if the open period is empty. -/
theorem failsFast_iff (n : ℕ) (engine : ℕ → RetryEngine) (provider : ProviderKind)
    (config : CircuitBreakerConfig) (nodeId : String) (limits : RateLimits) (epoch : ℕ) :
    (∀ (as : List WorkerAction) (s : WorkerPool γ),
      exec (step (n+1) engine) (init provider config nodeId limits epoch) as = some s →
      FailsFast config.failureThreshold.toNat config.openDuration s.log) ↔
    config.openDuration = 0 := by
  constructor
  · intro h
    by_contra hD
    let s₀ : WorkerPool γ := init provider config nodeId limits epoch
    let trace := (List.replicate (config.failureThreshold.toNat+1)
      (RakkaInference.dispatch ⟨s₀.limiter.handle,engine 0⟩ doomed)).flatten
    obtain ⟨as,has⟩ : ∃ as, exec (step (n+1) engine) s₀ as = some (s₀.play 0 .idle trace) :=
      exec_dispatches doomed (Nat.succ_pos n) rfl
        (fun now utcMs => check_new provider config epoch now utcMs) (fun _ => rfl) _
    obtain ⟨c,hc,hstreak⟩ := foldl_dispatches_doomed (i := 0) ⟨s₀.limiter.handle,engine 0⟩
      config.failureThreshold.toNat epoch {}
    -- one more attempt, at the moment of the last failure
    have hready : step (n+1) engine (s₀.play 0 .idle trace) (.dispatch 0 ping) =
        some ((s₀.play 0 .idle trace).move 0 (.ready ping 0) []) := by
      simp [step]
    have hstart : step (n+1) engine ((s₀.play 0 .idle trace).move 0 (.ready ping 0) [])
        (.attempt 0 0 true) = some (((s₀.play 0 .idle trace).move 0 (.ready ping 0) []).move 0
          (.executing ping 0) [.check (.ok ()),.execute ping.batch]) := by
      have hpass := check_new provider config epoch (s₀.play 0 .idle trace).now 0
      simp only [step,move,Function.update_self,acquirePermit]
      rw [show (s₀.play 0 .idle trace).breaker = .new provider config epoch from rfl,hpass]
    have hrun := exec_append_iff.mpr ⟨_,has,exec_cons_iff.mpr ⟨_,hready,
      exec_cons_iff.mpr ⟨_,hstart,exec_nil _⟩⟩⟩
    have hpre : streak (logOf 0 epoch trace) = ⟨c,epoch+slept trace⟩ := hstreak
    obtain ⟨⟨p,o,r,hr⟩,-⟩ := h _ _ hrun (logOf 0 epoch trace)
      ⟨epoch+slept trace,0,.check (.ok ())⟩ [⟨epoch+slept trace,0,.execute ping.batch⟩] (.ok ())
      (by simp [move,play,s₀,init]) rfl (by rw [hpre]; simp only at hc ⊢; omega) (by rw [hpre])
      (by rw [hpre]; simp only; omega)
    contradiction
  · intro hD as s _ pre x post answer _ _ _ hle hlt
    omega

def timedOutTwice : List WorkerAction :=
  [.dispatch 0 ping,.attempt 0 0 true,.fail 0 (.timeout 0) true,
    .dispatch 0 ping,.attempt 0 0 true]

/-- One counted failure should open this breaker for ten nanoseconds, and at the very moment
of the failure the next attempt calls the runner. -/
theorem failsFast_fails_at_once : ∃ s : WorkerPool (String → ℕ),
    exec (step 1 fun _ => .new {} false)
      (init .openAi { failureThreshold := 1, openDuration := 10 } "node" {} 0) timedOutTwice = some s ∧
    s.log.map Logged.event = [.check (.ok ()),.execute ping.batch,
      .ended (.failed (.timeout 0)),.sendError (.timeout 0) true,.idle,
      .check (.ok ()),.execute ping.batch] ∧
    s.log.map Logged.time = [0,0,0,0,0,0,0] ∧ ¬ FailsFast 1 10 s.log := by
  refine ⟨_,rfl,rfl,rfl,fun h => ?_⟩
  obtain ⟨⟨p,o,r,hr⟩,-⟩ := h ([⟨0,0,.check (.ok ())⟩,⟨0,0,.execute ping.batch⟩,
    ⟨0,0,.ended (.failed (.timeout 0))⟩,⟨0,0,.sendError (.timeout 0) true⟩,⟨0,0,.idle⟩])
    ⟨0,0,.check (.ok ())⟩ [⟨0,0,.execute ping.batch⟩] (.ok ()) rfl rfl (by decide)
    (by decide) (by decide)
  cases hr

end Breaker

section Limiter

/-- The calls of the runner that start in the sixty seconds from `w` on. -/
def executedIn (w : ℕ) (log : List Logged) : List ExecuteBatch :=
  (log.filter fun x => w ≤ x.time ∧ x.time < w+Duration.fromSecs 60).filterMap fun x => x.event.batch?

/-- In the window of the limiter no more calls are started, and no more tokens asked for,
than its limits allow. -/
def WithinLimits (requests tokens : ℕ) (s : WorkerPool γ) : Prop :=
  ∀ w, s.limiter.window.startedAt = some w →
    (executedIn w s.log).length ≤ requests ∧
    ((executedIn w s.log).map ExecuteBatch.estimatedTokens).sum ≤ tokens

/-- A request that completes at once. -/
def quick (batch : ExecuteBatch) : Job where
  request := ⟨.normal,0,batch,0⟩
  inputs := fun _ => ⟨.ok (),.streaming []⟩
  room := none

theorem dispatch_quick (slot : WorkerSlot) (batch : ExecuteBatch) :
    RakkaInference.dispatch slot (quick batch) = [.check (.ok ()),.execute batch,.ended .completed,.idle] := by
  rw [RakkaInference.dispatch,executeWithRetries_finished rfl (by simp [runExecution,quick,forward])]
  rfl

theorem slept_quicks (slot : WorkerSlot) (batch : ExecuteBatch) (m : ℕ) :
    slept (List.replicate m (RakkaInference.dispatch slot (quick batch))).flatten = 0 := by
  induction m with
  | zero => rfl
  | succ m ih =>
    rw [List.replicate_succ,List.flatten_cons,slept_append,ih,dispatch_quick]
    rfl

/-- Each of them is one call, all at the same moment. -/
theorem executedIn_quicks (slot : WorkerSlot) (batch : ExecuteBatch) (now m : ℕ) :
    executedIn now
        (logOf i now (List.replicate m (RakkaInference.dispatch slot (quick batch))).flatten) =
      List.replicate m batch := by
  rw [logOf_eq_map (slept_quicks slot batch m)]
  have hall : ∀ events : List WorkerEvent,
      executedIn now (events.map fun ev => ⟨now,i,ev⟩) = events.filterMap batch? := by
    intro events
    rw [executedIn,List.filter_eq_self.mpr]
    · simp [List.filterMap_map]
    · intro x hx
      obtain ⟨ev,-,rfl⟩ := List.mem_map.mp hx
      simp [Duration.fromSecs]
  rw [hall]
  induction m with
  | zero => rfl
  | succ m ih =>
    rw [List.replicate_succ,List.flatten_cons,List.filterMap_append,ih,dispatch_quick]
    rfl

/-- No limits are kept in every run, for no kind of request: once a window has been
started, any number of calls go through in it, whatever the limiter has granted. -/
theorem exceeds_limits (n : ℕ) (engine : ℕ → RetryEngine) (provider : ProviderKind)
    (config : CircuitBreakerConfig) (nodeId : String) (limits : RateLimits) (epoch requests tokens : ℕ)
    (batch : ExecuteBatch) :
    ∃ (as : List WorkerAction) (s : WorkerPool γ) (w : ℕ), exec (step (n+1) engine)
      (init provider config nodeId { limits with
        requestsPerMinute := some requests
        tokensPerMinute := some tokens } epoch) as = some s ∧
      s.limiter.window.startedAt = some w ∧ (∀ b ∈ executedIn w s.log, b = batch) ∧
      requests < (executedIn w s.log).length ∧
      tokens < ((executedIn w s.log).map ExecuteBatch.estimatedTokens).sum ∧
      ¬ WithinLimits requests tokens s := by
  let s₀ : WorkerPool γ := init provider config nodeId { limits with
    requestsPerMinute := some requests
    tokensPerMinute := some tokens } epoch
  let s₁ : WorkerPool γ := { s₀ with limiter := (s₀.limiter.acquire epoch ⟨1,1⟩).1 }
  let trace := (List.replicate (max requests tokens+1)
    (RakkaInference.dispatch ⟨s₁.limiter.handle,engine 0⟩ (quick batch))).flatten
  have hstarted : s₁.limiter.window.startedAt = some epoch := RateLimiterActor.acquire_startedAt rfl _
  obtain ⟨as,has⟩ : ∃ as, exec (step (n+1) engine) s₁ as = some (s₁.play 0 .idle trace) :=
    exec_dispatches (quick batch) (Nat.succ_pos n) rfl
      (fun now utcMs => check_new provider config epoch now utcMs) (fun _ => rfl) _
  have hexec : executedIn epoch (s₁.play 0 .idle trace).log =
      List.replicate (max requests tokens+1) batch := by
    rw [← executedIn_quicks (i := 0) ⟨s₁.limiter.handle,engine 0⟩]
    rfl
  have hcalls : requests < (executedIn epoch (s₁.play 0 .idle trace).log).length := by
    rw [hexec,List.length_replicate]
    omega
  refine ⟨.acquire ⟨1,1⟩::as,_,epoch,exec_cons_iff.mpr ⟨s₁,rfl,has⟩,hstarted,?_,hcalls,?_,fun h => ?_⟩
  · intro b hb
    rw [hexec] at hb
    exact List.eq_of_mem_replicate hb
  · rw [hexec,List.map_replicate,List.sum_replicate_nat]
    calc tokens < (max requests tokens+1)*1 := by omega
      _ ≤ (max requests tokens+1)*batch.estimatedTokens :=
        Nat.mul_le_mul_left _ batch.one_le_estimatedTokens
  · exact absurd (h epoch hstarted).1 (by omega)

def twoCalls : List WorkerAction :=
  [.acquire ⟨1,1⟩,.dispatch 0 ping,.attempt 0 0 true,.opened 0,.finish 0,
    .dispatch 0 ping,.attempt 0 0 true]

/-- A limiter that allows one request a minute and has granted it to somebody else, and two
calls of one worker in the same window. -/
theorem withinLimits_fails_two_calls : ∃ s : WorkerPool (String → ℕ),
    exec (step 1 fun _ => .new {} true)
      (init .openAi {} "node" { requestsPerMinute := some 1, tokensPerMinute := some 1 } 0)
      twoCalls = some s ∧
    s.limiter.window = ⟨some 0,1,1⟩ ∧ executedIn 0 s.log = [ping.batch,ping.batch] ∧
    ¬ WithinLimits 1 1 s := by
  refine ⟨_,rfl,rfl,rfl,fun h => ?_⟩
  have hle := (h 0 rfl).1
  exact absurd hle (by decide)

end Limiter
end WorkerPool
end RakkaInference
