import RakkaInference.Machine.Runs
import RakkaInference.Remote.CircuitBreaker
import RakkaInference.Remote.WorkerTrace

/-! Interleavings of workers that share one breaker and one rate limiter. A worker gives up
control where its loop awaits: in the mailbox, in the call of the runner, in the stream,
and in the sleep before a retry. The runners leave the breaker alone. -/
namespace RakkaInference
open Machine WorkerEvent

/-- Where a worker is in its loop, with the request and the number of the attempt. -/
inductive Phase
  | idle
  | ready (req : PriorityRequest) (attempt : ℕ)
  | executing (req : PriorityRequest) (attempt : ℕ)
  | streaming (req : PriorityRequest) (attempt : ℕ)
  | sleeping (req : PriorityRequest) (attempt wakeAt : ℕ)

/-- An event with the time and the worker it belongs to. -/
structure Logged where
  time : ℕ
  worker : ℕ
  event : WorkerEvent

structure WorkerPool (γ : Type) where
  now : ℕ
  breaker : CircuitBreakerHandle
  limiter : RateLimiterActor γ
  phase : ℕ → Phase
  log : List Logged

inductive WorkerAction
  | tick (ns : ℕ)
  | dispatch (i : ℕ) (req : PriorityRequest)
  /-- The gates and, if they let it through, the start of the call. -/
  | attempt (i : ℕ) (utcMs : ℤ) (delivered : Bool)
  /-- The call returns a stream. -/
  | opened (i : ℕ)
  | item (i : ℕ) (chunk : TokenChunk) (delivered : Bool)
  /-- The call, or its stream, fails. -/
  | fail (i : ℕ) (err : InferenceError) (delivered : Bool)
  | finish (i : ℕ)
  | wake (i : ℕ)
  /-- Somebody else asks the limiter for a permit. -/
  | acquire (req : AcquirePermit)

namespace WorkerPool
variable {γ : Type} [GCounter γ]

def init (provider : ProviderKind) (config : CircuitBreakerConfig) (nodeId : String)
    (limits : RateLimits) (epoch : ℕ) : WorkerPool γ :=
  ⟨epoch,.new provider config epoch,.new nodeId limits,fun _ => .idle,[]⟩

/-- Worker `i` logs events and moves on. -/
def move (s : WorkerPool γ) (i : ℕ) (p : Phase) (events : List WorkerEvent) : WorkerPool γ :=
  { s with
    phase := Function.update s.phase i p
    log := s.log++events.map fun ev => ⟨s.now,i,ev⟩ }

/-- One action of a pool of `n` workers. -/
def step (n : ℕ) (engine : ℕ → RetryEngine) (s : WorkerPool γ) : WorkerAction → Option (WorkerPool γ)
  | .tick ns => some { s with now := s.now+ns }
  | .dispatch i req =>
    match s.phase i with
    | .idle => if i < n then some (s.move i (.ready req 0) []) else none
    | _ => none
  | .attempt i utcMs delivered =>
    match s.phase i with
    | .ready req k =>
      match acquirePermit ⟨s.limiter.handle,engine i⟩ req.batch with
      | .error err => some (s.move i .idle [.sendError err delivered,.idle])
      | .ok _ =>
        match s.breaker.check s.now utcMs with
        | .error err => some (s.move i .idle [.check (.error err),.sendError err delivered,.idle])
        | .ok _ => some (s.move i (.executing req k) [.check (.ok ()),.execute req.batch])
    | _ => none
  | .opened i =>
    match s.phase i with
    | .executing req k => some (s.move i (.streaming req k) [])
    | _ => none
  | .item i chunk delivered =>
    match s.phase i with
    | .streaming req k =>
      if delivered then some (s.move i (.streaming req k) [.send k chunk true])
      else some (s.move i .idle [.send k chunk false,.ended .cancelled,.idle])
    | _ => none
  | .fail i err delivered =>
    match s.phase i with
    | .executing req k | .streaming req k =>
      match (engine i).decide k err with
      | .retry after => some (s.move i (.sleeping req (k+1) (s.now+after))
          [.ended (.failed err),.sleep after])
      | .giveUp => some (s.move i .idle [.ended (.failed err),.sendError err delivered,.idle])
    | _ => none
  | .finish i =>
    match s.phase i with
    | .streaming _ _ => some (s.move i .idle [.ended .completed,.idle])
    | _ => none
  | .wake i =>
    match s.phase i with
    | .sleeping req k wakeAt => if wakeAt ≤ s.now then some (s.move i (.ready req k) []) else none
    | _ => none
  | .acquire req => some { s with limiter := (s.limiter.acquire s.now req).1 }

/-- What a worker can do in its phase: the phase that it goes to and the events that it
logs. -/
inductive Move (e : RetryEngine) (breaker : CircuitBreakerHandle) (now : ℕ) :
    Phase → Phase → List WorkerEvent → Prop
  | dispatch (req : PriorityRequest) : Move e breaker now .idle (.ready req 0) []
  | refused {req : PriorityRequest} {k : ℕ} {utcMs : ℤ} {err : InferenceError} {delivered : Bool}
      (hc : breaker.check now utcMs = .error err) :
      Move e breaker now (.ready req k) .idle [.check (.error err),.sendError err delivered,.idle]
  | start {req : PriorityRequest} {k : ℕ} {utcMs : ℤ} (hc : breaker.check now utcMs = .ok ()) :
      Move e breaker now (.ready req k) (.executing req k) [.check (.ok ()),.execute req.batch]
  | opened {req : PriorityRequest} {k : ℕ} :
      Move e breaker now (.executing req k) (.streaming req k) []
  | send {req : PriorityRequest} {k : ℕ} {chunk : TokenChunk} :
      Move e breaker now (.streaming req k) (.streaming req k) [.send k chunk true]
  | cancel {req : PriorityRequest} {k : ℕ} {chunk : TokenChunk} :
      Move e breaker now (.streaming req k) .idle [.send k chunk false,.ended .cancelled,.idle]
  | retry {req : PriorityRequest} {k after : ℕ} {p : Phase} {err : InferenceError}
      (hp : p = .executing req k ∨ p = .streaming req k) (hd : e.decide k err = .retry after) :
      Move e breaker now p (.sleeping req (k+1) (now+after)) [.ended (.failed err),.sleep after]
  | giveUp {req : PriorityRequest} {k : ℕ} {p : Phase} {err : InferenceError} {delivered : Bool}
      (hp : p = .executing req k ∨ p = .streaming req k) (hd : e.decide k err = .giveUp) :
      Move e breaker now p .idle [.ended (.failed err),.sendError err delivered,.idle]
  | finish {req : PriorityRequest} {k : ℕ} :
      Move e breaker now (.streaming req k) .idle [.ended .completed,.idle]
  | wake {req : PriorityRequest} {k wakeAt : ℕ} (ht : wakeAt ≤ now) :
      Move e breaker now (.sleeping req k wakeAt) (.ready req k) []

variable {n : ℕ} {engine : ℕ → RetryEngine} {s t : WorkerPool γ} {a : WorkerAction}

/-- A call or a stream that fails is retried or given up. -/
theorem move_of_fail {i k : ℕ} {req : PriorityRequest} {err : InferenceError} {delivered : Bool}
    (hp : s.phase i = .executing req k ∨ s.phase i = .streaming req k)
    (h : step n engine s (.fail i err delivered) = some t) :
    ∃ q events, Move (engine i) s.breaker s.now (s.phase i) q events ∧ t = s.move i q events := by
  have hstep : step n engine s (.fail i err delivered) = match (engine i).decide k err with
      | .retry after => some (s.move i (.sleeping req (k+1) (s.now+after))
          [.ended (.failed err),.sleep after])
      | .giveUp => some (s.move i .idle [.ended (.failed err),.sendError err delivered,.idle]) := by
    rcases hp with hp | hp
    · simp only [step,hp]
    · simp only [step,hp]
  rw [hstep] at h
  cases hd : (engine i).decide k err with
  | retry after =>
    simp only [hd,Option.some.injEq] at h
    exact ⟨_,_,.retry hp hd,h.symm⟩
  | giveUp =>
    simp only [hd,Option.some.injEq] at h
    exact ⟨_,_,.giveUp hp hd,h.symm⟩

/-- Time passes, the limiter is asked, or a worker moves on. -/
theorem step_cases (h : step n engine s a = some t) :
    (∃ ns, a = .tick ns ∧ t = { s with now := s.now+ns }) ∨
    (∃ req, a = .acquire req ∧ t = { s with limiter := (s.limiter.acquire s.now req).1 }) ∨
    (∃ i q events, Move (engine i) s.breaker s.now (s.phase i) q events ∧ t = s.move i q events) := by
  cases a with
  | tick ns => exact .inl ⟨ns,rfl,(Option.some.inj h).symm⟩
  | acquire req => exact .inr (.inl ⟨req,rfl,(Option.some.inj h).symm⟩)
  | dispatch i req =>
    refine .inr (.inr ⟨i,.ready req 0,[],?_⟩)
    cases hp : s.phase i <;> simp only [step,hp,reduceCtorEq] at h
    split at h
    · exact ⟨.dispatch req,(Option.some.inj h).symm⟩
    · contradiction
  | attempt i utcMs delivered =>
    refine .inr (.inr ⟨i,?_⟩)
    cases hp : s.phase i <;> simp only [step,hp,acquirePermit,reduceCtorEq] at h
    cases hc : s.breaker.check s.now utcMs with
    | error err =>
      simp only [hc,Option.some.injEq] at h
      exact ⟨_,_,.refused hc,h.symm⟩
    | ok u =>
      simp only [hc,Option.some.injEq] at h
      exact ⟨_,_,.start hc,h.symm⟩
  | opened i =>
    refine .inr (.inr ⟨i,?_⟩)
    cases hp : s.phase i <;> simp only [step,hp,reduceCtorEq,Option.some.injEq] at h
    exact ⟨_,_,.opened,h.symm⟩
  | item i chunk delivered =>
    refine .inr (.inr ⟨i,?_⟩)
    cases hp : s.phase i <;> simp only [step,hp,reduceCtorEq] at h
    split at h
    · exact ⟨_,_,.send,(Option.some.inj h).symm⟩
    · exact ⟨_,_,.cancel,(Option.some.inj h).symm⟩
  | fail i err delivered =>
    refine .inr (.inr ⟨i,?_⟩)
    cases hp : s.phase i with
    | executing req k =>
      rw [← hp]
      exact move_of_fail (.inl hp) h
    | streaming req k =>
      rw [← hp]
      exact move_of_fail (.inr hp) h
    | idle => simp only [step,hp,reduceCtorEq] at h
    | ready req k => simp only [step,hp,reduceCtorEq] at h
    | sleeping req k wakeAt => simp only [step,hp,reduceCtorEq] at h
  | finish i =>
    refine .inr (.inr ⟨i,?_⟩)
    cases hp : s.phase i <;> simp only [step,hp,reduceCtorEq,Option.some.injEq] at h
    exact ⟨_,_,.finish,h.symm⟩
  | wake i =>
    refine .inr (.inr ⟨i,?_⟩)
    cases hp : s.phase i <;> simp only [step,hp,reduceCtorEq] at h
    split at h
    · exact ⟨_,_,.wake ‹_›,(Option.some.inj h).symm⟩
    · contradiction

/-- What a worker logs of a check is the breaker's answer. -/
theorem Move.check_of_mem {e : RetryEngine} {breaker : CircuitBreakerHandle} {now : ℕ} {p q : Phase}
    {events : List WorkerEvent} {answer : Except InferenceError Unit}
    (h : Move e breaker now p q events) (ha : .check answer ∈ events) :
    ∃ utcMs, breaker.check now utcMs = answer := by
  cases h with
  | @refused req k utcMs err delivered hc =>
    have heq : answer = .error err := by simpa using ha
    exact ⟨utcMs,hc.trans heq.symm⟩
  | @start req k utcMs hc =>
    have heq : answer = .ok () := by simpa using ha
    exact ⟨utcMs,hc.trans heq.symm⟩
  | dispatch | opened | send | cancel | retry | giveUp | finish | wake => simp at ha

/-- No action of the pool reports to the breaker. -/
theorem breaker_step (h : step n engine s a = some t) : t.breaker = s.breaker := by
  rcases step_cases h with ⟨ns,-,rfl⟩ | ⟨req,-,rfl⟩ | ⟨i,q,events,-,rfl⟩
  · rfl
  · rfl
  · rfl

/-- A fresh breaker lets everything through. -/
theorem check_new (provider : ProviderKind) (config : CircuitBreakerConfig) (epoch now : ℕ) (utcMs : ℤ) :
    (CircuitBreakerHandle.new provider config epoch).check now utcMs = .ok () := by
  rw [CircuitBreakerHandle.check_eq_ok_iff]
  have hclosed : (CircuitBreakerHandle.new provider config epoch).state now = .closed :=
    (CircuitBreakerHandle.state_eq_closed_iff rfl).mpr rfl
  rw [hclosed]
  decide

/-- In every run of the pool the breaker is as it was made and refuses nobody, whatever the
attempts have come to. -/
theorem checks_pass {provider : ProviderKind} {config : CircuitBreakerConfig} {nodeId : String}
    {limits : RateLimits} {epoch : ℕ} {as : List WorkerAction}
    (h : exec (step n engine) (init provider config nodeId limits epoch) as = some s) :
    s.breaker = .new provider config epoch ∧
      ∀ x ∈ s.log, ∀ answer, x.event = .check answer → answer = .ok () := by
  refine exec_preserves (I := fun s : WorkerPool γ => s.breaker = .new provider config epoch ∧
    ∀ x ∈ s.log, ∀ answer, x.event = .check answer → answer = .ok ()) ?_ ⟨rfl,by simp [init]⟩ h
  rintro s a t ⟨hb,hlog⟩ hstep
  refine ⟨(breaker_step hstep).trans hb,?_⟩
  rcases step_cases hstep with ⟨ns,-,rfl⟩ | ⟨req,-,rfl⟩ | ⟨i,q,events,hmove,rfl⟩
  · exact hlog
  · exact hlog
  · intro x hx answer hxa
    rcases List.mem_append.mp hx with hx | hx
    · exact hlog x hx answer hxa
    · obtain ⟨ev,hev,rfl⟩ := List.mem_map.mp hx
      obtain rfl : ev = .check answer := hxa
      obtain ⟨utcMs,hc⟩ := hmove.check_of_mem hev
      rw [hb,check_new] at hc
      exact hc.symm

section Sessions

/-- What worker `i` has logged. -/
def eventsOf (i : ℕ) (log : List Logged) : List WorkerEvent :=
  (log.filter fun x => x.worker == i).map Logged.event

/-- What goes before a session from attempt `k` on. -/
def Leads (engine : RetryEngine) (batch : ExecuteBatch) (k : ℕ) (events : List WorkerEvent) : Prop :=
  ∀ rest, Session engine batch k rest → Session engine batch 0 (events++rest)

/-- What leads up to attempt `k`, and that attempt as far as it has come. -/
def Underway (engine : RetryEngine) (batch : ExecuteBatch) (k : ℕ) (events : List WorkerEvent) : Prop :=
  ∃ before sends, IsSends k sends ∧ events = before++.check (.ok ())::.execute batch::sends ∧
    Leads engine batch k before

/-- The events of a session that is not over, by the phase of the worker. -/
def Pending (engine : RetryEngine) (events : List WorkerEvent) : Phase → Prop
  | .idle => events = []
  | .ready req k | .sleeping req k _ => Leads engine req.batch k events
  | .executing req k | .streaming req k => Underway engine req.batch k events

/-- The log of a worker is one session after the other, and maybe one that is not over. -/
def Ordered (engine : RetryEngine) (events : List WorkerEvent) (p : Phase) : Prop :=
  ∃ (past : List (List WorkerEvent)) (current : List WorkerEvent),
    events = past.flatten++current ∧ (∀ d ∈ past, ∃ batch, Session engine batch 0 d) ∧
    Pending engine current p

omit [GCounter γ] in
theorem eventsOf_move (i j : ℕ) (p : Phase) (events : List WorkerEvent) :
    eventsOf j (s.move i p events).log =
      if i = j then eventsOf j s.log++events else eventsOf j s.log := by
  have hfilter : ∀ b : Bool, ((events.map fun ev => (⟨s.now,i,ev⟩ : Logged)).filter fun _ => b).map
      Logged.event = if b then events else [] := by
    intro b
    cases b <;> simp [Function.comp_def]
  have hcongr : ((events.map fun ev => (⟨s.now,i,ev⟩ : Logged)).filter fun x => x.worker == j) =
      (events.map fun ev => (⟨s.now,i,ev⟩ : Logged)).filter fun _ => i == j := by
    apply List.filter_congr
    intro x hx
    obtain ⟨ev,-,rfl⟩ := List.mem_map.mp hx
    rfl
  rw [eventsOf,move,List.filter_append,List.map_append,hcongr,hfilter]
  by_cases h : i = j <;> simp [eventsOf,h]

section Moves
variable {e : RetryEngine} {events new : List WorkerEvent} {p q : Phase}

/-- The session goes on. -/
theorem Ordered.extend (h : Ordered e events p)
    (hp : ∀ current, Pending e current p → Pending e (current++new) q) :
    Ordered e (events++new) q := by
  obtain ⟨past,current,rfl,hpast,hc⟩ := h
  exact ⟨past,current++new,List.append_assoc _ _ _,hpast,hp current hc⟩

/-- The session is over. -/
theorem Ordered.close (h : Ordered e events p)
    (hp : ∀ current, Pending e current p → ∃ batch, Session e batch 0 (current++new)) :
    Ordered e (events++new) .idle := by
  obtain ⟨past,current,rfl,hpast,hc⟩ := h
  refine ⟨past++[current++new],[],by simp,?_,rfl⟩
  intro d hd
  obtain hd | hd := List.mem_append.mp hd
  · exact hpast d hd
  · rw [List.mem_singleton.mp hd]
    exact hp current hc

variable {batch : ExecuteBatch} {k : ℕ} {current : List WorkerEvent} {err : InferenceError}
  {delivered : Bool} {after : ℕ}

theorem Underway.send (h : Underway e batch k current) (chunk : TokenChunk) (delivered : Bool) :
    Underway e batch k (current++[.send k chunk delivered]) := by
  obtain ⟨before,sends,hs,rfl,hl⟩ := h
  refine ⟨before,sends++[.send k chunk delivered],?_,by simp,hl⟩
  intro ev hev
  obtain hev | hev := List.mem_append.mp hev
  · exact hs ev hev
  · exact ⟨chunk,delivered,List.mem_singleton.mp hev⟩

theorem Underway.finish {how : AttemptEnd} (h : Underway e batch k current)
    (hh : ∀ err, how ≠ .failed err) :
    Session e batch 0 (current++[.ended how,.idle]) := by
  obtain ⟨before,sends,hs,rfl,hl⟩ := h
  simpa using hl _ (.finished hs hh)

theorem Underway.giveUp (h : Underway e batch k current) (hd : e.decide k err = .giveUp) :
    Session e batch 0 (current++[.ended (.failed err),.sendError err delivered,.idle]) := by
  obtain ⟨before,sends,hs,rfl,hl⟩ := h
  simpa using hl _ (.gaveUp hs hd)

theorem Underway.retry (h : Underway e batch k current) (hd : e.decide k err = .retry after) :
    Leads e batch (k+1) (current++[.ended (.failed err),.sleep after]) := by
  obtain ⟨before,sends,hs,rfl,hl⟩ := h
  intro rest hr
  simpa using hl _ (.retried hs hd hr)

/-- Whatever a worker does next, it does in order. -/
theorem Ordered.move {breaker : CircuitBreakerHandle} {now : ℕ} (h : Ordered e events p)
    (hm : Move e breaker now p q new) : Ordered e (events++new) q := by
  cases hm with
  | dispatch req =>
    apply h.extend
    rintro current rfl rest hr
    exact hr
  | refused hc =>
    apply h.close
    intro current hl
    exact ⟨_,hl _ .refused⟩
  | start hc =>
    apply h.extend
    intro current hl
    exact ⟨current,[],by simp [IsSends],rfl,hl⟩
  | opened =>
    apply h.extend
    intro current hc
    rwa [List.append_nil]
  | send =>
    apply h.extend
    intro current hc
    exact Underway.send hc _ true
  | cancel =>
    apply h.close
    intro current hc
    have hcancel : ∀ err, AttemptEnd.cancelled ≠ .failed err := by simp
    exact ⟨_,by simpa using (Underway.send hc _ false).finish hcancel⟩
  | retry hp hd =>
    apply h.extend
    intro current hc
    rcases hp with rfl | rfl
    · exact Underway.retry hc hd
    · exact Underway.retry hc hd
  | giveUp hp hd =>
    apply h.close
    intro current hc
    rcases hp with rfl | rfl
    · exact ⟨_,Underway.giveUp hc hd⟩
    · exact ⟨_,Underway.giveUp hc hd⟩
  | finish =>
    apply h.close
    intro current hc
    exact ⟨_,Underway.finish hc (by simp)⟩
  | wake ht =>
    apply h.extend
    intro current hc
    rwa [List.append_nil]

end Moves

/-- Every action keeps every worker's log in order. -/
theorem ordered_step (hs : ∀ j, Ordered (engine j) (eventsOf j s.log) (s.phase j))
    (h : step n engine s a = some t) (j : ℕ) :
    Ordered (engine j) (eventsOf j t.log) (t.phase j) := by
  rcases step_cases h with ⟨ns,-,rfl⟩ | ⟨req,-,rfl⟩ | ⟨i,q,events,hmove,rfl⟩
  · exact hs j
  · exact hs j
  · rw [eventsOf_move]
    by_cases hi : i = j
    · subst hi
      rw [if_pos rfl]
      simpa [move] using (hs i).move hmove
    · have hne : j ≠ i := fun he => hi he.symm
      rw [if_neg hi]
      simpa [move,hne] using hs j

/-- In every run of the pool, whatever the interleaving, each worker's log is one session
after the other. -/
theorem ordered_exec {provider : ProviderKind} {config : CircuitBreakerConfig} {nodeId : String}
    {limits : RateLimits} {epoch : ℕ} {as : List WorkerAction}
    (h : exec (step n engine) (init provider config nodeId limits epoch) as = some s) (i : ℕ) :
    Ordered (engine i) (eventsOf i s.log) (s.phase i) := by
  refine exec_preserves (I := fun s : WorkerPool γ =>
    ∀ j, Ordered (engine j) (eventsOf j s.log) (s.phase j)) ?_ ?_ h i
  · intro s a t hs hstep
    exact ordered_step hs hstep
  · intro j
    exact ⟨[],[],rfl,by simp,rfl⟩

end Sessions

/-- The time that an event takes, when nothing is waited for but the sleeps. -/
def duration : WorkerEvent → ℕ
  | .sleep after => after
  | _ => 0

def slept (events : List WorkerEvent) : ℕ := (events.map duration).sum

/-- The log of a worker that does these events from a given time on. -/
def logOf (i : ℕ) : ℕ → List WorkerEvent → List Logged
  | _,[] => []
  | now,ev::events => ⟨now,i,ev⟩::logOf i (now+duration ev) events

/-- Worker `i` goes through events and the pool waits for its sleeps. -/
def play (s : WorkerPool γ) (i : ℕ) (p : Phase) (events : List WorkerEvent) : WorkerPool γ :=
  { s with
    now := s.now+slept events
    phase := Function.update s.phase i p
    log := s.log++logOf i s.now events }

theorem slept_append (events events' : List WorkerEvent) :
    slept (events++events') = slept events+slept events' := by simp [slept]

theorem logOf_append (i now : ℕ) (events events' : List WorkerEvent) :
    logOf i now (events++events') = logOf i now events++logOf i (now+slept events) events' := by
  induction events generalizing now with
  | nil => simp [logOf,slept]
  | cons ev events ih => simp [logOf,slept,ih,Nat.add_assoc]

theorem logOf_eq_map {i now : ℕ} {events : List WorkerEvent} (h : slept events = 0) :
    logOf i now events = events.map fun ev => ⟨now,i,ev⟩ := by
  induction events with
  | nil => rfl
  | cons ev events ih =>
    obtain ⟨hev,hrest⟩ : duration ev = 0 ∧ slept events = 0 := by simpa [slept] using h
    simp [logOf,hev,ih hrest]

omit [GCounter γ] in
theorem move_eq_play (i : ℕ) (p : Phase) {events : List WorkerEvent} (h : slept events = 0) :
    s.move i p events = s.play i p events := by
  simp [move,play,h,logOf_eq_map]

omit [GCounter γ] in
@[simp] theorem play_phase (s : WorkerPool γ) (i : ℕ) (p : Phase) (events : List WorkerEvent) :
    (s.play i p events).phase i = p := Function.update_self _ _ _

omit [GCounter γ] in
theorem play_play (i : ℕ) (p q : Phase) (events events' : List WorkerEvent) :
    (s.play i p events).play i q events' = s.play i q (events++events') := by
  simp [play,slept_append,logOf_append,Nat.add_assoc]

omit [GCounter γ] in
theorem play_nil {i : ℕ} {p : Phase} (h : s.phase i = p) : s.play i p [] = s := by
  subst h
  simp [play,slept,logOf]

section Refinement
variable {i k : ℕ} {req : PriorityRequest} {inputs : ℕ → AttemptInput}

/-- Playing on after one action. -/
theorem exec_cons_play {p q : Phase} {events events' : List WorkerEvent} {as : List WorkerAction}
    (hone : step n engine s a = some (s.play i p events))
    (hrest : exec (step n engine) (s.play i p events) as =
      some ((s.play i p events).play i q events')) :
    exec (step n engine) s (a::as) = some (s.play i q (events++events')) := by
  rw [play_play] at hrest
  exact exec_cons_iff.mpr ⟨_,hone,hrest⟩

/-- The stream of an attempt, played in the pool. -/
theorem exec_forward (items : List (Except InferenceError TokenChunk)) (room : Option ℕ)
    (hp : s.phase i = .streaming req k) : ∃ as,
    ((∃ err, (forward k room items).how = .failed err) →
      exec (step n engine) s as = some (s.play i (.streaming req k) (forward k room items).events)) ∧
    ((∀ err, (forward k room items).how ≠ .failed err) →
      exec (step n engine) s as = some (s.play i .idle
        ((forward k room items).events++[.ended (forward k room items).how,.idle]))) := by
  induction items generalizing s room with
  | nil =>
    refine ⟨[.finish i],?_,fun _ => ?_⟩
    · intro hfailed
      obtain ⟨err,h⟩ := hfailed
      simp [forward] at h
    · simp only [forward,exec,step,hp]
      exact congrArg some (move_eq_play i .idle rfl)
  | cons item items ih =>
    cases item with
    | error err =>
      refine ⟨[],fun _ => ?_,fun h => absurd (by simp [forward]) (h err)⟩
      simp only [forward,exec_nil,play_nil hp]
    | ok chunk =>
      by_cases hroom : room = some 0
      · subst hroom
        refine ⟨[.item i chunk false],?_,fun _ => ?_⟩
        · intro hfailed
          obtain ⟨err,h⟩ := hfailed
          simp [forward] at h
        · simp only [forward,exec,step,hp]
          exact congrArg some (move_eq_play i .idle rfl)
      · have hfwd : forward k room (.ok chunk::items) =
            ⟨.send k chunk true::(forward k (room.map Nat.pred) items).events,
              (forward k (room.map Nat.pred) items).room,(forward k (room.map Nat.pred) items).how⟩ := by
          rw [forward]
          simpa using hroom
        have hone : step n engine s (.item i chunk true) =
            some (s.play i (.streaming req k) [.send k chunk true]) := by
          simp only [step,hp,if_true]
          exact congrArg some (move_eq_play i _ rfl)
        obtain ⟨as,hfail,hdone⟩ := ih (s := s.play i (.streaming req k) [.send k chunk true])
          (room.map Nat.pred) (play_phase _ _ _ _)
        refine ⟨.item i chunk true::as,fun h => ?_,fun h => ?_⟩
        · rw [hfwd] at h ⊢
          exact exec_cons_play hone (hfail h)
        · rw [hfwd] at h ⊢
          rw [exec_cons_play hone (hdone h)]
          rfl

/-- A call and its stream, played in the pool; a failure is still to be handled. -/
theorem exec_runExecution (x : Execution) (room : Option ℕ) (hp : s.phase i = .executing req k) :
    ∃ as,
    ((∃ err, (runExecution k room x).how = .failed err) →
      ∃ p, (p = .executing req k ∨ p = .streaming req k) ∧
        exec (step n engine) s as = some (s.play i p (runExecution k room x).events)) ∧
    ((∀ err, (runExecution k room x).how ≠ .failed err) →
      exec (step n engine) s as = some (s.play i .idle
        ((runExecution k room x).events++[.ended (runExecution k room x).how,.idle]))) := by
  cases x with
  | failed err =>
    refine ⟨[],fun _ => ⟨_,.inl rfl,?_⟩,fun h => absurd rfl (h err)⟩
    simp only [runExecution,exec_nil,play_nil hp]
  | streaming items =>
    have hopen : step n engine s (.opened i) = some (s.play i (.streaming req k) []) := by
      simp only [step,hp]
      exact congrArg some (move_eq_play i _ rfl)
    obtain ⟨as,hfail,hdone⟩ := exec_forward (n := n) (s := s.play i (.streaming req k) []) items room
      (play_phase _ _ _ _)
    refine ⟨.opened i::as,fun h => ⟨_,.inr rfl,?_⟩,fun h => ?_⟩
    · exact exec_cons_play hopen (hfail h)
    · rw [exec_cons_play hopen (hdone h)]
      rfl

/-- A failure that is retried: the worker sleeps and is ready for the next attempt. -/
theorem exec_retry {p : Phase} {err : InferenceError} {after : ℕ}
    (hp : s.phase i = p) (hpp : p = .executing req k ∨ p = .streaming req k)
    (hd : (engine i).decide k err = .retry after) :
    exec (step n engine) s [.fail i err true,.tick after,.wake i] =
      some (s.play i (.ready req (k+1)) [.ended (.failed err),.sleep after]) := by
  have hone : step n engine s (.fail i err true) =
      some (s.move i (.sleeping req (k+1) (s.now+after)) [.ended (.failed err),.sleep after]) := by
    rcases hpp with rfl | rfl
    · simp only [step,hp,hd]
    · simp only [step,hp,hd]
  refine exec_cons_iff.mpr ⟨_,hone,?_⟩
  simp [exec,step,move,play,slept,logOf,duration]

theorem step_giveUp {p : Phase} {err : InferenceError} {delivered : Bool}
    (hp : s.phase i = p) (hpp : p = .executing req k ∨ p = .streaming req k)
    (hd : (engine i).decide k err = .giveUp) :
    step n engine s (.fail i err delivered) =
      some (s.play i .idle [.ended (.failed err),.sendError err delivered,.idle]) := by
  rw [← move_eq_play i .idle rfl]
  rcases hpp with rfl | rfl
  · simp only [step,hp,hd]
  · simp only [step,hp,hd]

/-- The loop over the attempts, played in the pool. -/
theorem exec_executeWithRetries (slot : WorkerSlot) (hslot : slot.retryEngine = engine i)
    (hin : ∀ l, (inputs l).check = .ok ()) (room : Option ℕ) (k : ℕ)
    (hp : s.phase i = .ready req k) (hc : ∀ now utcMs, s.breaker.check now utcMs = .ok ()) :
    ∃ as, exec (step n engine) s as = some (s.play i .idle
      ((executeWithRetries slot req.batch inputs room k).events++
        closing (executeWithRetries slot req.batch inputs room k))) := by
  have hstart : ∀ {s : WorkerPool γ} {k : ℕ}, s.phase i = .ready req k →
      (∀ now utcMs, s.breaker.check now utcMs = .ok ()) → step n engine s (.attempt i 0 true) =
        some (s.play i (.executing req k) [.check (.ok ()),.execute req.batch]) := by
    intro s k hp hc
    simp only [step,hp,acquirePermit,hc]
    exact congrArg some (move_eq_play i _ rfl)
  induction room,k using executeWithRetries_induction slot inputs generalizing s with
  | refused room k err herr =>
    rw [hin k] at herr
    contradiction
  | finished room k hck hf =>
    obtain ⟨as,-,hdone⟩ := exec_runExecution (n := n)
      (s := s.play i (.executing req k) [.check (.ok ()),.execute req.batch])
      (inputs k).execution room (play_phase _ _ _ _)
    refine ⟨.attempt i 0 true::as,?_⟩
    rw [exec_cons_play (hstart hp hc) (hdone hf),executeWithRetries_finished hck hf]
    simp [attemptEvents,closing]
  | gaveUp room k err hck hf hd =>
    obtain ⟨as,hfail,-⟩ := exec_runExecution (n := n)
      (s := s.play i (.executing req k) [.check (.ok ()),.execute req.batch])
      (inputs k).execution room (play_phase _ _ _ _)
    obtain ⟨p,hpp,has⟩ := hfail ⟨err,hf⟩
    have hd' := hd
    rw [hslot] at hd'
    refine ⟨.attempt i 0 true::(as++
      [.fail i err ((runExecution k room (inputs k).execution).room != some 0)]),
      exec_cons_iff.mpr ⟨_,hstart hp hc,exec_snoc_iff.mpr ⟨_,has,?_⟩⟩⟩
    rw [step_giveUp (play_phase _ _ _ _) hpp hd',play_play,play_play,
      executeWithRetries_gaveUp hck hf hd]
    simp [attemptEvents,closing,hf]
  | retried room k err after hck hf hd ih =>
    obtain ⟨as,hfail,-⟩ := exec_runExecution (n := n)
      (s := s.play i (.executing req k) [.check (.ok ()),.execute req.batch])
      (inputs k).execution room (play_phase _ _ _ _)
    obtain ⟨p,hpp,has⟩ := hfail ⟨err,hf⟩
    have hd' := hd
    rw [hslot] at hd'
    have hretry := exec_retry (n := n) (play_phase (s.play i (.executing req k)
      [.check (.ok ()),.execute req.batch]) i p (runExecution k room (inputs k).execution).events)
      hpp hd'
    obtain ⟨bs,hbs⟩ := ih (s := ((s.play i (.executing req k) [.check (.ok ()),.execute req.batch]).play
      i p (runExecution k room (inputs k).execution).events).play i (.ready req (k+1))
        [.ended (.failed err),.sleep after]) (play_phase _ _ _ _) hc
    refine ⟨.attempt i 0 true::(as++([.fail i err true,.tick after,.wake i]++bs)),
      exec_cons_iff.mpr ⟨_,hstart hp hc,exec_append_iff.mpr ⟨_,has,
        exec_append_iff.mpr ⟨_,hretry,?_⟩⟩⟩⟩
    rw [hbs,play_play,play_play,play_play,executeWithRetries_retried hck hf hd]
    simp [attemptEvents,closing,hf]

/-- Every dispatch of a worker by itself is one of a worker in the pool, as long as the
breaker lets its attempts through. -/
theorem exec_dispatch {job : Job} (hi : i < n) (hp : s.phase i = .idle)
    (hc : ∀ now utcMs, s.breaker.check now utcMs = .ok ())
    (hin : ∀ l, (job.inputs l).check = .ok ()) : ∃ as, exec (step n engine) s as =
      some (s.play i .idle (RakkaInference.dispatch ⟨s.limiter.handle,engine i⟩ job)) := by
  have hone : step n engine s (.dispatch i job.request) =
      some (s.play i (.ready job.request 0) []) := by
    simp only [step,hp,if_pos hi]
    exact congrArg some (move_eq_play i _ rfl)
  obtain ⟨as,has⟩ := exec_executeWithRetries (n := n) (s := s.play i (.ready job.request 0) [])
    ⟨s.limiter.handle,engine i⟩ rfl hin job.room 0 (play_phase _ _ _ _) hc
  refine ⟨.dispatch i job.request::as,?_⟩
  rw [exec_cons_play hone has]
  rfl

end Refinement
end WorkerPool
end RakkaInference
