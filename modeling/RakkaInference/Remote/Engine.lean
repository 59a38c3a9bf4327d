import RakkaInference.Core.Deployment
import RakkaInference.Remote.Queue

/-! The engine of a remote replica: it owns the queue, knows its workers by an idle flag
each, and hands requests to them. Workers are addressed by the number they were spawned
with; answers and hand-overs are the effects of a message. -/
namespace RakkaInference

structure RemoteEngineConfig where
  queueCapacity : ℕ := 1024
  workerCount : ℕ := 8
  onCapacityExhausted : CapacityPolicy := .queue

structure EngineMetrics where
  queued : ℕ := 0
  inFlight : ℕ := 0
  completed : ℕ := 0
  rejectedBackpressure : ℕ := 0
  deriving DecidableEq

structure AddRequest where
  priority : Priority
  batch : ExecuteBatch
  output : ℕ
  admission : ℕ

inductive EngineMsg
  | add (req : AddRequest)
  | workerIdle

structure WorkerEntry where
  addr : ℕ
  idle : Bool
  deriving DecidableEq

inductive EngineEffect
  | admission (channel : ℕ) (answer : Except InferenceError Unit)
  | dispatch (addr : ℕ) (req : PriorityRequest)

structure RemoteEngineCore where
  config : RemoteEngineConfig
  queue : RequestQueue
  workers : List WorkerEntry
  metrics : EngineMetrics
  /-- Whether the slot factory is still there to be taken. -/
  factory : Bool
  workerCount : ℕ

/-- The first entry whose flag is `b`, and the entries with that flag turned. -/
def flipFirst (b : Bool) : List WorkerEntry → Option (WorkerEntry × List WorkerEntry)
  | [] => none
  | w::ws =>
    if w.idle = b then some (w,{ w with idle := !b }::ws)
    else (flipFirst b ws).map fun p => (p.1,w::p.2)

theorem flipFirst_eq_none_iff {b : Bool} {ws : List WorkerEntry} :
    flipFirst b ws = none ↔ ∀ w ∈ ws, w.idle = !b := by
  induction ws with
  | nil => simp [flipFirst]
  | cons w ws ih =>
    by_cases h : w.idle = b
    · simp [flipFirst,h]
    · have hb : w.idle = !b := by cases b <;> simpa using h
      simp [flipFirst,ih,hb]

/-- The entries before the one that is turned have the other flag. -/
theorem flipFirst_eq_some {b : Bool} {ws ws' : List WorkerEntry} {w : WorkerEntry}
    (h : flipFirst b ws = some (w,ws')) : ∃ pre post, ws = pre++w::post ∧
      (∀ x ∈ pre, x.idle = !b) ∧ w.idle = b ∧ ws' = pre++{ w with idle := !b }::post := by
  induction ws generalizing ws' with
  | nil => simp [flipFirst] at h
  | cons x ws ih =>
    by_cases hx : x.idle = b
    · simp only [flipFirst,hx,if_true,Option.some.injEq,Prod.mk.injEq] at h
      obtain ⟨rfl,rfl⟩ := h
      exact ⟨[],ws,rfl,by simp,hx,rfl⟩
    · simp only [flipFirst,hx,if_false,Option.map_eq_some_iff] at h
      obtain ⟨⟨v,vs⟩,hv,heq⟩ := h
      cases heq
      obtain ⟨pre,post,hws,hpre,hw,hvs⟩ := ih hv
      have hb : x.idle = !b := by cases b <;> simpa using hx
      refine ⟨x::pre,post,by rw [hws]; rfl,?_,hw,congrArg (x::·) hvs⟩
      intro y hy
      rcases List.mem_cons.mp hy with rfl | hy
      · exact hb
      · exact hpre y hy

namespace RemoteEngineCore

def new (config : RemoteEngineConfig) : RemoteEngineCore :=
  ⟨config,.new config.queueCapacity,[],{},true,config.workerCount⟩

/-- One worker for each number whose spawn succeeds. -/
def preStart (e : RemoteEngineCore) (spawn : ℕ → Bool) : RemoteEngineCore :=
  if e.factory then
    { e with
      factory := false
      workers := e.workers++((List.range e.workerCount).filter spawn).map fun i => ⟨i,true⟩ }
  else e

def enqueue (e : RemoteEngineCore) (req : AddRequest) : RemoteEngineCore × List EngineEffect :=
  match e.queue.push ⟨req.priority,0,req.batch,req.output⟩ with
  | (q,.ok _) =>
    ({ e with queue := q, metrics := { e.metrics with queued := e.metrics.queued+1 } },
      [.admission req.admission (.ok ())])
  | (q,.error _) =>
    ({ e with queue := q, metrics := { e.metrics with
        rejectedBackpressure := e.metrics.rejectedBackpressure+1 } },
      [.admission req.admission (.error (.backpressure "engine queue full"))])

/-- One round of the loop in `try_dispatch`, or nothing where the loop stops. -/
def dispatchOne (e : RemoteEngineCore) : Option (RemoteEngineCore × EngineEffect) :=
  if e.queue.isEmpty then none
  else
    match flipFirst true e.workers with
    | none => none
    | some (w,ws) =>
      match e.queue.pop with
      | (none,_) => none
      | (some req,q) =>
        some ({ e with
            queue := q
            workers := ws
            metrics := { e.metrics with
              queued := e.metrics.queued-1
              inFlight := e.metrics.inFlight+1 } },.dispatch w.addr req)

def dispatchRounds : ℕ → RemoteEngineCore → RemoteEngineCore × List EngineEffect
  | 0,e => (e,[])
  | n+1,e =>
    match e.dispatchOne with
    | none => (e,[])
    | some (e',f) => ((dispatchRounds n e').1,f::(dispatchRounds n e').2)

/-- Every round takes a request out of the queue, so its length bounds the rounds. -/
def tryDispatch (e : RemoteEngineCore) : RemoteEngineCore × List EngineEffect :=
  dispatchRounds e.queue.len e

/-- The part of `WorkerIdle` before the dispatch: the first busy entry becomes idle,
whichever worker the signal came from. -/
def markIdle (e : RemoteEngineCore) : RemoteEngineCore :=
  match flipFirst false e.workers with
  | none => e
  | some (_,ws) =>
    { e with
      workers := ws
      metrics := { e.metrics with
        inFlight := e.metrics.inFlight-1
        completed := e.metrics.completed+1 } }

def handle (e : RemoteEngineCore) : EngineMsg → RemoteEngineCore × List EngineEffect
  | .add req =>
    let p := e.enqueue req
    (p.1.tryDispatch.1,p.2++p.1.tryDispatch.2)
  | .workerIdle => e.markIdle.tryDispatch

variable {e e' : RemoteEngineCore} {f : EngineEffect}

/-- The loop stops exactly when nothing is queued or nobody is idle. -/
theorem dispatchOne_eq_none_iff :
    e.dispatchOne = none ↔ e.queue.inner = [] ∨ ∀ w ∈ e.workers, w.idle = false := by
  unfold dispatchOne
  by_cases hq : e.queue.inner = []
  · simp [hq]
  · rw [if_neg (by simpa using hq)]
    cases hw : flipFirst true e.workers with
    | none =>
      have hbusy := flipFirst_eq_none_iff.mp hw
      exact iff_of_true rfl (.inr hbusy)
    | some p =>
      have hidle : ¬ ∀ w ∈ e.workers, w.idle = false := by
        intro hbusy
        rw [flipFirst_eq_none_iff.mpr hbusy] at hw
        contradiction
      rcases e.queue.pop_cases with ⟨hnil,-⟩ | ⟨req,rest,-,hp⟩
      · exact absurd hnil hq
      · simp [hp,hq,hidle]

/-- Everything that a round of the loop does. -/
theorem dispatchOne_cases (h : e.dispatchOne = some (e',f)) : ∃ w ws req rest,
    flipFirst true e.workers = some (w,ws) ∧ (req::rest).Perm e.queue.inner ∧
    f = .dispatch w.addr req ∧
    e' = { e with
      queue := { e.queue with inner := rest }
      workers := ws
      metrics := { e.metrics with
        queued := e.metrics.queued-1
        inFlight := e.metrics.inFlight+1 } } := by
  unfold dispatchOne at h
  split at h
  · contradiction
  · cases hw : flipFirst true e.workers with
    | none => simp [hw] at h
    | some p =>
      rcases e.queue.pop_cases with ⟨-,hp⟩ | ⟨req,rest,hperm,hp⟩
      · simp [hw,hp] at h
      · simp only [hw,hp,Option.some.injEq,Prod.mk.injEq] at h
        exact ⟨p.1,p.2,req,rest,rfl,hperm,h.2.symm,h.1.symm⟩

theorem dispatchOne_len (h : e.dispatchOne = some (e',f)) : e'.queue.len+1 = e.queue.len := by
  obtain ⟨w,ws,req,rest,-,hperm,-,rfl⟩ := dispatchOne_cases h
  exact hperm.length_eq

/-- The loop runs until it stops by itself. -/
theorem dispatchRounds_exit (n : ℕ) (hn : e.queue.len ≤ n) :
    (dispatchRounds n e).1.dispatchOne = none := by
  induction n generalizing e with
  | zero =>
    have hlen : e.queue.inner.length = 0 := Nat.le_zero.mp hn
    exact dispatchOne_eq_none_iff.mpr (.inl (List.eq_nil_of_length_eq_zero hlen))
  | succ n ih =>
    cases h : e.dispatchOne with
    | none => simp only [dispatchRounds,h]
    | some p =>
      have hlen := dispatchOne_len h
      simp only [dispatchRounds,h]
      exact ih (by omega)

theorem tryDispatch_exit (e : RemoteEngineCore) : e.tryDispatch.1.dispatchOne = none :=
  dispatchRounds_exit _ le_rfl

/-- Where the loop has nothing to do, it does nothing. -/
theorem tryDispatch_of_none (h : e.dispatchOne = none) : e.tryDispatch = (e,[]) := by
  unfold tryDispatch
  cases e.queue.len with
  | zero => rfl
  | succ n => simp only [dispatchRounds,h]

theorem dispatchRounds_invariant {I : RemoteEngineCore → List EngineEffect → Prop}
    (hstep : ∀ e e' f out, I e out → e.dispatchOne = some (e',f) → I e' (out++[f]))
    (n : ℕ) {out : List EngineEffect} (he : I e out) :
    I (dispatchRounds n e).1 (out++(dispatchRounds n e).2) := by
  induction n generalizing e out with
  | zero => simpa [dispatchRounds] using he
  | succ n ih =>
    cases h : e.dispatchOne with
    | none => simpa [dispatchRounds,h] using he
    | some p =>
      simp only [dispatchRounds,h]
      have hrest := ih (hstep e p.1 p.2 out he h)
      rwa [List.append_assoc,List.singleton_append] at hrest

/-- The invariant rule of the loop, with the effects so far. -/
theorem tryDispatch_invariant {I : RemoteEngineCore → List EngineEffect → Prop}
    (hstep : ∀ e e' f out, I e out → e.dispatchOne = some (e',f) → I e' (out++[f]))
    (he : I e []) : I e.tryDispatch.1 e.tryDispatch.2 :=
  dispatchRounds_invariant hstep _ he

/-- The loop only hands requests over. -/
theorem eq_dispatch_of_mem_tryDispatch (hf : f ∈ e.tryDispatch.2) :
    ∃ addr req, f = .dispatch addr req := by
  refine tryDispatch_invariant (I := fun _ out => ∀ g ∈ out, ∃ addr req, g = .dispatch addr req)
    (e := e) ?_ (by simp) f hf
  intro e e' g out hI hd k hk
  rcases List.mem_append.mp hk with hk | hk
  · exact hI k hk
  · obtain ⟨w,ws,req,rest,-,-,hg,-⟩ := dispatchOne_cases hd
    rw [List.mem_singleton.mp hk]
    exact ⟨_,_,hg⟩

theorem handle_exit (e : RemoteEngineCore) (m : EngineMsg) : (e.handle m).1.dispatchOne = none := by
  cases m with
  | add req => exact tryDispatch_exit _
  | workerIdle => exact tryDispatch_exit _

/-- An idle signal turns the first busy flag, or finds nobody busy and changes nothing. -/
theorem markIdle_cases (e : RemoteEngineCore) :
    ((∀ w ∈ e.workers, w.idle = true) ∧ e.markIdle = e) ∨
    ∃ w ws, flipFirst false e.workers = some (w,ws) ∧ e.markIdle = { e with
      workers := ws
      metrics := { e.metrics with
        inFlight := e.metrics.inFlight-1
        completed := e.metrics.completed+1 } } := by
  cases hf : flipFirst false e.workers with
  | none => exact .inl ⟨flipFirst_eq_none_iff.mp hf,by simp only [markIdle,hf]⟩
  | some p => exact .inr ⟨p.1,p.2,rfl,by simp only [markIdle,hf]⟩

theorem markIdle_queue (e : RemoteEngineCore) : e.markIdle.queue = e.queue := by
  rcases e.markIdle_cases with ⟨-,he⟩ | ⟨w,ws,-,he⟩ <;> rw [he]

/-- An idle signal that finds nothing queued hands nothing over. -/
theorem handle_workerIdle_of_empty (hq : e.queue.inner = []) : e.handle .workerIdle = (e.markIdle,[]) := by
  apply tryDispatch_of_none
  apply dispatchOne_eq_none_iff.mpr
  left
  rw [markIdle_queue,hq]

/-- What `enqueue` can do. -/
theorem enqueue_cases (e : RemoteEngineCore) (req : AddRequest) :
    (e.queue.capacity ≤ e.queue.inner.length ∧ e.enqueue req =
      ({ e with metrics := { e.metrics with
          rejectedBackpressure := e.metrics.rejectedBackpressure+1 } },
        [.admission req.admission (.error (.backpressure "engine queue full"))])) ∨
    (e.queue.inner.length < e.queue.capacity ∧ e.enqueue req =
      ({ e with
          queue := { e.queue with
            inner := ⟨req.priority,e.queue.nextSeq,req.batch,req.output⟩::e.queue.inner
            nextSeq := e.queue.nextSeq+1 }
          metrics := { e.metrics with queued := e.metrics.queued+1 } },
        [.admission req.admission (.ok ())])) := by
  rcases e.queue.push_cases ⟨req.priority,0,req.batch,req.output⟩ with ⟨hfull,hp⟩ | ⟨hroom,hp⟩
  · exact .inl ⟨hfull,by simp only [enqueue,hp]⟩
  · exact .inr ⟨hroom,by simp only [enqueue,hp]⟩

end RemoteEngineCore
end RakkaInference
