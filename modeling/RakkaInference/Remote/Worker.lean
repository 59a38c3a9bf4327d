import RakkaInference.Remote.Queue
import RakkaInference.Remote.RateLimit
import RakkaInference.Remote.Retry

/-! One worker: the attempts that it makes for a dispatched request, with what it does in
each as a list of events. The answers of the breaker and the doings of the runner are
inputs, one for each attempt; streams are finite. -/
namespace RakkaInference

/-- What one call of `runner.execute` comes to: an error, or a stream of items. -/
inductive Execution
  | failed (err : InferenceError)
  | streaming (items : List (Except InferenceError TokenChunk))

structure AttemptInput where
  /-- What the breaker's check answers. -/
  check : Except InferenceError Unit
  execution : Execution

/-- How an attempt that was let through ends: its stream runs out, the receiver is gone,
or the call or its stream fails. -/
inductive AttemptEnd
  | completed
  | cancelled
  | failed (err : InferenceError)

inductive WorkerEvent
  | check (answer : Except InferenceError Unit)
  | execute (batch : ExecuteBatch)
  | send (attempt : ℕ) (chunk : TokenChunk) (delivered : Bool)
  | ended (how : AttemptEnd)
  | sleep (after : ℕ)
  | sendError (err : InferenceError) (delivered : Bool)
  | idle

structure WorkerSlot where
  rateLimiter : RateLimiterHandle
  retryEngine : RetryEngine

/-- The permit step: the snapshot is read, a permit is asked of nobody, and the attempt
goes on. -/
def acquirePermit (slot : WorkerSlot) (batch : ExecuteBatch) : Except InferenceError Unit :=
  let _hint := slot.rateLimiter.snapshot
  let _request : AcquirePermit := ⟨1,batch.estimatedTokens⟩
  .ok ()

/-- What is left of an attempt when it has ended; `room` is the number of messages that
the receiver still takes before it is dropped, if it ever is. -/
structure Forwarding where
  events : List WorkerEvent
  room : Option ℕ
  how : AttemptEnd

/-- The loop over the stream. -/
def forward (attempt : ℕ) : Option ℕ → List (Except InferenceError TokenChunk) → Forwarding
  | room,[] => ⟨[],room,.completed⟩
  | some 0,.ok chunk::_ => ⟨[.send attempt chunk false],some 0,.cancelled⟩
  | room,.ok chunk::items =>
    let rest := forward attempt (room.map Nat.pred) items
    ⟨.send attempt chunk true::rest.events,rest.room,rest.how⟩
  | room,.error err::_ => ⟨[],room,.failed err⟩

def runExecution (attempt : ℕ) (room : Option ℕ) : Execution → Forwarding
  | .failed err => ⟨[],room,.failed err⟩
  | .streaming items => forward attempt room items

structure Outcome where
  events : List WorkerEvent
  room : Option ℕ
  result : Except InferenceError Unit

/-- The loop over the attempts. A call that fails and a stream that fails are retried, or
not, in the same way. -/
def executeWithRetries (slot : WorkerSlot) (batch : ExecuteBatch) (inputs : ℕ → AttemptInput)
    (room : Option ℕ) (attempt : ℕ) : Outcome :=
  match acquirePermit slot batch with
  | .error err => ⟨[],room,.error err⟩
  | .ok _ =>
    match (inputs attempt).check with
    | .error err => ⟨[.check (.error err)],room,.error err⟩
    | .ok _ =>
      let f := runExecution attempt room (inputs attempt).execution
      let events := .check (.ok ())::.execute batch::(f.events++[.ended f.how])
      match f.how with
      | .completed | .cancelled => ⟨events,f.room,.ok ()⟩
      | .failed err =>
        match h : slot.retryEngine.decide attempt err with
        | .giveUp => ⟨events,f.room,.error err⟩
        | .retry after =>
          have := RetryEngine.lt_of_decide_eq_retry h
          let rest := executeWithRetries slot batch inputs f.room (attempt+1)
          ⟨events++.sleep after::rest.events,rest.room,rest.result⟩
termination_by slot.retryEngine.policy.maxRetries.toNat-attempt

/-- A request with everything that its attempts will meet. -/
structure Job where
  request : PriorityRequest
  inputs : ℕ → AttemptInput
  room : Option ℕ

/-- A final failure is one last message on the output; the idle signal is sent in any
case. -/
def closing (out : Outcome) : List WorkerEvent :=
  match out.result with
  | .error err => [.sendError err (out.room != some 0),.idle]
  | .ok _ => [.idle]

def dispatch (slot : WorkerSlot) (job : Job) : List WorkerEvent :=
  let out := executeWithRetries slot job.request.batch job.inputs job.room 0
  out.events++closing out

inductive WorkerMsg
  | dispatch (job : Job)
  | shutdown

/-- The events of each dispatch, up to the shutdown. -/
def runWorker (slot : WorkerSlot) : List WorkerMsg → List (List WorkerEvent)
  | [] => []
  | .dispatch job::ms => dispatch slot job::runWorker slot ms
  | .shutdown::_ => []

section Attempts
variable {slot : WorkerSlot} {batch : ExecuteBatch} {inputs : ℕ → AttemptInput} {room : Option ℕ}
  {attempt : ℕ}

/-- The events of an attempt that the breaker lets through. -/
def attemptEvents (batch : ExecuteBatch) (f : Forwarding) : List WorkerEvent :=
  .check (.ok ())::.execute batch::(f.events++[.ended f.how])

theorem executeWithRetries_refused {err : InferenceError} (hc : (inputs attempt).check = .error err) :
    executeWithRetries slot batch inputs room attempt = ⟨[.check (.error err)],room,.error err⟩ := by
  rw [executeWithRetries]
  simp only [acquirePermit,hc]

theorem executeWithRetries_finished (hc : (inputs attempt).check = .ok ())
    (hf : ∀ err, (runExecution attempt room (inputs attempt).execution).how ≠ .failed err) :
    executeWithRetries slot batch inputs room attempt =
      ⟨attemptEvents batch (runExecution attempt room (inputs attempt).execution),
        (runExecution attempt room (inputs attempt).execution).room,.ok ()⟩ := by
  rw [executeWithRetries]
  simp only [acquirePermit,hc]
  cases hh : (runExecution attempt room (inputs attempt).execution).how with
  | completed => simp only [attemptEvents,hh]
  | cancelled => simp only [attemptEvents,hh]
  | failed err => exact absurd hh (hf err)

theorem executeWithRetries_gaveUp {err : InferenceError} (hc : (inputs attempt).check = .ok ())
    (hf : (runExecution attempt room (inputs attempt).execution).how = .failed err)
    (hd : slot.retryEngine.decide attempt err = .giveUp) :
    executeWithRetries slot batch inputs room attempt =
      ⟨attemptEvents batch (runExecution attempt room (inputs attempt).execution),
        (runExecution attempt room (inputs attempt).execution).room,.error err⟩ := by
  rw [executeWithRetries]
  simp only [acquirePermit,hc,hf,attemptEvents]
  split
  · rfl
  · rename_i after h
    rw [hd] at h
    contradiction

theorem executeWithRetries_retried {err : InferenceError} {after : ℕ}
    (hc : (inputs attempt).check = .ok ())
    (hf : (runExecution attempt room (inputs attempt).execution).how = .failed err)
    (hd : slot.retryEngine.decide attempt err = .retry after) :
    executeWithRetries slot batch inputs room attempt =
      let rest := executeWithRetries slot batch inputs
        (runExecution attempt room (inputs attempt).execution).room (attempt+1)
      ⟨attemptEvents batch (runExecution attempt room (inputs attempt).execution)++
        .sleep after::rest.events,rest.room,rest.result⟩ := by
  rw [executeWithRetries]
  simp only [acquirePermit,hc,hf,attemptEvents]
  split
  · rename_i h
    rw [hd] at h
    contradiction
  · rename_i d h
    cases hd.symm.trans h
    rfl

/-- The loop by what an attempt comes to: refused, finished, given up, or retried. -/
theorem executeWithRetries_induction (slot : WorkerSlot) (inputs : ℕ → AttemptInput)
    {motive : Option ℕ → ℕ → Prop}
    (refused : ∀ room attempt err, (inputs attempt).check = .error err → motive room attempt)
    (finished : ∀ room attempt, (inputs attempt).check = .ok () →
      (∀ err, (runExecution attempt room (inputs attempt).execution).how ≠ .failed err) →
      motive room attempt)
    (gaveUp : ∀ room attempt err, (inputs attempt).check = .ok () →
      (runExecution attempt room (inputs attempt).execution).how = .failed err →
      slot.retryEngine.decide attempt err = .giveUp → motive room attempt)
    (retried : ∀ room attempt err after, (inputs attempt).check = .ok () →
      (runExecution attempt room (inputs attempt).execution).how = .failed err →
      slot.retryEngine.decide attempt err = .retry after →
      motive (runExecution attempt room (inputs attempt).execution).room (attempt+1) →
      motive room attempt)
    (room : Option ℕ) (attempt : ℕ) : motive room attempt := by
  induction hn : slot.retryEngine.policy.maxRetries.toNat-attempt using Nat.strong_induction_on
    generalizing room attempt with
  | _ n ih =>
    cases hc : (inputs attempt).check with
    | error err => exact refused room attempt err hc
    | ok u =>
      cases hf : (runExecution attempt room (inputs attempt).execution).how with
      | completed => exact finished room attempt hc (by simp [hf])
      | cancelled => exact finished room attempt hc (by simp [hf])
      | failed err =>
        cases hd : slot.retryEngine.decide attempt err with
        | giveUp => exact gaveUp room attempt err hc hf hd
        | retry after =>
          have hlt := RetryEngine.lt_of_decide_eq_retry hd
          exact retried room attempt err after hc hf hd (ih _ (by omega) _ _ rfl)

end Attempts
end RakkaInference
