import RakkaInference.Core.Error
import RakkaInference.Machine.Slots

/-! Admission to a local engine, and the task that it spawns for an admitted request: the
task waits for the runner's lock, has the runner execute the batch, and forwards the stream
to the request's output. -/
namespace RakkaInference
open Machine
variable {α : Type}

/-- Take a slot, or refuse with the engine's own text. -/
def tryAdmit (atCapacity : String) (maxConcurrent inFlight : ℕ) : Except InferenceError ℕ :=
  if inFlight ≥ maxConcurrent then .error (.backpressure atCapacity) else .ok (inFlight+1)

theorem tryAdmit_eq_ok_iff {text : String} {cap n m : ℕ} :
    tryAdmit text cap n = .ok m ↔ n < cap ∧ m = n+1 := by
  unfold tryAdmit
  split
  case isTrue h =>
    constructor
    · intro hm
      exact nomatch hm
    · rintro ⟨hlt,-⟩
      omega
  case isFalse h =>
    constructor
    · intro hm
      exact ⟨by omega,(Except.ok.inj hm).symm⟩
    · rintro ⟨-,rfl⟩
      rfl

inductive TaskPhase (α : Type)
  /-- Before `runner.lock().await` has returned. -/
  | waiting
  | executing
  /-- At `s.next().await`. -/
  | polling
  /-- At `output.send(chunk).await`. -/
  | sending (chunk : Except InferenceError α)
  /-- At `output.send(Err(e)).await`. -/
  | reporting (e : InferenceError)
  | returned
  /-- The guard of the runner's lock is dropped and the slot is not yet given back. -/
  | unlocked
  | finished

structure EngineTask (α : Type) where
  phase : TaskPhase α := .waiting
  /-- The receiver of the output was dropped. -/
  gone : Bool := false
  /-- What the runner's stream has yielded so far. -/
  yielded : List (Except InferenceError α) := []
  /-- The error with which the runner refused the batch. -/
  refusal : Option InferenceError := none
  /-- What was put on the output. -/
  output : List (Except InferenceError α) := []
  /-- How often the task has given its slot back. -/
  released : ℕ := 0

inductive TaskStep (α : Type)
  | lock
  /-- `execute` returns an error. -/
  | refuse (e : InferenceError)
  /-- `execute` returns a handle. -/
  | start
  /-- The stream yields. -/
  | yield (chunk : Except InferenceError α)
  /-- The stream ends. -/
  | close
  /-- A send on the output returns. -/
  | send

namespace EngineTask

def holdsRunner (x : EngineTask α) : Bool :=
  match x.phase with
  | .waiting | .unlocked | .finished => false
  | _ => true

def unfinished (x : EngineTask α) : Bool :=
  match x.phase with
  | .finished => false
  | _ => true

/-- One step of the body. The lock can be taken while nobody holds it; a send returns an
error when the receiver was dropped, and is over once the item is on the channel. -/
def forward (runnerFree : Bool) (x : EngineTask α) (a : TaskStep α) : Option (EngineTask α) :=
  match x.phase,a with
  | .waiting,.lock => if runnerFree then some { x with phase := .executing } else none
  | .executing,.refuse e => some { x with phase := .reporting e, refusal := some e }
  | .executing,.start => some { x with phase := .polling }
  | .polling,.yield chunk => some { x with phase := .sending chunk, yielded := x.yielded++[chunk] }
  | .polling,.close => some { x with phase := .returned }
  | .sending chunk,.send =>
    if x.gone then some { x with phase := .returned }
    else some { x with phase := .polling, output := x.output++[chunk] }
  | .reporting e,.send =>
    if x.gone then some { x with phase := .returned }
    else some { x with phase := .returned, output := x.output++[.error e] }
  | _,_ => none

variable {x y : EngineTask α} {a : TaskStep α} {free : Bool}

/-- Everything that one step of the body can do. -/
inductive Move (free : Bool) (x : EngineTask α) : TaskStep α → EngineTask α → Prop
  | lock (hp : x.phase = .waiting) (hf : free = true) : Move free x .lock { x with phase := .executing }
  | refuse {e : InferenceError} (hp : x.phase = .executing) :
      Move free x (.refuse e) { x with phase := .reporting e, refusal := some e }
  | start (hp : x.phase = .executing) : Move free x .start { x with phase := .polling }
  | yield {chunk : Except InferenceError α} (hp : x.phase = .polling) :
      Move free x (.yield chunk) { x with phase := .sending chunk, yielded := x.yielded++[chunk] }
  | close (hp : x.phase = .polling) : Move free x .close { x with phase := .returned }
  | sent {chunk : Except InferenceError α} (hp : x.phase = .sending chunk) (hg : x.gone = false) :
      Move free x .send { x with phase := .polling, output := x.output++[chunk] }
  | sendFailed {chunk : Except InferenceError α} (hp : x.phase = .sending chunk) (hg : x.gone = true) :
      Move free x .send { x with phase := .returned }
  | reported {e : InferenceError} (hp : x.phase = .reporting e) (hg : x.gone = false) :
      Move free x .send { x with phase := .returned, output := x.output++[.error e] }
  | reportFailed {e : InferenceError} (hp : x.phase = .reporting e) (hg : x.gone = true) :
      Move free x .send { x with phase := .returned }

theorem move_of_forward (h : forward free x a = some y) : Move free x a y := by
  revert h
  fun_cases forward free x a
  all_goals rintro ⟨⟩
  case case1 hp hf => exact .lock hp hf
  case case3 e hp => exact .refuse hp
  case case4 hp => exact .start hp
  case case5 chunk hp => exact .yield hp
  case case6 hp => exact .close hp
  case case7 chunk hp hg => exact .sendFailed hp hg
  case case8 chunk hp hg => exact .sent hp (by simpa using hg)
  case case9 e hp hg => exact .reportFailed hp hg
  case case10 e hp hg => exact .reported hp (by simpa using hg)

/-- What one step of the body leaves as it is, and when it takes the lock. -/
theorem forward_frame (h : forward free x a = some y) :
    x.unfinished = true ∧ y.unfinished = true ∧ y.released = x.released ∧
    (y.holdsRunner = true → x.holdsRunner = true ∨ free = true) := by
  cases move_of_forward h
  case lock hp hf => simp [unfinished,hp,hf]
  all_goals simp_all [unfinished,holdsRunner]

/-- Between the stream and the output nothing is lost, doubled or reordered: what was put
out is what the stream yielded, less the item that is being sent; a batch that the runner
refused puts out that one error. -/
def Faithful (x : EngineTask α) : Prop :=
  match x.refusal,x.phase with
  | none,.waiting | none,.executing => x.yielded = [] ∧ x.output = []
  | none,.polling => x.output = x.yielded
  | none,.sending chunk => x.yielded = x.output++[chunk]
  | none,.returned | none,.unlocked | none,.finished => x.output <+: x.yielded
  | some e,.reporting e' => e = e' ∧ x.yielded = [] ∧ x.output = []
  | some e,.returned | some e,.unlocked | some e,.finished =>
    x.yielded = [] ∧ (x.output = [] ∨ x.output = [.error e])
  | none,.reporting _ => False
  | some _,_ => False

theorem faithful_fresh : (({} : EngineTask α)).Faithful := ⟨rfl,rfl⟩

theorem Faithful.forward (hx : x.Faithful) (h : forward free x a = some y) : y.Faithful := by
  unfold Faithful at hx
  cases move_of_forward h
  all_goals
    cases hr : x.refusal with
    | none => simp_all [Faithful]
    | some e => simp_all [Faithful]

/-- The end of the task and the drop of the receiver leave what was put out. -/
theorem Faithful.unlock (hx : x.Faithful) (hp : x.phase = .returned) :
    ({ x with phase := .unlocked } : EngineTask α).Faithful := by
  obtain ⟨phase,gone,yielded,refusal,output,released⟩ := x
  obtain rfl : phase = _ := hp
  cases refusal <;> exact hx

theorem Faithful.finish (hx : x.Faithful) (hp : x.phase = .unlocked) (n : ℕ) :
    ({ x with phase := .finished, released := n } : EngineTask α).Faithful := by
  obtain ⟨phase,gone,yielded,refusal,output,released⟩ := x
  obtain rfl : phase = _ := hp
  cases refusal <;> exact hx

theorem Faithful.drop (hx : x.Faithful) : ({ x with gone := true } : EngineTask α).Faithful := by
  obtain ⟨phase,gone,yielded,refusal,output,released⟩ := x
  cases refusal <;> cases phase <;> exact hx

/-- The output is a prefix of what the stream yielded, or of the error of the refusal. -/
theorem Faithful.output_of_stream (hx : x.Faithful) :
    (x.refusal = none → x.output <+: x.yielded) ∧
    ∀ e, x.refusal = some e → x.output = [] ∨ x.output = [.error e] := by
  obtain ⟨phase,gone,yielded,refusal,output,released⟩ := x
  cases refusal with
  | none => cases phase <;> simp_all [Faithful]
  | some e => cases phase <;> simp_all [Faithful]

end EngineTask
end RakkaInference
