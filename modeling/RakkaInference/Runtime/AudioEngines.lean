import RakkaInference.Machine.Runs
import RakkaInference.Runtime.Forward

/-! The engines for speech and audio. They are one design with different texts and
runners: admission in the handler, one task for each admitted request, and one task for
each request that the runner's shape cannot serve. -/
namespace RakkaInference
open Machine

inductive SpeechEngineMsg
  | add

inductive AudioEngineMsg
  | addTranscribe
  | addAudio2Face

/-- The shape of the runner that an audio engine was built with. -/
inductive RunnerCell
  | stt
  | a2f

/-- What the engines differ in: the text of a refusal, and the error for the messages that
do not fit the runner. -/
structure EngineShape (μ : Type) where
  atCapacity : String
  mismatch : μ → Option InferenceError

def SpeechEngineCoreActor.shape : EngineShape SpeechEngineMsg where
  atCapacity := "speech engine at capacity"
  mismatch
    | .add => none

def AudioEngineCoreActor.shape (runner : RunnerCell) : EngineShape AudioEngineMsg where
  atCapacity := "audio engine at capacity"
  mismatch
    | .addTranscribe =>
      match runner with
      | .a2f => some (.unsupported "execute_audio" .audio2Face)
      | .stt => none
    | .addAudio2Face =>
      match runner with
      | .stt => some (.unsupported "execute_audio2face" .speechToText)
      | .a2f => none

/-- The task that `reject_modality_mismatch` spawns. -/
structure MismatchTask where
  error : InferenceError
  gone : Bool := false
  /-- How often it has called `send`. -/
  sends : ℕ := 0
  output : List InferenceError := []

structure AudioEngine (α : Type) where
  inFlight : ℕ := 0
  tasks : List (EngineTask α) := []
  mismatched : List MismatchTask := []
  answers : List (Except InferenceError Unit) := []

inductive AudioEngineAction (μ α : Type)
  | handle (msg : μ)
  | task (i : ℕ) (a : TaskStep α)
  /-- `drop(g)`. -/
  | unlock (i : ℕ)
  /-- The last lines of a task. -/
  | finish (i : ℕ)
  | dropReceiver (i : ℕ)
  /-- The task of a mismatched message runs. -/
  | reject (i : ℕ)
  | dropMismatched (i : ℕ)

namespace AudioEngine
variable {μ α : Type}

def handle (shape : EngineShape μ) (maxConcurrent : ℕ) (s : AudioEngine α) (msg : μ) : AudioEngine α :=
  match shape.mismatch msg with
  | some e => { s with
      mismatched := s.mismatched++[{ error := e }]
      answers := s.answers++[.ok ()] }
  | none =>
    match tryAdmit shape.atCapacity maxConcurrent s.inFlight with
    | .error e => { s with answers := s.answers++[.error e] }
    | .ok n => { s with
        inFlight := n
        tasks := s.tasks++[{}]
        answers := s.answers++[.ok ()] }

def runnerFree (s : AudioEngine α) : Bool := s.tasks.all fun x => !x.holdsRunner

def step (shape : EngineShape μ) (maxConcurrent : ℕ) (s : AudioEngine α) :
    AudioEngineAction μ α → Option (AudioEngine α)
  | .handle msg => some (s.handle shape maxConcurrent msg)
  | .task i a => do
    let x ← s.tasks[i]?
    let y ← x.forward s.runnerFree a
    some { s with tasks := s.tasks.set i y }
  | .unlock i =>
    match s.tasks[i]? with
    | some x =>
      match x.phase with
      | .returned => some { s with tasks := s.tasks.set i { x with phase := .unlocked } }
      | _ => none
    | none => none
  | .finish i =>
    match s.tasks[i]? with
    | some x =>
      match x.phase with
      | .unlocked => some { s with
          inFlight := s.inFlight-1
          tasks := s.tasks.set i { x with phase := .finished, released := x.released+1 } }
      | _ => none
    | none => none
  | .dropReceiver i =>
    match s.tasks[i]? with
    | some x => some { s with tasks := s.tasks.set i { x with gone := true } }
    | none => none
  | .reject i =>
    match s.mismatched[i]? with
    | some x =>
      if x.sends = 0 then some { s with
        mismatched := s.mismatched.set i { x with
          sends := 1
          output := if x.gone then x.output else x.output++[x.error] } }
      else none
    | none => none
  | .dropMismatched i =>
    match s.mismatched[i]? with
    | some x => some { s with mismatched := s.mismatched.set i { x with gone := true } }
    | none => none

variable {shape : EngineShape μ} {cap : ℕ} {s t : AudioEngine α} {a : AudioEngineAction μ α}

/-- Everything that an action can do. -/
inductive Move (shape : EngineShape μ) (cap : ℕ) (s : AudioEngine α) :
    AudioEngineAction μ α → AudioEngine α → Prop
  | handle (msg : μ) : Move shape cap s (.handle msg) (s.handle shape cap msg)
  | task {i : ℕ} {b : TaskStep α} {x y : EngineTask α} (hx : s.tasks[i]? = some x)
      (hy : x.forward s.runnerFree b = some y) :
      Move shape cap s (.task i b) { s with tasks := s.tasks.set i y }
  | unlock {i : ℕ} {x : EngineTask α} (hx : s.tasks[i]? = some x) (hp : x.phase = .returned) :
      Move shape cap s (.unlock i) { s with tasks := s.tasks.set i { x with phase := .unlocked } }
  | finish {i : ℕ} {x : EngineTask α} (hx : s.tasks[i]? = some x) (hp : x.phase = .unlocked) :
      Move shape cap s (.finish i) { s with
        inFlight := s.inFlight-1
        tasks := s.tasks.set i { x with phase := .finished, released := x.released+1 } }
  | dropReceiver {i : ℕ} {x : EngineTask α} (hx : s.tasks[i]? = some x) :
      Move shape cap s (.dropReceiver i) { s with tasks := s.tasks.set i { x with gone := true } }
  | reject {i : ℕ} {x : MismatchTask} (hx : s.mismatched[i]? = some x) (hz : x.sends = 0) :
      Move shape cap s (.reject i) { s with
        mismatched := s.mismatched.set i { x with
          sends := 1
          output := if x.gone then x.output else x.output++[x.error] } }
  | dropMismatched {i : ℕ} {x : MismatchTask} (hx : s.mismatched[i]? = some x) :
      Move shape cap s (.dropMismatched i) { s with mismatched := s.mismatched.set i { x with gone := true } }

theorem move_of_step (h : step shape cap s a = some t) : Move shape cap s a t := by
  revert h
  fun_cases step shape cap s a
  case case2 i b =>
    simp only [Option.bind_eq_bind,Option.bind_eq_some_iff,Option.some.injEq]
    rintro ⟨x,hx,y,hy,rfl⟩
    exact .task hx hy
  all_goals rintro ⟨⟩
  case case1 msg => exact .handle msg
  case case3 i x hx hp => exact .unlock hx hp
  case case6 i x hx hp => exact .finish hx hp
  case case9 i x hx => exact .dropReceiver hx
  case case11 i x hx hz => exact .reject hx hz
  case case14 i x hx => exact .dropMismatched hx

/-- What the engine promises in every state. -/
structure Law (shape : EngineShape μ) (cap : ℕ) (s : AudioEngine α) : Prop where
  inFlight_eq : s.inFlight = s.tasks.countP EngineTask.unfinished
  inFlight_le : s.inFlight ≤ cap
  released : ∀ x ∈ s.tasks, x.released = if x.unfinished then 0 else 1
  exclusive : s.tasks.countP EngineTask.holdsRunner ≤ 1
  forwarded : ∀ x ∈ s.tasks, (x.refusal = none → x.output <+: x.yielded) ∧
    ∀ e, x.refusal = some e → x.output = [] ∨ x.output = [.error e]
  mismatched : ∀ x ∈ s.mismatched, (∃ msg, shape.mismatch msg = some x.error) ∧
    (x.sends = 0 ∧ x.output = [] ∨
      x.sends = 1 ∧ (x.output = [x.error] ∨ x.gone = true ∧ x.output = []))

/-- What the engine promises of a step: a slot that is given back was taken, a refused
request and a mismatched one leave everything but their own answer and task. -/
structure StepLaw (shape : EngineShape μ) (cap : ℕ) (s : AudioEngine α) (a : AudioEngineAction μ α) :
    Prop where
  held : ∀ i, a = .finish i → 0 < s.inFlight
  refused : ∀ msg, a = .handle msg → shape.mismatch msg = none → cap ≤ s.inFlight →
    step shape cap s a = some { s with answers := s.answers++[.error (.backpressure shape.atCapacity)] }
  mismatched : ∀ msg e, a = .handle msg → shape.mismatch msg = some e →
    step shape cap s a = some { s with
      mismatched := s.mismatched++[{ error := e }], answers := s.answers++[.ok ()] }

structure Kept (shape : EngineShape μ) (cap : ℕ) (s : AudioEngine α) : Prop where
  counted : Counted cap EngineTask.unfinished s.inFlight s.tasks
  released : ∀ x ∈ s.tasks, x.released = if x.unfinished then 0 else 1
  exclusive : s.tasks.countP EngineTask.holdsRunner ≤ 1
  faithful : ∀ x ∈ s.tasks, x.Faithful
  mismatched : ∀ x ∈ s.mismatched, (∃ msg, shape.mismatch msg = some x.error) ∧
    (x.sends = 0 ∧ x.output = [] ∨
      x.sends = 1 ∧ (x.output = [x.error] ∨ x.gone = true ∧ x.output = []))

theorem Kept.init (shape : EngineShape μ) (cap : ℕ) : Kept shape cap ({} : AudioEngine α) where
  counted := Counted.nil cap _
  released := by simp
  exclusive := by simp
  faithful := by simp
  mismatched := by simp

theorem Kept.law (h : Kept shape cap s) : Law shape cap s where
  inFlight_eq := h.counted.eq
  inFlight_le := h.counted.le
  released := h.released
  exclusive := h.exclusive
  forwarded := fun x hx => (h.faithful x hx).output_of_stream
  mismatched := h.mismatched

theorem Kept.handle (h : Kept shape cap s) (msg : μ) : Kept shape cap (s.handle shape cap msg) := by
  unfold AudioEngine.handle
  split
  case h_1 e he =>
    exact { h with mismatched := all_of_snoc h.mismatched ⟨⟨msg,he⟩,.inl ⟨rfl,rfl⟩⟩ }
  case h_2 =>
    split
    case h_1 e he => exact { h with }
    case h_2 n hn =>
      obtain ⟨hroom,rfl⟩ := tryAdmit_eq_ok_iff.mp hn
      exact
        { counted := h.counted.take hroom rfl
          released := all_of_snoc h.released rfl
          exclusive := by
            rw [List.countP_append]
            exact h.exclusive
          faithful := all_of_snoc h.faithful EngineTask.faithful_fresh
          mismatched := h.mismatched }

/-- A task that takes a step, and does not come by the lock while another one has it. -/
theorem Kept.set (h : Kept shape cap s) {i n : ℕ} {x y : EngineTask α} (hx : s.tasks[i]? = some x)
    (hcounted : Counted cap EngineTask.unfinished n (s.tasks.set i y))
    (hreleased : y.released = if y.unfinished then 0 else 1) (hfaithful : y.Faithful)
    (hlock : y.holdsRunner = true → x.holdsRunner = true ∨ s.runnerFree = true) :
    Kept shape cap { s with inFlight := n, tasks := s.tasks.set i y } := by
  exact
    { counted := hcounted
      released := all_of_set h.released hreleased
      exclusive := countP_set_le_one h.exclusive hx fun hy => (hlock hy).imp_right List.all_eq_true.mp
      faithful := all_of_set h.faithful hfaithful
      mismatched := h.mismatched }

theorem Kept.step (h : Kept shape cap s) (hstep : AudioEngine.step shape cap s a = some t) :
    Kept shape cap t := by
  cases move_of_step hstep with
  | handle msg => exact h.handle msg
  | @task i b x y hx hy =>
    have hmem := List.mem_of_getElem? hx
    obtain ⟨hux,huy,hrel,hlock⟩ := EngineTask.forward_frame hy
    refine h.set hx (h.counted.update hx (huy.trans hux.symm)) ?_ ((h.faithful x hmem).forward hy) hlock
    have hzero := h.released x hmem
    rw [hux] at hzero
    rw [hrel,huy]
    exact hzero
  | @unlock i x hx hp =>
    have hmem := List.mem_of_getElem? hx
    have hux : x.unfinished = true := by simp [EngineTask.unfinished,hp]
    have hzero := h.released x hmem
    rw [hux] at hzero
    exact h.set hx (h.counted.update hx hux.symm) hzero ((h.faithful x hmem).unlock hp)
      (fun hy => absurd hy Bool.false_ne_true)
  | @finish i x hx hp =>
    have hmem := List.mem_of_getElem? hx
    have hux : x.unfinished = true := by simp [EngineTask.unfinished,hp]
    have hzero : x.released = 0 := by simpa [hux] using h.released x hmem
    refine h.set hx (h.counted.release hx hux rfl).2 ?_ ((h.faithful x hmem).finish hp _)
      (fun hy => absurd hy Bool.false_ne_true)
    simp [hzero,EngineTask.unfinished]
  | @dropReceiver i x hx =>
    have hmem := List.mem_of_getElem? hx
    exact h.set hx (h.counted.update hx rfl) (h.released x hmem) (h.faithful x hmem).drop .inl
  | @reject i x hx hz =>
    obtain ⟨hmsg,hsent⟩ := h.mismatched x (List.mem_of_getElem? hx)
    refine { h with mismatched := all_of_set h.mismatched ⟨hmsg,.inr ⟨rfl,?_⟩⟩ }
    have hempty : x.output = [] := by
      rcases hsent with ⟨-,ho⟩ | ⟨h1,-⟩
      · exact ho
      · omega
    cases hgone : x.gone with
    | true => exact .inr ⟨rfl,by simp [hempty]⟩
    | false => exact .inl (by simp [hempty])
  | @dropMismatched i x hx =>
    obtain ⟨hmsg,hsent⟩ := h.mismatched x (List.mem_of_getElem? hx)
    refine { h with mismatched := all_of_set h.mismatched ⟨hmsg,?_⟩ }
    rcases hsent with h0 | ⟨h1,ho | ⟨-,ho⟩⟩
    · exact .inl h0
    · exact .inr ⟨h1,.inl ho⟩
    · exact .inr ⟨h1,.inr ⟨rfl,ho⟩⟩

theorem Kept.stepLaw (h : Kept shape cap s) (hstep : AudioEngine.step shape cap s a = some t) :
    StepLaw shape cap s a where
  held := by
    rintro i rfl
    cases move_of_step hstep with
    | @finish i x hx hp =>
      exact (h.counted.release (y := { x with phase := .finished }) hx
        (by simp [EngineTask.unfinished,hp]) rfl).1
  refused := by
    rintro msg rfl hmatch hfull
    simp only [AudioEngine.step,AudioEngine.handle,hmatch,tryAdmit,if_pos hfull]
  mismatched := by
    rintro msg e rfl hmatch
    simp only [AudioEngine.step,AudioEngine.handle,hmatch]

end AudioEngine
end RakkaInference
