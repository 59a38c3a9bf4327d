import RakkaInference.Machine.Runs
import RakkaInference.Runtime.Forward

/-! The orchestrator of a local replica. Its handler gives the slot of an admitted request
back as soon as the task is spawned, and the task gives it back once more when it ends. -/
namespace RakkaInference
open Machine

structure EngineCore (α : Type) where
  inFlight : ℕ := 0
  /-- The handler has spawned a task and is about to call `release`. -/
  handling : Bool := false
  tasks : List (EngineTask α) := []
  answers : List (Except InferenceError Unit) := []

inductive EngineCoreAction (α : Type)
  /-- An `Add` message is taken from the mailbox and handled up to the spawn. -/
  | add
  | release
  | task (i : ℕ) (a : TaskStep α)
  /-- The last lines of a task. -/
  | finish (i : ℕ)
  | dropReceiver (i : ℕ)

namespace EngineCore
variable {α : Type}

def tryAdmit (maxConcurrent inFlight : ℕ) : Except InferenceError ℕ :=
  RakkaInference.tryAdmit "engine at capacity" maxConcurrent inFlight

def runnerFree (s : EngineCore α) : Bool := s.tasks.all fun x => !x.holdsRunner

def step (maxConcurrent : ℕ) (s : EngineCore α) : EngineCoreAction α → Option (EngineCore α)
  | .add =>
    if s.handling then none
    else match tryAdmit maxConcurrent s.inFlight with
      | .error e => some { s with answers := s.answers++[.error e] }
      | .ok n => some { s with
          inFlight := n
          handling := true
          tasks := s.tasks++[{}]
          answers := s.answers++[.ok ()] }
  | .release =>
    if s.handling then some { s with inFlight := s.inFlight-1, handling := false } else none
  | .task i a => do
    let x ← s.tasks[i]?
    let y ← x.forward s.runnerFree a
    some { s with tasks := s.tasks.set i y }
  | .finish i =>
    match s.tasks[i]? with
    | some x =>
      match x.phase with
      -- the guard of the runner's lock is still held here, and goes with the task
      | .returned => some { s with
          inFlight := s.inFlight-1
          tasks := s.tasks.set i { x with phase := .finished, released := x.released+1 } }
      | _ => none
    | none => none
  | .dropReceiver i =>
    match s.tasks[i]? with
    | some x => some { s with tasks := s.tasks.set i { x with gone := true } }
    | none => none

variable {s t : EngineCore α} {cap : ℕ} {a : EngineCoreAction α}

/-- The admitted requests whose task has not finished. -/
def unfinished (s : EngineCore α) : ℕ := s.tasks.countP EngineTask.unfinished

/-- No more requests than slots, and a counter that tells how many there are. -/
def Law (cap : ℕ) (s : EngineCore α) : Prop :=
  s.unfinished ≤ cap ∧ (s.handling = false → s.inFlight = s.unfinished)

/-- The handler gives a slot back only when no admitted request is left to hold it. -/
def Settled (s : EngineCore α) (a : EngineCoreAction α) : Prop :=
  a = .release → s.unfinished = 0

abbrev Kept (cap : ℕ) (s : EngineCore α) : Prop := Counted cap EngineTask.unfinished s.inFlight s.tasks

theorem Kept.law (h : Kept cap s) : Law cap s := by
  have heq : s.inFlight = s.unfinished := h.eq
  exact ⟨heq ▸ h.le,fun _ => heq⟩

theorem Kept.step (h : Kept cap s) (ha : Settled s a) (hstep : EngineCore.step cap s a = some t) :
    Kept cap t := by
  cases a with
  | add =>
    simp only [EngineCore.step] at hstep
    split at hstep
    case isTrue => exact nomatch hstep
    case isFalse =>
      split at hstep
      case h_1 e he =>
        obtain rfl := Option.some.inj hstep
        exact h
      case h_2 n hn =>
        obtain rfl := Option.some.inj hstep
        obtain ⟨hroom,rfl⟩ := tryAdmit_eq_ok_iff.mp hn
        exact h.take hroom rfl
  | release =>
    have hzero : s.inFlight = 0 := h.eq.trans (ha rfl)
    simp only [EngineCore.step] at hstep
    split at hstep
    case isTrue =>
      obtain rfl := Option.some.inj hstep
      exact ⟨by simpa [hzero] using h.eq,by simp [hzero]⟩
    case isFalse => exact nomatch hstep
  | task i b =>
    simp only [EngineCore.step,Option.bind_eq_bind,Option.bind_eq_some_iff,Option.some.injEq] at hstep
    obtain ⟨x,hx,y,hy,rfl⟩ := hstep
    obtain ⟨hux,huy,-⟩ := EngineTask.forward_frame hy
    exact h.update hx (huy.trans hux.symm)
  | finish i =>
    simp only [EngineCore.step] at hstep
    split at hstep
    case h_1 x hx =>
      split at hstep
      case h_1 hp =>
        obtain rfl := Option.some.inj hstep
        exact (h.release hx (by simp [EngineTask.unfinished,hp]) rfl).2
      case h_2 => exact nomatch hstep
    case h_2 => exact nomatch hstep
  | dropReceiver i =>
    simp only [EngineCore.step] at hstep
    split at hstep
    case h_1 x hx =>
      obtain rfl := Option.some.inj hstep
      exact h.update hx rfl
    case h_2 => exact nomatch hstep

/-- The slot that the handler gives back too early is missing afterwards. -/
theorem Kept.not_law_of_not_settled (h : Kept cap s) (ha : ¬ Settled s a)
    (hstep : EngineCore.step cap s a = some t) : ¬ Law cap t := by
  obtain ⟨rfl,hleft⟩ : a = .release ∧ s.unfinished ≠ 0 := by simpa [Settled] using ha
  simp only [EngineCore.step] at hstep
  split at hstep
  case isTrue =>
    obtain rfl := Option.some.inj hstep
    intro hlaw
    have heq : s.inFlight = s.unfinished := h.eq
    have hcount : s.inFlight-1 = s.unfinished := hlaw.2 rfl
    omega
  case isFalse => exact nomatch hstep

/-- A run of the engine keeps its count exactly when each call of the handler's `release`
comes after every admitted request, the new one included, has finished. -/
theorem engine_admission_iff (cap : ℕ) {as : List (EngineCoreAction α)} {t : EngineCore α}
    (h : exec (step cap) {} as = some t) :
    Always (step cap) (Law cap) {} as ↔ Throughout (step cap) Settled {} as :=
  always_iff_throughout (J := Kept cap) (fun _ hs => hs.law) (fun _ _ _ hs ha hst => hs.step ha hst)
    (fun _ _ _ hs ha hst => hs.not_law_of_not_settled ha hst) (Counted.nil cap _) h

/-- A task that is over before its handler goes on. -/
theorem engine_admission_of_quick_task :
    Always (step 1) (Law 1) {} [.add,.task 0 .lock,.task 0 .start,.task 0 .close,.finish 0,
      (.release : EngineCoreAction Unit)] := by
  refine (engine_admission_iff 1 (t := ⟨0,false,[⟨.finished,false,[],none,[],1⟩],[.ok ()]⟩) rfl).mpr ?_
  simp [Throughout,Settled,step,tryAdmit,RakkaInference.tryAdmit,EngineTask.forward,runnerFree,unfinished,
    EngineTask.unfinished,EngineTask.holdsRunner]

/-- With one slot, two requests are running and the counter is at zero. -/
theorem engine_admits_past_capacity :
    ∃ s : EngineCore Unit, exec (step 1) {} [.add,.release,.add,.release] = some s ∧
      s.unfinished = 2 ∧ s.inFlight = 0 ∧ s.handling = false ∧ ¬ Law 1 s := by
  refine ⟨_,rfl,rfl,rfl,rfl,?_⟩
  intro hlaw
  exact absurd hlaw.1 (by decide)

end EngineCore
end RakkaInference
