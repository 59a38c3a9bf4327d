import Mathlib.Data.List.Count
import RakkaInference.Machine.Logs
import RakkaInference.Runtime.Forward

/-! The worker of a local runner. The parent hands each message to its current child; the child spawns a task for
each, and the tasks share the lock of the child's runner. A parent that is told its context is poisoned stops the
child and spawns the next, with a runner of its own. -/
namespace RakkaInference
open Machine
variable {α : Type}

/-- What the parent hands to a child; the output or the reply channel is known by a number. -/
inductive ContextMsg
  | execute (output : ℕ)
  | rebuild (reply : ℕ)
  deriving DecidableEq

inductive RebuildPhase
  | waiting
  /-- In `rebuild_session`, with the lock. -/
  | rebuilding
  | finished

inductive ContextWork (α : Type)
  | execute (x : EngineTask α)
  | rebuild (p : RebuildPhase)

/-- A task that the child of the generation has spawned. -/
structure ContextTask (α : Type) where
  generation : ℕ
  msg : ContextMsg
  work : ContextWork α

namespace ContextTask

/-- The lock is dropped when the runner gives a stream, and kept while an error is sent. -/
def holdsRunner (t : ContextTask α) : Bool :=
  match t.work with
  | .execute x =>
    match x.phase with
    | .executing | .reporting _ => true
    | .returned => x.refusal.isSome
    | _ => false
  | .rebuild .rebuilding => true
  | .rebuild _ => false

/-- The task has not had the lock yet. -/
def waits (t : ContextTask α) : Bool :=
  match t.work with
  | .execute x =>
    match x.phase with
    | .waiting => true
    | _ => false
  | .rebuild .waiting => true
  | .rebuild _ => false

def holdsRunnerOf (g : ℕ) (t : ContextTask α) : Bool := decide (t.generation = g) && t.holdsRunner

def waitsFor (msg : ContextMsg) (g : ℕ) (t : ContextTask α) : Bool :=
  decide (t.msg = msg ∧ t.generation = g) && t.waits

/-- What an output has of the runner's stream. -/
def faithful (t : ContextTask α) : Prop :=
  match t.work with
  | .execute x => x.Faithful
  | .rebuild _ => True

/-- `ContextActor::handle` up to the spawn. -/
def ofMsg (generation : ℕ) (msg : ContextMsg) : ContextTask α :=
  ⟨generation,msg,match msg with
    | .execute _ => .execute {}
    | .rebuild _ => .rebuild .waiting⟩

end ContextTask

structure WorkerActor (α : Type) where
  /-- The generation of the current child. -/
  child : Option ℕ := none
  parentToChildSeq : ℕ := 0
  inbox : ℕ → List ContextMsg := fun _ => []
  tasks : List (ContextTask α) := []

inductive ContextAction (α : Type)
  /-- The parent handles an `Execute` or a `RebuildSession`. -/
  | tell (msg : ContextMsg)
  /-- The parent handles a `ContextPoisoned`; the spawn may fail. -/
  | contextPoisoned (spawned : Bool)
  /-- A child handles its next message. -/
  | context (g : ℕ)
  /-- A child that was stopped is gone with what its mailbox had. -/
  | stopped (g : ℕ)
  | task (i : ℕ) (a : TaskStep α)
  | lockRebuild (i : ℕ)
  | rebuilt (i : ℕ) (res : Except InferenceError Unit)
  /-- The guard, if it was kept, goes with the task. -/
  | finish (i : ℕ)
  | dropReceiver (i : ℕ)

inductive ContextEvent
  | poisoned
  | handed (msg : ContextMsg) (g : ℕ)
  /-- The runner of the generation is called. -/
  | began (msg : ContextMsg) (g : ℕ)
  | lost (msg : ContextMsg) (g : ℕ)
  /-- No child, and the output is dropped with nothing on it. -/
  | dropped (output : ℕ)
  | replied (reply : ℕ) (res : Except InferenceError Unit)

namespace ContextEvent

@[simp] def isPoisoned : ContextEvent → Bool
  | poisoned => true
  | _ => false

@[simp] def handed? : ContextEvent → Option (ContextMsg × ℕ)
  | handed msg g => some (msg,g)
  | _ => none

@[simp] def began? : ContextEvent → Option (ContextMsg × ℕ)
  | began msg g => some (msg,g)
  | _ => none

@[simp] def lost? : ContextEvent → Option (ContextMsg × ℕ)
  | lost msg g => some (msg,g)
  | _ => none

end ContextEvent

namespace WorkerActor

def spawnChild (s : WorkerActor α) (spawned : Bool) : WorkerActor α :=
  { s with
    parentToChildSeq := s.parentToChildSeq+1
    child := if spawned then some (s.parentToChildSeq+1) else s.child }

/-- `new` and `pre_start`. -/
def preStart (spawned : Bool) : WorkerActor α := ({} : WorkerActor α).spawnChild spawned

def runnerFree (s : WorkerActor α) (g : ℕ) : Bool := s.tasks.all fun x => !x.holdsRunnerOf g

def step (s : WorkerActor α) : ContextAction α → Option (WorkerActor α)
  | .tell msg =>
    match s.child with
    | some g => some { s with inbox := Function.update s.inbox g (s.inbox g++[msg]) }
    | none => some s
  | .contextPoisoned spawned => some (({ s with child := none } : WorkerActor α).spawnChild spawned)
  | .context g =>
    match s.inbox g with
    | msg::rest => some { s with
        inbox := Function.update s.inbox g rest
        tasks := s.tasks++[.ofMsg g msg] }
    | [] => none
  | .stopped g => if s.child = some g then none else some { s with inbox := Function.update s.inbox g [] }
  | .task i a =>
    match s.tasks[i]? with
    | some ⟨g,msg,.execute x⟩ =>
      (x.forward (s.runnerFree g) a).map fun y => { s with tasks := s.tasks.set i ⟨g,msg,.execute y⟩ }
    | _ => none
  | .lockRebuild i =>
    match s.tasks[i]? with
    | some ⟨g,msg,.rebuild .waiting⟩ =>
      if s.runnerFree g then some { s with tasks := s.tasks.set i ⟨g,msg,.rebuild .rebuilding⟩ } else none
    | _ => none
  | .rebuilt i _ =>
    match s.tasks[i]? with
    | some ⟨g,msg,.rebuild .rebuilding⟩ => some { s with tasks := s.tasks.set i ⟨g,msg,.rebuild .finished⟩ }
    | _ => none
  | .finish i =>
    match s.tasks[i]? with
    | some ⟨g,msg,.execute x⟩ =>
      match x.phase with
      | .returned => some { s with tasks := s.tasks.set i ⟨g,msg,.execute { x with phase := .unlocked }⟩ }
      | _ => none
    | _ => none
  | .dropReceiver i =>
    match s.tasks[i]? with
    | some ⟨g,msg,.execute x⟩ => some { s with tasks := s.tasks.set i ⟨g,msg,.execute { x with gone := true }⟩ }
    | _ => none

def event (s : WorkerActor α) : ContextAction α → List ContextEvent
  | .tell msg =>
    match s.child,msg with
    | some g,_ => [.handed msg g]
    | none,.execute output => [.dropped output]
    | none,.rebuild reply => [.replied reply (.error (.internal "no child"))]
  | .contextPoisoned _ => [.poisoned]
  | .stopped g => (s.inbox g).map fun msg => .lost msg g
  | .task i .lock | .lockRebuild i =>
    match s.tasks[i]? with
    | some t => [.began t.msg t.generation]
    | none => []
  | .rebuilt i res =>
    match s.tasks[i]? with
    | some ⟨_,.rebuild reply,_⟩ => [.replied reply res]
    | _ => []
  | _ => []

/-- Everything that an action can do, and what it puts out. -/
inductive Move (s : WorkerActor α) : WorkerActor α → List ContextEvent → Prop
  | tell {g : ℕ} (msg : ContextMsg) (hc : s.child = some g) :
      Move s { s with inbox := Function.update s.inbox g (s.inbox g++[msg]) } [.handed msg g]
  | unheard {e : ContextEvent} (hc : s.child = none) (hp : e.isPoisoned = false) (hh : e.handed? = none)
      (hb : e.began? = none) (hl : e.lost? = none) : Move s s [e]
  | contextPoisoned (spawned : Bool) :
      Move s (({ s with child := none } : WorkerActor α).spawnChild spawned) [.poisoned]
  | context {g : ℕ} {msg : ContextMsg} {rest : List ContextMsg} (hm : s.inbox g = msg::rest) :
      Move s { s with inbox := Function.update s.inbox g rest, tasks := s.tasks++[.ofMsg g msg] } []
  | stopped {g : ℕ} (hc : s.child ≠ some g) :
      Move s { s with inbox := Function.update s.inbox g [] } ((s.inbox g).map fun msg => .lost msg g)
  | lock {i : ℕ} {x y : ContextTask α} (hx : s.tasks[i]? = some x) (hw : x.waits = true)
      (hfree : s.runnerFree x.generation = true) (hg : y.generation = x.generation) (hm : y.msg = x.msg)
      (hy : y.waits = false) (hf : x.faithful → y.faithful) :
      Move s { s with tasks := s.tasks.set i y } [.began x.msg x.generation]
  | work {i : ℕ} {x y : ContextTask α} {l : List ContextEvent} (hx : s.tasks[i]? = some x)
      (hg : y.generation = x.generation) (hm : y.msg = x.msg) (hw : y.waits = x.waits)
      (hh : x.faithful → y.holdsRunner = true → x.holdsRunner = true) (hf : x.faithful → y.faithful)
      (hl : l = [] ∨ ∃ reply res, l = [.replied reply res]) :
      Move s { s with tasks := s.tasks.set i y } l

variable {s t : WorkerActor α} {a : ContextAction α}

/-- A step of the body that is not the lock. -/
theorem work_of_forward {x y : EngineTask α} {b : TaskStep α} {free : Bool} (g : ℕ) (msg : ContextMsg)
    (hb : b ≠ .lock) (h : x.forward free b = some y) :
    (⟨g,msg,.execute y⟩ : ContextTask α).waits = (⟨g,msg,.execute x⟩ : ContextTask α).waits ∧
    (x.Faithful → (⟨g,msg,.execute y⟩ : ContextTask α).holdsRunner = true →
      (⟨g,msg,.execute x⟩ : ContextTask α).holdsRunner = true) := by
  cases EngineTask.move_of_forward h with
  | lock hp hf => contradiction
  | refuse hp => simp [ContextTask.waits,ContextTask.holdsRunner,hp]
  | start hp => simp [ContextTask.waits,ContextTask.holdsRunner,hp]
  | yield hp => simp [ContextTask.waits,ContextTask.holdsRunner,hp]
  | close hp =>
    -- a batch that was refused has no stream to close
    refine ⟨by simp [ContextTask.waits,hp],fun hx hh => ?_⟩
    cases hr : x.refusal with
    | none => simp [ContextTask.holdsRunner,hr] at hh
    | some e => simp [EngineTask.Faithful,hr,hp] at hx
  | sent hp hg => simp [ContextTask.waits,ContextTask.holdsRunner,hp]
  | sendFailed hp hg =>
    refine ⟨by simp [ContextTask.waits,hp],fun hx hh => ?_⟩
    cases hr : x.refusal with
    | none => simp [ContextTask.holdsRunner,hr] at hh
    | some e => simp [EngineTask.Faithful,hr,hp] at hx
  | reported hp hg => simp [ContextTask.waits,ContextTask.holdsRunner,hp]
  | reportFailed hp hg => simp [ContextTask.waits,ContextTask.holdsRunner,hp]

theorem move_of_step (h : step s a = some t) : Move s t (event s a) := by
  cases a with
  | tell msg =>
    simp only [step] at h
    split at h
    · rename_i g hc
      have hev : event s (.tell msg) = [.handed msg g] := by simp only [event,hc]
      cases h
      rw [hev]
      exact .tell msg hc
    · rename_i hc
      cases h
      simp only [event,hc]
      cases msg with
      | execute output => exact .unheard hc rfl rfl rfl rfl
      | rebuild reply => exact .unheard hc rfl rfl rfl rfl
  | contextPoisoned spawned =>
    cases h
    exact .contextPoisoned spawned
  | context g =>
    simp only [step] at h
    split at h
    · rename_i msg rest hm
      cases h
      exact .context hm
    · contradiction
  | stopped g =>
    simp only [step] at h
    split at h
    · contradiction
    · rename_i hc
      cases h
      exact .stopped hc
  | task i b =>
    simp only [step] at h
    split at h
    · rename_i g msg x hx
      obtain ⟨y,hy,rfl⟩ := Option.map_eq_some_iff.mp h
      by_cases hb : b = .lock
      · subst hb
        simp only [event,hx]
        have hfaith : x.Faithful → y.Faithful := fun hf => hf.forward hy
        cases EngineTask.move_of_forward hy with
        | lock hp hf =>
          exact .lock (x := ⟨g,msg,.execute x⟩) hx (by simp [ContextTask.waits,hp]) hf rfl rfl rfl hfaith
      · obtain ⟨hw,hh⟩ := work_of_forward g msg hb hy
        have hev : event s (.task i b) = [] := by
          cases b with
          | lock => contradiction
          | _ => rfl
        rw [hev]
        exact .work (x := ⟨g,msg,.execute x⟩) hx rfl rfl hw hh (fun hf => hf.forward hy) (.inl rfl)
    · contradiction
  | lockRebuild i =>
    simp only [step] at h
    split at h
    · rename_i g msg hx
      split at h
      · rename_i hfree
        cases h
        simp only [event,hx]
        exact .lock (x := ⟨g,msg,.rebuild .waiting⟩) hx rfl hfree rfl rfl rfl (fun hf => hf)
      · contradiction
    · contradiction
  | rebuilt i res =>
    simp only [step] at h
    split at h
    · rename_i g msg hx
      cases h
      simp only [event,hx]
      refine .work (x := ⟨g,msg,.rebuild .rebuilding⟩) hx rfl rfl rfl (fun _ hh => absurd hh Bool.false_ne_true)
        (fun hf => hf) ?_
      cases msg with
      | execute output => exact .inl rfl
      | rebuild reply => exact .inr ⟨reply,res,rfl⟩
    · contradiction
  | finish i =>
    simp only [step] at h
    split at h
    · rename_i g msg x hx
      split at h
      · rename_i hp
        cases h
        refine .work (x := ⟨g,msg,.execute x⟩) hx rfl rfl (by simp [ContextTask.waits,hp])
          (fun _ hh => absurd hh Bool.false_ne_true) (fun hf => hf.unlock hp) (.inl rfl)
      · contradiction
    · contradiction
  | dropReceiver i =>
    simp only [step] at h
    split at h
    · rename_i g msg x hx
      cases h
      exact .work (x := ⟨g,msg,.execute x⟩) hx rfl rfl rfl (fun _ hh => hh) (fun hf => hf.drop) (.inl rfl)
    · contradiction

/-- The books of a worker, over every order of its messages, its children and their tasks. -/
structure Books (s : WorkerActor α) (log : List ContextEvent) : Prop where
  child_eq : ∀ g, s.child = some g → g = s.parentToChildSeq
  seq_eq : s.parentToChildSeq = 1+log.countP ContextEvent.isPoisoned
  handed : EachAfter (fun pre e => ∀ msg g, e = .handed msg g → g = 1+pre.countP ContextEvent.isPoisoned) log
  began : EachAfter (fun pre e => ∀ msg g, e = .began msg g → .handed msg g ∈ pre) log
  conserved : ∀ msg g, (log.filterMap ContextEvent.handed?).count (msg,g) =
    (s.inbox g).count msg+s.tasks.countP (ContextTask.waitsFor msg g)+
      (log.filterMap ContextEvent.began?).count (msg,g)+(log.filterMap ContextEvent.lost?).count (msg,g)
  exclusive : ∀ g, s.tasks.countP (ContextTask.holdsRunnerOf g) ≤ 1
  faithful : ∀ x ∈ s.tasks, x.faithful

variable {log : List ContextEvent}

theorem books_preStart (spawned : Bool) : Books (preStart spawned : WorkerActor α) [] := by
  refine ⟨?_,rfl,eachAfter_nil,eachAfter_nil,fun _ _ => rfl,fun _ => Nat.zero_le _,fun x hx => by cases hx⟩
  intro g hg
  cases spawned <;> cases hg
  rfl

theorem mem_of_handed_count {msg : ContextMsg} {g : ℕ}
    (h : 0 < (log.filterMap ContextEvent.handed?).count (msg,g)) : .handed msg g ∈ log := by
  obtain ⟨e,he,heq⟩ := List.mem_filterMap.mp (List.count_pos_iff.mp h)
  cases e with
  | handed m k =>
    cases heq
    exact he
  | _ => cases heq

/-- The events that say neither what is handed over nor what becomes of it. -/
def Quiet (l : List ContextEvent) : Prop :=
  ∀ e ∈ l, e.isPoisoned = false ∧ e.handed? = none ∧ e.began? = none ∧ e.lost? = none

/-- Quiet events leave what the books say of the log. -/
theorem Books.quiet {l : List ContextEvent} (hb : Books s log) (hl : Quiet l) : Books s (log++l) := by
  have hp : l.countP ContextEvent.isPoisoned = 0 :=
    List.countP_eq_zero.mpr fun e he => by rw [(hl e he).1]; exact Bool.false_ne_true
  have hh : l.filterMap ContextEvent.handed? = [] := List.filterMap_eq_nil_iff.mpr fun e he => (hl e he).2.1
  have hbe : l.filterMap ContextEvent.began? = [] := List.filterMap_eq_nil_iff.mpr fun e he => (hl e he).2.2.1
  have hlo : l.filterMap ContextEvent.lost? = [] := List.filterMap_eq_nil_iff.mpr fun e he => (hl e he).2.2.2
  refine ⟨hb.child_eq,?_,hb.handed.append ?_,hb.began.append ?_,?_,hb.exclusive,hb.faithful⟩
  · rw [List.countP_append,hp]
    exact hb.seq_eq
  · rintro pre e post rfl msg g rfl
    have hnone := (hl (.handed msg g) (by simp)).2.1
    simp at hnone
  · rintro pre e post rfl msg g rfl
    have hnone := (hl (.began msg g) (by simp)).2.2.1
    simp at hnone
  · intro msg g
    simp only [List.filterMap_append,hh,hbe,hlo,List.append_nil]
    exact hb.conserved msg g

/-- A task that goes on with its part of the lock, or gives it up. -/
theorem Books.work {i : ℕ} {x y : ContextTask α} (hb : Books s log) (hx : s.tasks[i]? = some x)
    (hg : y.generation = x.generation) (hm : y.msg = x.msg) (hw : y.waits = x.waits)
    (hh : x.faithful → y.holdsRunner = true → x.holdsRunner = true) (hf : x.faithful → y.faithful) :
    Books { s with tasks := s.tasks.set i y } log := by
  have hxf := hb.faithful x (List.mem_of_getElem? hx)
  refine ⟨hb.child_eq,hb.seq_eq,hb.handed,hb.began,?_,?_,all_of_set hb.faithful (hf hxf)⟩
  · intro msg g
    have hset := countP_set_add hx y (ContextTask.waitsFor msg g)
    have hsame : y.waitsFor msg g = x.waitsFor msg g := by
      simp only [ContextTask.waitsFor,hg,hm,hw]
    rw [hsame] at hset
    have hcount := hb.conserved msg g
    simp only
    omega
  · intro g
    apply countP_set_le_one (hb.exclusive g) hx
    intro hy
    left
    simp only [ContextTask.holdsRunnerOf,hg,Bool.and_eq_true] at hy ⊢
    exact ⟨hy.1,hh hxf hy.2⟩

/-- A task that gets the lock. -/
theorem Books.lock {i : ℕ} {x y : ContextTask α} (hb : Books s log) (hx : s.tasks[i]? = some x)
    (hw : x.waits = true) (hfree : s.runnerFree x.generation = true) (hg : y.generation = x.generation)
    (hy : y.waits = false) (hf : x.faithful → y.faithful) :
    Books { s with tasks := s.tasks.set i y } (log++[.began x.msg x.generation]) := by
  have hxmem := List.mem_of_getElem? hx
  refine ⟨hb.child_eq,?_,hb.handed.concat ?_,hb.began.concat ?_,?_,?_,
    all_of_set hb.faithful (hf (hb.faithful x hxmem))⟩
  · simpa using hb.seq_eq
  · intro msg g he
    cases he
  · intro msg g he
    cases he
    -- the task itself is still on the right side of the balance
    apply mem_of_handed_count
    have hpos : 0 < s.tasks.countP (ContextTask.waitsFor x.msg x.generation) :=
      List.countP_pos_iff.mpr ⟨x,hxmem,by simp [ContextTask.waitsFor,hw]⟩
    have hcount := hb.conserved x.msg x.generation
    omega
  · intro msg g
    have hset := countP_set_add hx y (ContextTask.waitsFor msg g)
    have hcount := hb.conserved msg g
    have hyw : y.waitsFor msg g = false := by simp [ContextTask.waitsFor,hy]
    have hxw : x.waitsFor msg g = decide ((x.msg,x.generation) = (msg,g)) := by
      simp [ContextTask.waitsFor,hw]
    rw [hyw,hxw] at hset
    simp only [List.filterMap_append,List.filterMap_cons,List.filterMap_nil,ContextEvent.handed?,ContextEvent.began?,
      ContextEvent.lost?,List.append_nil,List.count_append,List.count_singleton,beq_iff_eq]
    simp only [decide_eq_true_eq,Bool.false_eq_true,if_false] at hset
    omega
  · intro g
    apply countP_set_le_one (hb.exclusive g) hx
    intro hyh
    by_cases hgx : x.generation = g
    · right
      intro z hz
      rw [hgx] at hfree
      exact List.all_eq_true.mp hfree z hz
    · simp [ContextTask.holdsRunnerOf,hg,hgx] at hyh

theorem Books.tell {g : ℕ} (hb : Books s log) (msg : ContextMsg) (hc : s.child = some g) :
    Books { s with inbox := Function.update s.inbox g (s.inbox g++[msg]) } (log++[.handed msg g]) := by
  refine ⟨hb.child_eq,?_,hb.handed.concat ?_,hb.began.concat ?_,?_,hb.exclusive,hb.faithful⟩
  · simpa using hb.seq_eq
  · intro m k he
    cases he
    rw [hb.child_eq g hc,hb.seq_eq]
  · intro m k he
    cases he
  · intro m k
    have hcount := hb.conserved m k
    simp only [List.filterMap_append,List.filterMap_cons,List.filterMap_nil,ContextEvent.handed?,ContextEvent.began?,
      ContextEvent.lost?,List.append_nil,List.count_append,List.count_singleton,beq_iff_eq]
    by_cases hk : k = g
    · subst hk
      simp only [Function.update_self,List.count_append,List.count_singleton,beq_iff_eq,Prod.mk.injEq,and_true]
      omega
    · rw [Function.update_of_ne hk,if_neg (by simp [Ne.symm hk])]
      exact hcount

theorem Books.context {g : ℕ} {msg : ContextMsg} {rest : List ContextMsg} (hb : Books s log)
    (hm : s.inbox g = msg::rest) :
    Books { s with inbox := Function.update s.inbox g rest, tasks := s.tasks++[.ofMsg g msg] } log := by
  have hwaits : (ContextTask.ofMsg g msg : ContextTask α).waits = true := by cases msg <;> rfl
  have hholds : (ContextTask.ofMsg g msg : ContextTask α).holdsRunner = false := by cases msg <;> rfl
  have hfaith : (ContextTask.ofMsg g msg : ContextTask α).faithful := by
    cases msg with
    | execute output => exact EngineTask.faithful_fresh
    | rebuild reply => exact trivial
  refine ⟨hb.child_eq,hb.seq_eq,hb.handed,hb.began,?_,?_,all_of_snoc hb.faithful hfaith⟩
  · intro m k
    have hcount := hb.conserved m k
    have hone : (ContextTask.ofMsg g msg : ContextTask α).waitsFor m k = decide (msg = m ∧ g = k) := by
      rw [ContextTask.waitsFor,hwaits,Bool.and_true]
      rfl
    simp only [List.countP_append,List.countP_singleton,hone,decide_eq_true_eq]
    by_cases hk : k = g
    · subst hk
      rw [hm,List.count_cons] at hcount
      simp only [Function.update_self,and_true]
      simp only [beq_iff_eq] at hcount
      omega
    · rw [Function.update_of_ne hk,if_neg (by simp [Ne.symm hk])]
      exact hcount
  · intro k
    rw [List.countP_append,List.countP_singleton,ContextTask.holdsRunnerOf,hholds,Bool.and_false,
      if_neg Bool.false_ne_true]
    exact hb.exclusive k

/-- What was left in the mailbox of a child that is gone is lost. -/
theorem Books.stopped (hb : Books s log) (g : ℕ) :
    Books { s with inbox := Function.update s.inbox g [] } (log++(s.inbox g).map fun msg => .lost msg g) := by
  have hp : ((s.inbox g).map fun msg => ContextEvent.lost msg g).countP ContextEvent.isPoisoned = 0 := by
    rw [List.countP_map]
    exact List.countP_eq_zero.mpr fun _ _ => Bool.false_ne_true
  have hh : ((s.inbox g).map fun msg => ContextEvent.lost msg g).filterMap ContextEvent.handed? = [] := by
    rw [List.filterMap_map]
    exact List.filterMap_eq_nil_iff.mpr fun _ _ => rfl
  have hbe : ((s.inbox g).map fun msg => ContextEvent.lost msg g).filterMap ContextEvent.began? = [] := by
    rw [List.filterMap_map]
    exact List.filterMap_eq_nil_iff.mpr fun _ _ => rfl
  have hlo : ((s.inbox g).map fun msg => ContextEvent.lost msg g).filterMap ContextEvent.lost? =
      (s.inbox g).map fun msg => (msg,g) := by
    rw [List.filterMap_map,← List.filterMap_eq_map]
    rfl
  have hmem : ∀ pre e post, ((s.inbox g).map fun msg => ContextEvent.lost msg g) = pre++e::post →
      ∃ m, e = .lost m g := by
    intro pre e post heq
    have he : e ∈ (s.inbox g).map fun msg => ContextEvent.lost msg g := by rw [heq]; simp
    obtain ⟨m,-,hm⟩ := List.mem_map.mp he
    exact ⟨m,hm.symm⟩
  refine ⟨hb.child_eq,?_,hb.handed.append ?_,hb.began.append ?_,?_,hb.exclusive,hb.faithful⟩
  · rw [List.countP_append,hp]
    exact hb.seq_eq
  · intro pre e post heq msg k he
    obtain ⟨m,rfl⟩ := hmem pre e post heq
    cases he
  · intro pre e post heq msg k he
    obtain ⟨m,rfl⟩ := hmem pre e post heq
    cases he
  · intro m k
    have hcount := hb.conserved m k
    simp only [List.filterMap_append,hh,hbe,hlo,List.append_nil,List.count_append]
    by_cases hk : k = g
    · subst hk
      have hpair : ((s.inbox k).map fun msg => (msg,k)).count (m,k) = (s.inbox k).count m :=
        List.count_map_of_injective _ _ (fun _ _ h => (Prod.mk.inj h).1) m
      rw [Function.update_self,List.count_nil,hpair]
      omega
    · have hpair : ((s.inbox g).map fun msg => (msg,g)).count (m,k) = 0 := by
        apply List.count_eq_zero_of_not_mem
        intro hmem
        obtain ⟨x,-,hx⟩ := List.mem_map.mp hmem
        exact hk (Prod.mk.inj hx).2.symm
      rw [Function.update_of_ne hk,hpair]
      exact hcount

/-- Each message that the context is poisoned takes the next number, whether or not the spawn succeeds. -/
theorem Books.contextPoisoned (hb : Books s log) (spawned : Bool) :
    Books (({ s with child := none } : WorkerActor α).spawnChild spawned) (log++[.poisoned]) := by
  have hseq := hb.seq_eq
  refine ⟨?_,?_,hb.handed.concat ?_,hb.began.concat ?_,?_,hb.exclusive,hb.faithful⟩
  · intro g hg
    cases spawned <;> cases hg
    rfl
  · simp [spawnChild]
    omega
  · intro msg g he
    cases he
  · intro msg g he
    cases he
  · intro msg g
    have hcount := hb.conserved msg g
    simpa [List.filterMap_cons,spawnChild] using hcount

theorem books_step (hb : Books s log) (h : step s a = some t) : Books t (log++event s a) := by
  have hmove := move_of_step h
  revert hmove
  generalize event s a = l
  intro hmove
  cases hmove with
  | tell msg hc => exact hb.tell msg hc
  | unheard hc hp hh hb' hl =>
    apply hb.quiet
    intro e he
    rw [List.mem_singleton.mp he]
    exact ⟨hp,hh,hb',hl⟩
  | contextPoisoned spawned => exact hb.contextPoisoned spawned
  | context hm =>
    rw [List.append_nil]
    exact hb.context hm
  | @stopped g hc => exact hb.stopped g
  | lock hx hw hfree hg hm hy hf => exact hb.lock hx hw hfree hg hy hf
  | work hx hg hm hw hh hf hl =>
    apply (hb.work hx hg hm hw hh hf).quiet
    intro e he
    rcases hl with rfl | ⟨reply,res,rfl⟩
    · cases he
    · rw [List.mem_singleton.mp he]
      exact ⟨rfl,rfl,rfl,rfl⟩

/-- What holds of a worker and of everything that has happened at it. -/
structure WorkerLaw (s : WorkerActor α) (log : List ContextEvent) : Prop where
  current : ∀ g, s.child = some g → g = 1+log.countP ContextEvent.isPoisoned
  generation : ∀ pre msg g post, log = pre++.began msg g::post →
    ∃ before between, pre = before++.handed msg g::between ∧ g = 1+before.countP ContextEvent.isPoisoned
  once : ∀ msg g,
    (log.filterMap ContextEvent.began?).count (msg,g)+(log.filterMap ContextEvent.lost?).count (msg,g) ≤
      (log.filterMap ContextEvent.handed?).count (msg,g)
  exclusive : ∀ g, s.tasks.countP (ContextTask.holdsRunnerOf g) ≤ 1
  output : ∀ x ∈ s.tasks, ∀ y, x.work = .execute y →
    (y.refusal = none → y.output <+: y.yielded) ∧ ∀ e, y.refusal = some e → y.output = [] ∨ y.output = [.error e]

/-- Over every order of the messages, the children and their tasks: a message runs at most once and only on the
runner that was the current one when the parent handled it, which only a message that the context is poisoned
replaces, never an error of the runner; no runner serves two tasks at once; and each output has a prefix of the
runner's stream, or at most the one error. -/
theorem worker_law {spawned : Bool} {as : List (ContextAction α)} (h : exec step (preStart spawned) as = some s) :
    WorkerLaw s (logged step event (preStart spawned) as) := by
  have hb : Books s ([]++logged step event (preStart spawned) as) :=
    exec_logged (fun s a t log hs hstep => books_step hs hstep) (books_preStart spawned) h
  rw [List.nil_append] at hb
  refine ⟨?_,?_,?_,hb.exclusive,?_⟩
  · intro g hg
    rw [hb.child_eq g hg,hb.seq_eq]
  · intro pre msg g post hlog
    obtain ⟨before,between,hpre⟩ := List.append_of_mem (hb.began pre _ post hlog msg g rfl)
    refine ⟨before,between,hpre,?_⟩
    apply hb.handed before (.handed msg g) (between++.began msg g::post) _ msg g rfl
    rw [hlog,hpre,List.append_assoc,List.cons_append]
  · intro msg g
    have hcount := hb.conserved msg g
    omega
  · intro x hx y hy
    have hf := hb.faithful x hx
    rw [ContextTask.faithful,hy] at hf
    exact hf.output_of_stream

/-- After a poisoned context was reported to its request only, the next request runs on the same runner. -/
theorem worker_law_poisoned :
    let as : List (ContextAction Unit) := [.tell (.execute 0),.context 1,.task 0 .lock,
      .task 0 (.refuse (.cudaContextPoisoned "sticky")),.task 0 .send,.finish 0,.tell (.execute 1),.context 1,
      .task 1 .lock]
    ∃ s, exec step (preStart true) as = some s ∧ WorkerLaw s (logged step event (preStart true) as) ∧
      (.execute 1,1) ∈ (logged step event (preStart true) as).filterMap ContextEvent.began? := by
  intro as
  have hsome : (exec step (preStart true) as).isSome = true := by rfl
  obtain ⟨s,hs⟩ := Option.isSome_iff_exists.mp hsome
  exact ⟨s,hs,worker_law hs,by decide⟩

end WorkerActor
end RakkaInference
