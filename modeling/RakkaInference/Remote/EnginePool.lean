import RakkaInference.Machine.Runs
import RakkaInference.Remote.EngineAccounts

/-! The engine together with the workers it hands requests to. A worker takes the requests
of its mailbox in order, one at a time, and sends one idle signal for each it has finished.
The signal does not say whose it is. -/
namespace RakkaInference
open Machine

structure EnginePool where
  engine : RemoteEngineCore
  mailbox : ℕ → List PriorityRequest
  running : ℕ → Option PriorityRequest
  /-- Idle signals on their way to the engine. -/
  signals : ℕ

inductive PoolAction
  | add (req : AddRequest)
  | start (i : ℕ)
  | finish (i : ℕ)
  | workerIdle

/-- Put what is handed over into the mailboxes. -/
def deliver (mailbox : ℕ → List PriorityRequest) : List EngineEffect → ℕ → List PriorityRequest
  | [] => mailbox
  | .dispatch i req::out => deliver (Function.update mailbox i (mailbox i++[req])) out
  | .admission _ _::out => deliver mailbox out

theorem deliver_append (mailbox : ℕ → List PriorityRequest) (out out' : List EngineEffect) :
    deliver mailbox (out++out') = deliver (deliver mailbox out) out' := by
  induction out generalizing mailbox with
  | nil => rfl
  | cons f out ih =>
    cases f with
    | dispatch i req => exact ih _
    | admission c r => exact ih _

namespace EnginePool

def init (config : RemoteEngineConfig) (spawn : ℕ → Bool) : EnginePool :=
  ⟨(RemoteEngineCore.new config).preStart spawn,fun _ => [],fun _ => none,0⟩

/-- The engine handles one message. -/
def receive (s : EnginePool) (m : EngineMsg) : EnginePool :=
  { s with
    engine := (s.engine.handle m).1
    mailbox := deliver s.mailbox (s.engine.handle m).2 }

def step (s : EnginePool) : PoolAction → Option EnginePool
  | .add req => some (s.receive (.add req))
  | .start i =>
    match s.running i,s.mailbox i with
    | none,req::rest => some { s with
        mailbox := Function.update s.mailbox i rest
        running := Function.update s.running i (some req) }
    | _,_ => none
  | .finish i =>
    match s.running i with
    | some _ => some { s with
        running := Function.update s.running i none
        signals := s.signals+1 }
    | none => none
  | .workerIdle =>
    if s.signals = 0 then none
    else some (({ s with signals := s.signals-1 } : EnginePool).receive .workerIdle)

/-- What the engine puts out in a step. -/
def sent (s : EnginePool) : PoolAction → List EngineEffect
  | .add req => (s.engine.handle (.add req)).2
  | .workerIdle => (s.engine.handle .workerIdle).2
  | _ => []

variable {s t : EnginePool} {a : PoolAction}

/-- Everything that an action can do. -/
inductive Move (s : EnginePool) : PoolAction → EnginePool → Prop
  | add (req : AddRequest) : Move s (.add req) (s.receive (.add req))
  | start {i : ℕ} {req : PriorityRequest} {rest : List PriorityRequest} (hr : s.running i = none)
      (hm : s.mailbox i = req::rest) :
      Move s (.start i) { s with
        mailbox := Function.update s.mailbox i rest
        running := Function.update s.running i (some req) }
  | finish {i : ℕ} {req : PriorityRequest} (hr : s.running i = some req) :
      Move s (.finish i) { s with
        running := Function.update s.running i none
        signals := s.signals+1 }
  | workerIdle {n : ℕ} (hn : s.signals = n+1) :
      Move s .workerIdle (({ s with signals := n } : EnginePool).receive .workerIdle)

theorem move_of_step (h : step s a = some t) : Move s a t := by
  revert h
  fun_cases step s a
  all_goals rintro ⟨⟩
  case case1 req => exact .add req
  case case2 i req rest hm hr => exact .start hr hm
  case case4 i req hr => exact .finish hr
  case case7 hn =>
    obtain ⟨n,hn⟩ := Nat.exists_eq_succ_of_ne_zero hn
    rw [hn]
    exact .workerIdle hn

/-- A worker with nothing to do. -/
def Free (s : EnginePool) (i : ℕ) : Prop := s.mailbox i = [] ∧ s.running i = none

/-- Whatever is handed over in the step goes to a worker with nothing to do. -/
def DispatchesFree (s : EnginePool) (a : PoolAction) : Prop :=
  ∀ t, step s a = some t → ∀ i req, .dispatch i req ∈ sent s a →
    s.Free i ∧ t.mailbox i = [req] ∧ t.running i = none

/-- No request waits behind a running one. -/
def NoneWaits (s : EnginePool) : Prop := ∀ i req, s.running i = some req → s.mailbox i = []

/-- When an idle signal is handled, the first busy entry is that of a worker with nothing
to do. -/
def SignalMatches (s : EnginePool) (a : PoolAction) : Prop :=
  a = .workerIdle → ∀ w ws, flipFirst false s.engine.workers = some (w,ws) → s.Free w.addr

/-- The idle flags are right, and no worker has more than one request. -/
structure Matched (ws : List WorkerEntry) (mailbox : ℕ → List PriorityRequest)
    (running : ℕ → Option PriorityRequest) : Prop where
  nodup : (ws.map WorkerEntry.addr).Nodup
  idle : ∀ w ∈ ws, w.idle = true → mailbox w.addr = [] ∧ running w.addr = none
  single : ∀ i, mailbox i = [] ∨ running i = none ∧ ∃ req, mailbox i = [req]

variable {ws ws' : List WorkerEntry} {mailbox : ℕ → List PriorityRequest}
  {running : ℕ → Option PriorityRequest}

theorem flipFirst_addr {b : Bool} {w : WorkerEntry} (hf : flipFirst b ws = some (w,ws')) :
    ws'.map WorkerEntry.addr = ws.map WorkerEntry.addr := by
  obtain ⟨pre,post,rfl,-,-,rfl⟩ := flipFirst_eq_some hf
  simp

/-- Turning a flag leaves the other entries. -/
theorem mem_of_mem_flipFirst {b : Bool} {w v : WorkerEntry} (hf : flipFirst b ws = some (w,ws'))
    (hv : v ∈ ws') : v = { w with idle := !b } ∨ v ∈ ws := by
  obtain ⟨pre,post,rfl,-,-,rfl⟩ := flipFirst_eq_some hf
  simp only [List.mem_append,List.mem_cons] at hv ⊢
  tauto

theorem mem_of_flipFirst {b : Bool} {w : WorkerEntry} (hf : flipFirst b ws = some (w,ws')) :
    w ∈ ws ∧ w.idle = b := by
  obtain ⟨pre,post,rfl,-,hw,rfl⟩ := flipFirst_eq_some hf
  exact ⟨by simp,hw⟩

/-- Entries are told apart by their addresses. -/
theorem eq_of_addr_eq (hn : (ws.map WorkerEntry.addr).Nodup) {v w : WorkerEntry} (hv : v ∈ ws)
    (hw : w ∈ ws) (h : v.addr = w.addr) : v = w := List.inj_on_of_nodup_map hn hv hw h

/-- Handing a request to an idle entry keeps the flags right. -/
theorem matched_dispatch {w : WorkerEntry} {req : PriorityRequest}
    (hm : Matched ws mailbox running) (hf : flipFirst true ws = some (w,ws')) :
    Matched ws' (Function.update mailbox w.addr (mailbox w.addr++[req])) running := by
  obtain ⟨hw,hidle⟩ := mem_of_flipFirst hf
  obtain ⟨hempty,hfree⟩ := hm.idle w hw hidle
  refine ⟨by rw [flipFirst_addr hf]; exact hm.nodup,?_,?_⟩
  · intro v hv hvi
    rcases mem_of_mem_flipFirst hf hv with rfl | hv'
    · simp at hvi
    · have hne : v.addr ≠ w.addr := by
        intro heq
        -- the entry that was turned is busy now, and no other has its address
        have hn : (ws'.map WorkerEntry.addr).Nodup := by rw [flipFirst_addr hf]; exact hm.nodup
        obtain ⟨pre,post,-,-,-,rfl⟩ := flipFirst_eq_some hf
        have hveq := eq_of_addr_eq hn hv (w := { w with idle := !true }) (by simp) heq
        rw [hveq] at hvi
        simp at hvi
      rw [Function.update_of_ne hne]
      exact hm.idle v hv' hvi
  · intro i
    by_cases hi : i = w.addr
    · subst hi
      rw [Function.update_self,hempty,List.nil_append]
      exact .inr ⟨hfree,req,rfl⟩
    · rw [Function.update_of_ne hi]
      exact hm.single i

/-- What the loop keeps: the flags stay right, and each request handed over so far is all
that its worker has. -/
theorem matched_tryDispatch {e : RemoteEngineCore} (hm : Matched e.workers mailbox running) :
    Matched e.tryDispatch.1.workers (deliver mailbox e.tryDispatch.2) running ∧
    ∀ i req, .dispatch i req ∈ e.tryDispatch.2 →
      (mailbox i = [] ∧ running i = none) ∧ deliver mailbox e.tryDispatch.2 i = [req] := by
  refine RemoteEngineCore.tryDispatch_invariant
    (I := fun e out => Matched e.workers (deliver mailbox out) running ∧
      (∀ i, deliver mailbox out i = [] → mailbox i = []) ∧
      ∀ i req, .dispatch i req ∈ out →
        (mailbox i = [] ∧ running i = none) ∧ deliver mailbox out i = [req])
    ?_ ⟨hm,fun _ h => h,by simp⟩ |>.imp id And.right
  rintro e e' f out ⟨hI,hgrow,hsent⟩ hd
  obtain ⟨w,ws,req,rest,hf,-,rfl,rfl⟩ := RemoteEngineCore.dispatchOne_cases hd
  obtain ⟨hw,hidle⟩ := mem_of_flipFirst hf
  obtain ⟨hempty,hfree⟩ := hI.idle w hw hidle
  have hone : deliver mailbox (out++[.dispatch w.addr req]) =
      Function.update (deliver mailbox out) w.addr (deliver mailbox out w.addr++[req]) := by
    rw [deliver_append]
    rfl
  rw [hone]
  refine ⟨matched_dispatch hI hf,?_,?_⟩
  · intro i hi
    by_cases heq : i = w.addr
    · subst heq
      exact hgrow _ hempty
    · rw [Function.update_of_ne heq] at hi
      exact hgrow i hi
  · intro i r hr
    rcases List.mem_append.mp hr with hr | hr
    · obtain ⟨hold,hget⟩ := hsent i r hr
      have hne : i ≠ w.addr := by
        rintro rfl
        rw [hempty] at hget
        contradiction
      rw [Function.update_of_ne hne]
      exact ⟨hold,hget⟩
    · cases List.mem_singleton.mp hr
      rw [Function.update_self,hempty,List.nil_append]
      exact ⟨⟨hgrow _ hempty,hfree⟩,rfl⟩

/-- What an added request does beyond the loop concerns neither workers nor mailboxes. -/
theorem handle_add (e : RemoteEngineCore) (req : AddRequest) (mailbox : ℕ → List PriorityRequest) :
    (e.enqueue req).1.workers = e.workers ∧
    deliver mailbox (e.handle (.add req)).2 = deliver mailbox (e.enqueue req).1.tryDispatch.2 ∧
    ∀ i r, .dispatch i r ∈ (e.handle (.add req)).2 → .dispatch i r ∈ (e.enqueue req).1.tryDispatch.2 := by
  have hans : ∃ c r, (e.enqueue req).2 = [.admission c r] := by
    rcases e.enqueue_cases req with ⟨-,hen⟩ | ⟨-,hen⟩ <;> rw [hen] <;> exact ⟨_,_,rfl⟩
  obtain ⟨c,answer,hans⟩ := hans
  refine ⟨?_,?_,?_⟩
  · rcases e.enqueue_cases req with ⟨-,hen⟩ | ⟨-,hen⟩ <;> rw [hen]
  · rw [RemoteEngineCore.handle,hans,deliver_append]
    rfl
  · intro i r hr
    rw [RemoteEngineCore.handle,hans] at hr
    simpa using hr

theorem matched_markIdle {e : RemoteEngineCore} (hm : Matched e.workers mailbox running)
    (hc : ∀ w ws, flipFirst false e.workers = some (w,ws) → mailbox w.addr = [] ∧ running w.addr = none) :
    Matched e.markIdle.workers mailbox running := by
  rcases e.markIdle_cases with ⟨-,he⟩ | ⟨w,ws,hf,he⟩
  · rwa [he]
  · rw [he]
    refine ⟨by rw [flipFirst_addr hf]; exact hm.nodup,?_,hm.single⟩
    intro v hv hvi
    rcases mem_of_mem_flipFirst hf hv with rfl | hv
    · exact hc w ws hf
    · exact hm.idle v hv hvi

/-- A worker that takes its next request has no other. -/
theorem matched_start {i : ℕ} {req : PriorityRequest} {rest : List PriorityRequest}
    (hm : Matched ws mailbox running) (hmb : mailbox i = req::rest) :
    Matched ws (Function.update mailbox i rest) (Function.update running i (some req)) := by
  refine ⟨hm.nodup,?_,?_⟩
  · intro w hw hidle
    obtain ⟨h1,h2⟩ := hm.idle w hw hidle
    have hne : w.addr ≠ i := by
      rintro rfl
      rw [h1] at hmb
      contradiction
    simp only [Function.update_of_ne hne]
    exact ⟨h1,h2⟩
  · intro j
    by_cases hj : j = i
    · subst hj
      simp only [Function.update_self]
      rcases hm.single j with hnil | ⟨-,r,hget⟩
      · rw [hnil] at hmb
        contradiction
      · rw [hget] at hmb
        cases hmb
        exact .inl rfl
    · simp only [Function.update_of_ne hj]
      exact hm.single j

theorem matched_finish {i : ℕ} {req : PriorityRequest} (hm : Matched ws mailbox running)
    (hr : running i = some req) : Matched ws mailbox (Function.update running i none) := by
  refine ⟨hm.nodup,?_,?_⟩
  · intro w hw hidle
    obtain ⟨h1,h2⟩ := hm.idle w hw hidle
    have hne : w.addr ≠ i := by
      rintro rfl
      rw [h2] at hr
      contradiction
    simp only [Function.update_of_ne hne]
    exact ⟨h1,h2⟩
  · intro j
    by_cases hj : j = i
    · subst hj
      rcases hm.single j with hnil | ⟨hnone,-⟩
      · exact .inl hnil
      · rw [hnone] at hr
        contradiction
    · simp only [Function.update_of_ne hj]
      exact hm.single j

/-- One step, from a state with right flags. -/
theorem matched_step (hm : Matched s.engine.workers s.mailbox s.running) (hc : SignalMatches s a)
    (h : step s a = some t) :
    Matched t.engine.workers t.mailbox t.running ∧
    ∀ i req, .dispatch i req ∈ sent s a → s.Free i ∧ t.mailbox i = [req] ∧ t.running i = none := by
  cases move_of_step h with
  | add req =>
    obtain ⟨hws,hdel,hmem⟩ := handle_add s.engine req s.mailbox
    obtain ⟨hm',hsent⟩ := matched_tryDispatch (e := (s.engine.enqueue req).1) (by rw [hws]; exact hm)
    refine ⟨?_,fun i r hr => ?_⟩
    · simp only [receive,hdel]
      exact hm'
    · obtain ⟨hfree,hget⟩ := hsent i r (hmem i r hr)
      simp only [receive,hdel]
      exact ⟨hfree,hget,hfree.2⟩
  | start hr hmb => exact ⟨matched_start hm hmb,by simp [sent]⟩
  | finish hr => exact ⟨matched_finish hm hr,by simp [sent]⟩
  | workerIdle hn =>
    obtain ⟨hm',hsent⟩ := matched_tryDispatch (e := s.engine.markIdle)
      (matched_markIdle hm (hc rfl))
    refine ⟨hm',fun i r hr => ?_⟩
    obtain ⟨hfree,hget⟩ := hsent i r hr
    exact ⟨hfree,hget,hfree.2⟩

theorem matched_init (config : RemoteEngineConfig) (spawn : ℕ → Bool) :
    Matched (init config spawn).engine.workers (init config spawn).mailbox
      (init config spawn).running := by
  refine ⟨?_,fun _ _ _ => ⟨rfl,rfl⟩,fun _ => .inl rfl⟩
  have haddr : (init config spawn).engine.workers.map WorkerEntry.addr =
      (List.range config.workerCount).filter spawn := by
    simp [init,RemoteEngineCore.preStart,RemoteEngineCore.new,Function.comp_def]
  rw [haddr]
  exact List.nodup_range.filter _

theorem throughout_dispatchesFree {config : RemoteEngineConfig} {spawn : ℕ → Bool}
    {as : List PoolAction} (h : exec step (init config spawn) as = some t)
    (hc : Throughout step SignalMatches (init config spawn) as) :
    Throughout step DispatchesFree (init config spawn) as := by
  refine throughout_of_invariant (I := fun s => Matched s.engine.workers s.mailbox s.running)
    (fun s a t hm hc h => (matched_step hm hc h).1) ?_ (matched_init config spawn) hc h
  intro s a t hm hc _ t' ht' i req hreq
  exact (matched_step hm hc ht').2 i req hreq

/-- In every run in which each idle signal finds the worker of the first busy entry with
nothing to do, requests are only handed to workers with nothing to do, and none ever waits
behind a running one. -/
theorem dispatchesFree_of_signalMatches {config : RemoteEngineConfig} {spawn : ℕ → Bool}
    {as : List PoolAction} (h : exec step (init config spawn) as = some t)
    (hc : Throughout step SignalMatches (init config spawn) as) :
    Throughout step DispatchesFree (init config spawn) as ∧
      Always step NoneWaits (init config spawn) as := by
  refine ⟨throughout_dispatchesFree h hc,?_⟩
  intro pre u hpre hu i req hr
  have hm := always_of_invariant (I := fun s => Matched s.engine.workers s.mailbox s.running)
    (fun s a t hm hc h => (matched_step hm hc h).1) (matched_init config spawn) hc pre u hpre hu
  rcases hm.single i with hnil | ⟨hnone,-⟩
  · exact hnil
  · rw [hnone] at hr
    contradiction

def twoWorkers : EnginePool := init { queueCapacity := 4, workerCount := 2 } fun _ => true

def plainRequest : AddRequest := ⟨.normal,⟨"r","m",[],{},true,1⟩,0,0⟩

def inOrder : List PoolAction :=
  [.add plainRequest,.add plainRequest,.start 0,.start 1,.finish 0,.workerIdle,.add plainRequest]

/-- Two workers that finish in the order in which they were started. -/
theorem dispatchesFree_inOrder : (∃ t, exec step twoWorkers inOrder = some t) ∧
    Throughout step DispatchesFree twoWorkers inOrder ∧ Always step NoneWaits twoWorkers inOrder := by
  refine ⟨⟨_,rfl⟩,dispatchesFree_of_signalMatches rfl ?_⟩
  have hskip : ∀ (s : EnginePool) (a : PoolAction), a ≠ .workerIdle → SignalMatches s a :=
    fun _ _ hne h => absurd h hne
  refine ⟨hskip _ _ (by simp),fun s₁ h₁ => ⟨hskip _ _ (by simp),fun s₂ h₂ => ⟨hskip _ _ (by simp),
    fun s₃ h₃ => ⟨hskip _ _ (by simp),fun s₄ h₄ => ⟨hskip _ _ (by simp),fun s₅ h₅ =>
      ⟨fun _ w ws hf => ?_,fun s₆ h₆ => ⟨hskip _ _ (by simp),fun _ _ => trivial⟩⟩⟩⟩⟩⟩⟩
  cases h₁
  cases h₂
  cases h₃
  cases h₄
  cases h₅
  cases hf
  exact ⟨rfl,rfl⟩

def outOfOrder : List PoolAction :=
  [.add plainRequest,.add plainRequest,.start 0,.start 1,.finish 1,.workerIdle]

/-- Worker 1 finishes first and its signal marks worker 0 idle, so the next request waits
behind the one that worker 0 is running, while worker 1 has nothing to do. -/
theorem dispatchesFree_fails_outOfOrder : ∃ s t r₀ r₂,
    exec step twoWorkers outOfOrder = some s ∧ s.running 0 = some r₀ ∧ s.Free 1 ∧
    step s (.add plainRequest) = some t ∧ .dispatch 0 r₂ ∈ sent s (.add plainRequest) ∧
    t.running 0 = some r₀ ∧ t.mailbox 0 = [r₂] ∧ t.Free 1 ∧
    ¬ DispatchesFree s (.add plainRequest) ∧ ¬ NoneWaits t := by
  refine ⟨_,_,_,_,rfl,rfl,⟨rfl,rfl⟩,rfl,.tail _ (.head _),rfl,rfl,⟨rfl,rfl⟩,fun h => ?_,fun h => ?_⟩
  · have hfree := (h _ rfl 0 _ (.tail _ (.head _))).1.2
    cases hfree
  · have hnil := h 0 _ rfl
    cases hnil

end EnginePool
end RakkaInference
