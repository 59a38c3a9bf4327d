import Mathlib.Algebra.BigOperators.Group.Finset.Piecewise
import RakkaInference.Remote.EnginePool

/-! Idle signals in aggregate. Although a signal may turn the flag of the wrong worker, the
number of busy flags is right, and with at most one worker so is each flag. -/
namespace RakkaInference
open Machine

namespace EnginePool
variable {s t : EnginePool} {a : PoolAction} {ws ws' : List WorkerEntry}
  {mailbox : ℕ → List PriorityRequest} {running : ℕ → Option PriorityRequest}

/-- The requests that a worker has not finished. -/
def unfinished (mailbox : ℕ → List PriorityRequest) (running : ℕ → Option PriorityRequest) (i : ℕ) : ℕ :=
  (mailbox i).length+(running i).toList.length

/-- Although an idle signal may turn the wrong flag, the number of busy flags is the number
of unfinished requests and of signals on their way. -/
structure Tallied (N : ℕ) (ws : List WorkerEntry) (mailbox : ℕ → List PriorityRequest)
    (running : ℕ → Option PriorityRequest) (signals : ℕ) : Prop where
  bound : ∀ w ∈ ws, w.addr < N
  outside : ∀ i, N ≤ i → mailbox i = [] ∧ running i = none
  total : ∑ i ∈ Finset.range N,unfinished mailbox running i+signals = ws.countP fun w => !w.idle

theorem sum_range_add_ite (f : ℕ → ℕ) {N i : ℕ} (hi : i < N) :
    ∑ j ∈ Finset.range N,(f j+if j = i then 1 else 0) = ∑ j ∈ Finset.range N,f j+1 := by
  rw [Finset.sum_add_distrib,Finset.sum_ite_eq',if_pos (Finset.mem_range.mpr hi)]

theorem bound_of_addr_eq {N : ℕ} (haddr : ws'.map WorkerEntry.addr = ws.map WorkerEntry.addr)
    (hb : ∀ w ∈ ws, w.addr < N) : ∀ w ∈ ws', w.addr < N := by
  intro w hw
  have hmem : w.addr ∈ ws.map WorkerEntry.addr := by
    rw [← haddr]
    exact List.mem_map_of_mem hw
  obtain ⟨v,hv,heq⟩ := List.mem_map.mp hmem
  rw [← heq]
  exact hb v hv

theorem tallied_tryDispatch {N signals : ℕ} {e : RemoteEngineCore}
    (ht : Tallied N e.workers mailbox running signals) :
    Tallied N e.tryDispatch.1.workers (deliver mailbox e.tryDispatch.2) running signals := by
  refine RemoteEngineCore.tryDispatch_invariant
    (I := fun e out => Tallied N e.workers (deliver mailbox out) running signals) ?_ ht
  rintro e e' f out ⟨hb,hout,htot⟩ hd
  obtain ⟨w,ws,req,rest,hf,-,rfl,rfl⟩ := RemoteEngineCore.dispatchOne_cases hd
  have hone : ∀ j, unfinished (deliver mailbox (out++[.dispatch w.addr req])) running j =
      unfinished (deliver mailbox out) running j+if j = w.addr then 1 else 0 := by
    intro j
    rw [deliver_append]
    simp only [deliver,unfinished]
    by_cases hj : j = w.addr
    · subst hj
      simp only [Function.update_self,List.length_append,List.length_singleton,if_true]
      omega
    · rw [Function.update_of_ne hj,if_neg hj,Nat.add_zero]
  have hcount := countP_of_flipFirst_true hf
  have hw := hb w (mem_of_flipFirst hf).1
  refine ⟨bound_of_addr_eq (flipFirst_addr hf) hb,fun i hi => ?_,?_⟩
  · rw [deliver_append]
    simp only [deliver]
    rw [Function.update_of_ne (by omega)]
    exact hout i hi
  rw [Finset.sum_congr rfl fun j _ => hone j,sum_range_add_ite _ hw]
  simp only
  omega

/-- The request that a worker takes up is as unfinished as it was. -/
theorem tallied_start {N signals i : ℕ} {req : PriorityRequest} {rest : List PriorityRequest}
    (ht : Tallied N ws mailbox running signals) (hr : running i = none) (hmb : mailbox i = req::rest) :
    Tallied N ws (Function.update mailbox i rest) (Function.update running i (some req)) signals := by
  refine ⟨ht.bound,fun j hj => ?_,?_⟩
  · have hne : j ≠ i := by
      rintro rfl
      rw [(ht.outside j hj).1] at hmb
      contradiction
    simp only [Function.update_of_ne hne]
    exact ht.outside j hj
  · rw [← ht.total]
    congr 1
    apply Finset.sum_congr rfl
    intro j _
    by_cases hj : j = i
    · subst hj
      simp only [unfinished,Function.update_self,hr,hmb,List.length_cons,Option.toList_some,
        Option.toList_none,List.length_nil]
    · simp only [unfinished,Function.update_of_ne hj]

/-- A finished request becomes a signal. -/
theorem tallied_finish {N signals i : ℕ} {req : PriorityRequest}
    (ht : Tallied N ws mailbox running signals) (hr : running i = some req) :
    Tallied N ws mailbox (Function.update running i none) (signals+1) := by
  have hi : i < N := by
    by_contra hge
    rw [(ht.outside i (by omega)).2] at hr
    contradiction
  refine ⟨ht.bound,fun j hj => ?_,?_⟩
  · simp only [Function.update_of_ne (show j ≠ i by omega)]
    exact ht.outside j hj
  · rw [← ht.total]
    have hone : ∀ j, unfinished mailbox running j =
        unfinished mailbox (Function.update running i none) j+if j = i then 1 else 0 := by
      intro j
      by_cases hj : j = i
      · subst hj
        simp [unfinished,hr]
      · simp [unfinished,hj]
    rw [Finset.sum_congr rfl fun j _ => hone j,sum_range_add_ite _ hi]
    omega

/-- A signal that is handled is taken off the count together with one busy flag. -/
theorem tallied_markIdle {N n : ℕ} {e : RemoteEngineCore}
    (ht : Tallied N e.workers mailbox running (n+1)) :
    Tallied N e.markIdle.workers mailbox running n := by
  have htot := ht.total
  rcases e.markIdle_cases with ⟨hidle,-⟩ | ⟨w,ws,hf,he⟩
  · -- a signal that finds nobody busy would have no unfinished request behind it
    have hz : e.workers.countP (fun w => !w.idle) = 0 := by
      rw [List.countP_eq_zero]
      intro w hw
      simp [hidle w hw]
    omega
  · have hcount := countP_of_flipFirst_false hf
    rw [he]
    refine ⟨bound_of_addr_eq (flipFirst_addr hf) ht.bound,ht.outside,?_⟩
    simp only
    omega

theorem tallied_step {N : ℕ} (ht : Tallied N s.engine.workers s.mailbox s.running s.signals)
    (h : step s a = some t) :
    Tallied N t.engine.workers t.mailbox t.running t.signals := by
  cases move_of_step h with
  | add req =>
    obtain ⟨hws,hdel,-⟩ := handle_add s.engine req s.mailbox
    simp only [receive,hdel]
    exact tallied_tryDispatch (by rw [hws]; exact ht)
  | start hr hmb => exact tallied_start ht hr hmb
  | finish hr => exact tallied_finish ht hr
  | workerIdle hn =>
    rw [hn] at ht
    exact tallied_tryDispatch (tallied_markIdle ht)

theorem tallied_init (config : RemoteEngineConfig) (spawn : ℕ → Bool) :
    Tallied config.workerCount (init config spawn).engine.workers (init config spawn).mailbox
      (init config spawn).running (init config spawn).signals := by
  have hcount := (accounts_init config spawn).inFlight_eq
  refine ⟨fun w hw => ?_,fun _ _ => ⟨rfl,rfl⟩,?_⟩
  · obtain ⟨i,hi,rfl⟩ := List.mem_map.mp hw
    exact List.mem_range.mp (List.mem_of_mem_filter hi)
  · have hz : ∑ i ∈ Finset.range config.workerCount,
        unfinished (init config spawn).mailbox (init config spawn).running i = 0 :=
      Finset.sum_eq_zero fun _ _ => rfl
    rw [hz]
    exact hcount

theorem accounts_step {capacity : ℕ} (ha : ∃ h, Accounts capacity s.engine h)
    (h : step s a = some t) : ∃ h, Accounts capacity t.engine h := by
  obtain ⟨hist,ha⟩ := ha
  cases move_of_step h with
  | add req => exact ⟨_,accounts_handle ha (.add req)⟩
  | start hr hm => exact ⟨hist,ha⟩
  | finish hr => exact ⟨hist,ha⟩
  | workerIdle hn => exact ⟨_,accounts_handle ha .workerIdle⟩

variable {config : RemoteEngineConfig} {spawn : ℕ → Bool} {as : List PoolAction}

/-- The in-flight gauge counts right in aggregate: it is the number of requests that the
workers have not finished and of idle signals that the engine has not seen. -/
theorem inFlight_eq_unfinished (h : exec step (init config spawn) as = some s) :
    s.engine.metrics.inFlight =
      ∑ i ∈ Finset.range config.workerCount,unfinished s.mailbox s.running i+s.signals := by
  have hinv := exec_preserves
    (I := fun s => Tallied config.workerCount s.engine.workers s.mailbox s.running s.signals ∧
      ∃ h, Accounts config.queueCapacity s.engine h)
    (fun s a t hI hstep => ⟨tallied_step hI.1 hstep,accounts_step hI.2 hstep⟩)
    ⟨tallied_init config spawn,_,accounts_init config spawn⟩ h
  obtain ⟨ht,hist,ha⟩ := hinv
  rw [ha.inFlight_eq,ht.total]

/-- With a single worker an idle signal can only be that worker's. -/
theorem signalMatches_of_length_le {N : ℕ}
    (ht : Tallied N s.engine.workers s.mailbox s.running s.signals)
    (hlen : s.engine.workers.length ≤ 1) (h : step s a = some t) : SignalMatches s a := by
  rintro rfl w ws hf
  obtain ⟨n,hn⟩ : ∃ n, s.signals = n+1 := by
    cases move_of_step h with
    | workerIdle hn => exact ⟨_,hn⟩
  have hcount : s.engine.workers.countP (fun w => !w.idle) ≤ 1 := List.countP_le_length.trans hlen
  have htot := ht.total
  have hz : ∑ i ∈ Finset.range N,unfinished s.mailbox s.running i = 0 := by omega
  have hw := (Finset.sum_eq_zero_iff.mp hz) w.addr
    (Finset.mem_range.mpr (ht.bound w (mem_of_flipFirst hf).1))
  obtain ⟨h1,h2⟩ := Nat.add_eq_zero_iff.mp hw
  refine ⟨List.eq_nil_of_length_eq_zero h1,?_⟩
  cases hr : s.running w.addr with
  | none => rfl
  | some r => simp [hr] at h2

theorem tryDispatch_addr (e : RemoteEngineCore) :
    e.tryDispatch.1.workers.map WorkerEntry.addr = e.workers.map WorkerEntry.addr := by
  refine RemoteEngineCore.tryDispatch_invariant (I := fun e' _ =>
    e'.workers.map WorkerEntry.addr = e.workers.map WorkerEntry.addr) ?_ rfl
  intro e₁ e₂ f out hI hd
  obtain ⟨w,ws,req,rest,hf,-,-,rfl⟩ := RemoteEngineCore.dispatchOne_cases hd
  exact (flipFirst_addr hf).trans hI

/-- The workers are those that were spawned. -/
theorem addr_step (h : step s a = some t) :
    t.engine.workers.map WorkerEntry.addr = s.engine.workers.map WorkerEntry.addr := by
  cases move_of_step h with
  | add req =>
    have hws := (handle_add s.engine req s.mailbox).1
    exact (tryDispatch_addr _).trans (by rw [hws])
  | start hr hm => rfl
  | finish hr => rfl
  | workerIdle hn =>
    refine (tryDispatch_addr _).trans ?_
    rcases s.engine.markIdle_cases with ⟨-,he⟩ | ⟨w,ws,hf,he⟩
    · rw [he]
    · rw [he]
      exact flipFirst_addr hf

/-- With room in an empty queue and an idle worker, an added request goes straight to that
worker. -/
theorem handle_add_of_idle {e : RemoteEngineCore} {w : WorkerEntry} (hq : e.queue.inner = [])
    (hc : 0 < e.queue.capacity) (hf : flipFirst true e.workers = some (w,ws)) (req : AddRequest) :
    ∃ e' r, e.handle (.add req) = (e',[.admission req.admission (.ok ()),.dispatch w.addr r]) ∧
      e'.queue.inner = [] ∧ e'.queue.capacity = e.queue.capacity ∧ e'.workers = ws := by
  rcases e.enqueue_cases req with ⟨hfull,-⟩ | ⟨-,hen⟩
  · rw [hq,List.length_nil] at hfull
    omega
  · have hws := (handle_add e req fun _ => []).1
    have hlen : (e.enqueue req).1.queue.len = 1 := by
      rw [hen]
      simp [RequestQueue.len,hq]
    cases hd : (e.enqueue req).1.dispatchOne with
    | none =>
      rcases RemoteEngineCore.dispatchOne_eq_none_iff.mp hd with hnil | hbusy
      · rw [RequestQueue.len,hnil] at hlen
        contradiction
      · rw [hws] at hbusy
        rw [flipFirst_eq_none_iff.mpr hbusy] at hf
        contradiction
    | some p =>
      have hrest := RemoteEngineCore.dispatchOne_len hd
      obtain ⟨v,vs,r,rest,hv,hperm,hp,heq⟩ := RemoteEngineCore.dispatchOne_cases hd
      obtain ⟨rfl,rfl⟩ : v = w ∧ vs = ws := by simpa [hws,hf] using hv.symm
      refine ⟨p.1,r,?_,?_,?_,?_⟩
      · simp only [RemoteEngineCore.handle,RemoteEngineCore.tryDispatch,hlen,
          RemoteEngineCore.dispatchRounds,hd,hp]
        rw [hen]
        rfl
      · exact List.eq_nil_of_length_eq_zero (by unfold RequestQueue.len at hrest hlen; omega)
      · rw [heq,hen]
      · rw [heq]

theorem step_add_of_idle {w : WorkerEntry} (hq : s.engine.queue.inner = [])
    (hc : 0 < s.engine.queue.capacity) (hf : flipFirst true s.engine.workers = some (w,ws))
    (req : AddRequest) : ∃ t r, step s (.add req) = some t ∧ .dispatch w.addr r ∈ sent s (.add req) ∧
      t.mailbox = Function.update s.mailbox w.addr (s.mailbox w.addr++[r]) ∧
      t.running = s.running ∧ t.signals = s.signals ∧ t.engine.queue.inner = [] ∧
      t.engine.queue.capacity = s.engine.queue.capacity ∧ t.engine.workers = ws := by
  obtain ⟨e',r,hh,h1,h2,h3⟩ := handle_add_of_idle hq hc hf req
  refine ⟨{ s with
    engine := e'
    mailbox := Function.update s.mailbox w.addr (s.mailbox w.addr++[r]) },r,?_,?_,rfl,rfl,rfl,h1,h2,h3⟩
  · simp only [step,receive,hh,deliver]
  · simp [sent,hh]

/-- An idle signal that finds nothing queued turns the first busy flag. -/
theorem step_workerIdle_of_busy {w : WorkerEntry} (hsignals : 0 < s.signals) (hq : s.engine.queue.inner = [])
    (hf : flipFirst false s.engine.workers = some (w,ws)) :
    ∃ t, step s .workerIdle = some t ∧ t.running = s.running ∧ t.engine.queue = s.engine.queue ∧
      t.engine.workers = ws := by
  refine ⟨({ s with signals := s.signals-1 } : EnginePool).receive .workerIdle,if_neg hsignals.ne',rfl,?_⟩
  simp only [receive,RemoteEngineCore.handle_workerIdle_of_empty hq,RemoteEngineCore.markIdle_queue,true_and]
  simp only [RemoteEngineCore.markIdle,hf]

/-- Two workers, the second of which finishes first, lead to a request behind a running
one. -/
theorem exists_not_dispatchesFree (hc : 0 < config.queueCapacity) {w₀ w₁ : WorkerEntry}
    {rest : List WorkerEntry} (hws : (init config spawn).engine.workers = w₀::w₁::rest) :
    ∃ as s t req, exec step (init config spawn) as = some s ∧ step s (.add req) = some t ∧
      ¬ DispatchesFree s (.add req) := by
  have hidle : ∀ w ∈ (init config spawn).engine.workers, w.idle = true := by
    intro w hw
    obtain ⟨i,-,rfl⟩ := List.mem_map.mp hw
    rfl
  have hne : w₀.addr ≠ w₁.addr := by
    have hn := (matched_init config spawn).nodup
    rw [hws] at hn
    simp only [List.map_cons,List.nodup_cons,List.mem_cons,not_or] at hn
    exact hn.1.1
  have h₀ : w₀.idle = true := hidle w₀ (by simp [hws])
  have h₁ : w₁.idle = true := hidle w₁ (by simp [hws])
  -- both workers get a request
  obtain ⟨s₁,r₀,hs₁,-,hm₁,hr₁,hg₁,hq₁,hc₁,hw₁⟩ := step_add_of_idle (s := init config spawn) rfl hc
    (by rw [hws,flipFirst,if_pos h₀]) plainRequest
  obtain ⟨s₂,r₁,hs₂,-,hm₂,hr₂,hg₂,hq₂,hc₂,hw₂⟩ := step_add_of_idle (s := s₁) hq₁ (by rw [hc₁]; exact hc)
    (by simp only [hw₁,flipFirst,h₁]; rfl) plainRequest
  have hbox₀ : s₂.mailbox w₀.addr = [r₀] := by
    rw [hm₂,Function.update_of_ne hne,hm₁,Function.update_self]
    rfl
  have hbox₁ : s₂.mailbox w₁.addr = [r₁] := by
    rw [hm₂,Function.update_self,hm₁,Function.update_of_ne hne.symm]
    rfl
  have hrun : s₂.running = fun _ => none := hr₂.trans hr₁
  -- both start, the second finishes, and its signal is handled
  let s₄ : EnginePool := { s₂ with
    mailbox := Function.update (Function.update s₂.mailbox w₀.addr []) w₁.addr []
    running := Function.update (Function.update s₂.running w₀.addr (some r₀)) w₁.addr (some r₁) }
  let s₅ : EnginePool := { s₄ with
    running := Function.update s₄.running w₁.addr none
    signals := s₄.signals+1 }
  have hs₄ : exec step s₂ [.start w₀.addr,.start w₁.addr] = some s₄ := by
    simp [exec,step,hrun,hbox₀,hbox₁,hne.symm,s₄]
  have hs₅ : step s₄ (.finish w₁.addr) = some s₅ := by
    have hr : s₄.running w₁.addr = some r₁ := Function.update_self _ _ _
    simp only [step,hr]
    rfl
  have hflip : flipFirst false s₅.engine.workers =
      some ({ w₀ with idle := false },w₀::{ w₁ with idle := false }::rest) := by
    change flipFirst false s₂.engine.workers = _
    rw [hw₂]
    cases w₀
    cases h₀
    rfl
  obtain ⟨s₆,hs₆,hr₆,hq₆,hw₆⟩ := step_workerIdle_of_busy (s := s₅) (Nat.succ_pos _) hq₂ hflip
  have hc₆ : s₆.engine.queue.capacity = config.queueCapacity := by
    rw [hq₆]
    exact hc₂.trans hc₁
  obtain ⟨s₇,r₂,hs₇,hd,-⟩ := step_add_of_idle (s := s₆) (by rw [hq₆]; exact hq₂) (by rw [hc₆]; exact hc)
    (by rw [hw₆,flipFirst,if_pos h₀]) plainRequest
  refine ⟨[.add plainRequest,.add plainRequest]++[.start w₀.addr,.start w₁.addr]++
    [.finish w₁.addr,.workerIdle],s₆,s₇,plainRequest,?_,hs₇,?_⟩
  · refine exec_append_iff.mpr ⟨s₄,exec_append_iff.mpr ⟨s₂,?_,hs₄⟩,?_⟩
    · exact exec_cons_iff.mpr ⟨s₁,hs₁,exec_cons_iff.mpr ⟨s₂,hs₂,rfl⟩⟩
    · exact exec_cons_iff.mpr ⟨s₅,hs₅,exec_cons_iff.mpr ⟨s₆,hs₆,rfl⟩⟩
  · intro h
    have hfree := (h s₇ hs₇ w₀.addr r₂ hd).1.2
    have hbusy : s₅.running w₀.addr = some r₀ := by
      simp [s₅,s₄,hne]
    rw [hr₆,hbusy] at hfree
    contradiction

/-- A queue without room hands nothing over. -/
theorem sent_of_no_room {h : EngineHistory} (ha : Accounts 0 s.engine h) {i : ℕ}
    {r : PriorityRequest} : .dispatch i r ∉ sent s a := by
  have hcap := ha.capacity_eq
  have hle := ha.within
  have hnil : s.engine.queue.inner = [] :=
    List.eq_nil_of_length_eq_zero (by unfold RequestQueue.len at hle; omega)
  cases a with
  | start i => simp [sent]
  | finish i => simp [sent]
  | add req =>
    intro hr
    have hd := (handle_add s.engine req fun _ => []).2.2 i r hr
    rcases s.engine.enqueue_cases req with ⟨-,hen⟩ | ⟨hroom,-⟩
    · rw [RemoteEngineCore.tryDispatch_of_none
        (RemoteEngineCore.dispatchOne_eq_none_iff.mpr (.inl (by rw [hen]; exact hnil)))] at hd
      simp at hd
    · omega
  | workerIdle =>
    intro hr
    simp [sent,RemoteEngineCore.handle_workerIdle_of_empty hnil] at hr

/-- The law holds of every run exactly when the queue takes nothing or there are not two
workers to be taken for one another. -/
theorem dispatchesFree_iff : (∀ as t, exec step (init config spawn) as = some t →
      Throughout step DispatchesFree (init config spawn) as) ↔
    config.queueCapacity = 0 ∨ (init config spawn).engine.workers.length ≤ 1 := by
  constructor
  · intro h
    by_contra hn
    simp only [not_or,not_le] at hn
    obtain ⟨w₀,w₁,rest,hws⟩ : ∃ w₀ w₁ rest, (init config spawn).engine.workers = w₀::w₁::rest := by
      match hws : (init config spawn).engine.workers with
      | [] => simp [hws] at hn
      | [w] => simp [hws] at hn
      | w₀::w₁::rest => exact ⟨w₀,w₁,rest,rfl⟩
    obtain ⟨as,s,t,req,has,hstep,hbad⟩ := exists_not_dispatchesFree (Nat.pos_of_ne_zero hn.1) hws
    have hall := h (as++[.add req]) t (exec_snoc_iff.mpr ⟨s,has,hstep⟩)
    exact hbad ((throughout_append_iff has).mp hall).2.1
  · rintro (hcap | hlen) as t h
    · refine throughout_preserves (I := fun s => ∃ h, Accounts config.queueCapacity s.engine h)
        (fun s a t ha hstep => accounts_step ha hstep) ?_ ⟨_,accounts_init config spawn⟩ h
      rintro s a t ⟨hist,ha⟩ - u - i r hr
      rw [hcap] at ha
      exact absurd hr (sent_of_no_room ha)
    · apply throughout_dispatchesFree h
      refine throughout_preserves
        (I := fun s => Tallied config.workerCount s.engine.workers s.mailbox s.running s.signals ∧
          s.engine.workers.length ≤ 1) ?_ ?_ ⟨tallied_init config spawn,hlen⟩ h
      · intro s a t hI hstep
        have haddr := congrArg List.length (addr_step hstep)
        simp only [List.length_map] at haddr
        exact ⟨tallied_step hI.1 hstep,haddr.trans_le hI.2⟩
      · intro s a t hI hstep
        exact signalMatches_of_length_le hI.1 hI.2 hstep

end EnginePool
end RakkaInference
