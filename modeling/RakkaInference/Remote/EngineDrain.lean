import Mathlib.Algebra.BigOperators.Ring.Multiset
import Mathlib.Algebra.Ring.Nat
import RakkaInference.Machine.Drain
import RakkaInference.Machine.Logs
import RakkaInference.Remote.EngineTally

/-! What becomes of the requests of the pool when no more arrive. Although an idle signal may turn the wrong
flag, the steps that are left are bounded, and where they end every request that was admitted has been finished
once. -/
namespace RakkaInference
open Machine

namespace PoolAction

def isAdd : PoolAction → Bool
  | .add _ => true
  | _ => false

end PoolAction

namespace EnginePool

/-- The request that an action admits. -/
def admits (s : EnginePool) : PoolAction → List AddRequest
  | .add req => if (s.engine.handle (.add req)).2.any (EngineEffect.admits req.admission) then [req] else []
  | _ => []

/-- The request that a worker finishes in an action. -/
def finishes (s : EnginePool) : PoolAction → List PriorityRequest
  | .finish i => (s.running i).toList
  | _ => []

/-- The steps that the requests and the signals still need: a request is handed over, taken up, finished and
signalled. -/
def backlog (N : ℕ) (s : EnginePool) : ℕ :=
  4*s.engine.queue.len+∑ i ∈ Finset.range N,(3*(s.mailbox i).length+2*(s.running i).toList.length)+s.signals

/-- The requests in the mailboxes and at work. -/
def held (N : ℕ) (mailbox : ℕ → List PriorityRequest) (running : ℕ → Option PriorityRequest) :
    Multiset PriorityRequest :=
  ∑ i ∈ Finset.range N,(↑(mailbox i++(running i).toList) : Multiset PriorityRequest)

section Sums
variable {M : Type*} [AddCommMonoid M] {N : ℕ}

/-- Two sums that differ in one place. -/
theorem sum_range_add_of_ne {f g : ℕ → M} {i : ℕ} (hi : i < N) (h : ∀ j, j ≠ i → f j = g j) :
    ∑ j ∈ Finset.range N,f j+g i = ∑ j ∈ Finset.range N,g j+f i := by
  have hmem := Finset.mem_range.mpr hi
  rw [← Finset.add_sum_erase _ f hmem,← Finset.add_sum_erase _ g hmem]
  rw [Finset.sum_congr rfl fun j hj => h j (Finset.ne_of_mem_erase hj)]
  rw [add_comm (f i),add_comm (g i),add_assoc,add_assoc,add_comm (f i)]

/-- What a hand-over adds to a sum over the workers. -/
theorem sum_deliver {w : List PriorityRequest → Option PriorityRequest → M} {c : PriorityRequest → M}
    (hw : ∀ l r o, w (l++[r]) o = w l o+c r) {out : List EngineEffect} (hout : ∀ i r, .dispatch i r ∈ out → i < N)
    (mailbox : ℕ → List PriorityRequest) (running : ℕ → Option PriorityRequest) :
    ∑ i ∈ Finset.range N,w (deliver mailbox out i) (running i) =
      ∑ i ∈ Finset.range N,w (mailbox i) (running i)+((out.filterMap EngineEffect.request?).map c).sum := by
  induction out generalizing mailbox with
  | nil => simp [deliver]
  | cons f out ih =>
    have hrest : ∀ i r, .dispatch i r ∈ out → i < N := fun i r hr => hout i r (List.mem_cons_of_mem f hr)
    cases f with
    | admission ch answer => exact ih hrest mailbox
    | dispatch i r =>
      have hi := hout i r List.mem_cons_self
      have hone : ∀ j, w (Function.update mailbox i (mailbox i++[r]) j) (running j) =
          w (mailbox j) (running j)+if j = i then c r else 0 := by
        intro j
        by_cases hj : j = i
        · rw [hj,Function.update_self,hw,if_pos rfl]
        · rw [Function.update_of_ne hj,if_neg hj,add_zero]
      rw [deliver,ih hrest,Finset.sum_congr rfl fun j _ => hone j,Finset.sum_add_distrib,Finset.sum_ite_eq',
        if_pos (Finset.mem_range.mpr hi)]
      simp only [EngineEffect.request?,List.filterMap_cons,List.map_cons,List.sum_cons,add_assoc]

end Sums

variable {s t : EnginePool} {a : PoolAction} {N : ℕ} {e : RemoteEngineCore}

/-- The loop hands over to workers it knows. -/
theorem lt_of_mem_tryDispatch (hb : ∀ w ∈ e.workers, w.addr < N) {i : ℕ} {r : PriorityRequest}
    (hr : .dispatch i r ∈ e.tryDispatch.2) : i < N := by
  have h := RemoteEngineCore.tryDispatch_invariant (e := e)
    (I := fun e out => (∀ w ∈ e.workers, w.addr < N) ∧ ∀ i r, .dispatch i r ∈ out → i < N) ?_ ⟨hb,by simp⟩
  · exact h.2 i r hr
  · intro e e' f out hI hd
    obtain ⟨w,ws,req,rest,hf,-,rfl,rfl⟩ := RemoteEngineCore.dispatchOne_cases hd
    refine ⟨bound_of_addr_eq (flipFirst_addr hf) hI.1,?_⟩
    intro j q hq
    rcases List.mem_append.mp hq with hq | hq
    · exact hI.2 j q hq
    · cases List.mem_singleton.mp hq
      exact hI.1 w (mem_of_flipFirst hf).1

/-- What the loop hands over has left the queue. -/
theorem len_tryDispatch (e : RemoteEngineCore) :
    e.tryDispatch.1.queue.len+(e.tryDispatch.2.filterMap EngineEffect.request?).length = e.queue.len := by
  refine RemoteEngineCore.tryDispatch_invariant
    (I := fun e' out => e'.queue.len+(out.filterMap EngineEffect.request?).length = e.queue.len) ?_ rfl
  intro e₁ e₂ f out hI hd
  have hlen := RemoteEngineCore.dispatchOne_len hd
  obtain ⟨w,ws,req,rest,-,-,rfl,-⟩ := RemoteEngineCore.dispatchOne_cases hd
  simp only [List.filterMap_append,List.filterMap_cons,EngineEffect.request?,List.filterMap_nil,List.length_append,
    List.length_singleton]
  omega

/-- The books of the pool: those of the engine, the idle signals, and where the requests are that were handed
over. -/
structure Books (capacity N : ℕ) (s : EnginePool) (h : EngineHistory) (done : List PriorityRequest) : Prop where
  accounts : Accounts capacity s.engine h
  tallied : Tallied N s.engine.workers s.mailbox s.running s.signals
  settled : s.engine.dispatchOne = none
  placed : held N s.mailbox s.running+↑done = ↑h.sent

variable {capacity : ℕ} {h : EngineHistory} {done : List PriorityRequest}

theorem held_deliver {out : List EngineEffect} (hout : ∀ i r, .dispatch i r ∈ out → i < N)
    (mailbox : ℕ → List PriorityRequest) (running : ℕ → Option PriorityRequest) :
    held N (deliver mailbox out) running = held N mailbox running+↑(out.filterMap EngineEffect.request?) := by
  have hw : ∀ (l : List PriorityRequest) (r : PriorityRequest) (o : Option PriorityRequest),
      (↑(l++[r]++o.toList) : Multiset PriorityRequest) = ↑(l++o.toList)+{r} := by
    intro l r o
    rw [List.append_assoc,← Multiset.coe_add,← Multiset.coe_add,← Multiset.coe_add,Multiset.coe_singleton,
      add_comm ({r} : Multiset PriorityRequest),← add_assoc]
  have hsum := sum_deliver (w := fun l o => (↑(l++o.toList) : Multiset PriorityRequest)) (c := fun r => {r}) hw hout
    mailbox running
  rw [held,hsum]
  congr 1
  generalize out.filterMap EngineEffect.request? = rs
  induction rs with
  | nil => rfl
  | cons r rs ih =>
    rw [List.map_cons,List.sum_cons,ih]
    rfl

/-- The loop of the engine keeps the books. -/
theorem books_tryDispatch {signals : ℕ} {mailbox : ℕ → List PriorityRequest}
    {running : ℕ → Option PriorityRequest} (ha : Accounts capacity e h)
    (ht : Tallied N e.workers mailbox running signals) (hp : held N mailbox running+↑done = ↑h.sent) :
    Books capacity N ⟨e.tryDispatch.1,deliver mailbox e.tryDispatch.2,running,signals⟩
      { h with sent := h.sent++e.tryDispatch.2.filterMap EngineEffect.request? } done := by
  refine ⟨accounts_tryDispatch ha,tallied_tryDispatch ht,e.tryDispatch_exit,?_⟩
  rw [held_deliver fun i r => lt_of_mem_tryDispatch ht.bound,← Multiset.coe_add,← hp,add_right_comm]

/-- The answer to a request hands nothing over. -/
theorem request?_handle_add (e : RemoteEngineCore) (req : AddRequest) :
    (e.handle (.add req)).2.filterMap EngineEffect.request? =
      (e.enqueue req).1.tryDispatch.2.filterMap EngineEffect.request? := by
  rw [RemoteEngineCore.handle,List.filterMap_append]
  rcases e.enqueue_cases req with ⟨-,hen⟩ | ⟨-,hen⟩ <;> rw [hen] <;> rfl

theorem lt_of_running {ws : List WorkerEntry} {mailbox : ℕ → List PriorityRequest}
    {running : ℕ → Option PriorityRequest} {signals i : ℕ} {req : PriorityRequest}
    (ht : Tallied N ws mailbox running signals) (hr : running i = some req) : i < N := by
  by_contra hge
  rw [(ht.outside i (by omega)).2] at hr
  contradiction

theorem lt_of_mailbox {ws : List WorkerEntry} {mailbox : ℕ → List PriorityRequest}
    {running : ℕ → Option PriorityRequest} {signals i : ℕ} {req : PriorityRequest} {rest : List PriorityRequest}
    (ht : Tallied N ws mailbox running signals) (hm : mailbox i = req::rest) : i < N := by
  by_contra hge
  rw [(ht.outside i (by omega)).1] at hm
  contradiction

/-- A request that is taken up is still held. -/
theorem held_start {mailbox : ℕ → List PriorityRequest} {running : ℕ → Option PriorityRequest} {i : ℕ}
    {req : PriorityRequest} {rest : List PriorityRequest} (hr : running i = none) (hm : mailbox i = req::rest) :
    held N (Function.update mailbox i rest) (Function.update running i (some req)) = held N mailbox running := by
  apply Finset.sum_congr rfl
  intro j _
  by_cases hj : j = i
  · subst hj
    rw [Function.update_self,Function.update_self,hr,hm]
    apply Multiset.coe_eq_coe.mpr
    simp
  · rw [Function.update_of_ne hj,Function.update_of_ne hj]

theorem held_finish (mailbox : ℕ → List PriorityRequest) {running : ℕ → Option PriorityRequest} {i : ℕ}
    {req : PriorityRequest} (hi : i < N) (hr : running i = some req) :
    held N mailbox (Function.update running i none)+{req} = held N mailbox running := by
  have hne : ∀ j, j ≠ i → (↑(mailbox j++(Function.update running i none j).toList) : Multiset PriorityRequest) =
      ↑(mailbox j++(running j).toList) := by
    intro j hj
    rw [Function.update_of_ne hj]
  have hsum := sum_range_add_of_ne hi hne
  rw [Function.update_self,hr,Option.toList_some,Option.toList_none,List.append_nil,← Multiset.coe_add,
    Multiset.coe_singleton,add_comm (↑(mailbox i) : Multiset PriorityRequest),← add_assoc] at hsum
  exact add_right_cancel hsum

theorem books_step (hb : Books capacity N s h done) (hs : step s a = some t) :
    ∃ h', Books capacity N t h' (done++finishes s a) ∧ h'.admitted = h.admitted++admits s a := by
  cases move_of_step hs with
  | add req =>
    obtain ⟨hws,hdel,-⟩ := handle_add s.engine req s.mailbox
    refine ⟨h.extend (.add req) (s.engine.handle (.add req)).2,⟨?_,?_,s.engine.handle_exit _,?_⟩,?_⟩
    · exact accounts_handle hb.accounts _
    · exact tallied_step hb.tallied hs
    · have hlt : ∀ i r, .dispatch i r ∈ (s.engine.enqueue req).1.tryDispatch.2 → i < N :=
        fun i r => lt_of_mem_tryDispatch (by rw [hws]; exact hb.tallied.bound)
      simp only [receive,finishes,List.append_nil,hdel,EngineHistory.extend]
      rw [held_deliver hlt,request?_handle_add,← Multiset.coe_add,← hb.placed,add_right_comm]
    · simp only [EngineHistory.extend,admits]
      split <;> simp
  | @start i req rest hr hm =>
    refine ⟨h,⟨hb.accounts,tallied_step hb.tallied hs,hb.settled,?_⟩,(List.append_nil _).symm⟩
    simp only [finishes,List.append_nil]
    rw [held_start hr hm,hb.placed]
  | @finish i req hr =>
    refine ⟨h,⟨hb.accounts,tallied_step hb.tallied hs,hb.settled,?_⟩,(List.append_nil _).symm⟩
    have hheld := held_finish s.mailbox (lt_of_running hb.tallied hr) hr
    simp only [finishes,hr,Option.toList_some]
    rw [← hb.placed,← hheld,← Multiset.coe_add,Multiset.coe_singleton,
      add_comm (↑done : Multiset PriorityRequest),add_assoc]
  | @workerIdle n hn =>
    have ht := hb.tallied
    rw [hn] at ht
    refine ⟨h.extend .workerIdle (s.engine.handle .workerIdle).2,?_,(List.append_nil _).symm⟩
    simp only [finishes,List.append_nil]
    exact books_tryDispatch (accounts_markIdle hb.accounts) (tallied_markIdle ht) hb.placed

theorem books_init (config : RemoteEngineConfig) (spawn : ℕ → Bool) :
    Books config.queueCapacity config.workerCount (init config spawn) {} [] := by
  refine ⟨accounts_init config spawn,tallied_init config spawn,?_,?_⟩
  · exact RemoteEngineCore.dispatchOne_eq_none_iff.mpr (.inl rfl)
  · have hz : held config.workerCount (init config spawn).mailbox (init config spawn).running = 0 :=
      Finset.sum_eq_zero fun i _ => rfl
    rw [hz]
    rfl

/-- Whatever is not a new request brings the pool nearer to its rest. -/
theorem backlog_step (ht : Tallied N s.engine.workers s.mailbox s.running s.signals) (ha : a.isAdd = false)
    (hs : step s a = some t) : backlog N t < backlog N s := by
  cases move_of_step hs with
  | add req => exact absurd ha Bool.true_eq_false.mp
  | @start i req rest hr hm =>
    have hne : ∀ j, j ≠ i → 3*(Function.update s.mailbox i rest j).length+
        2*(Function.update s.running i (some req) j).toList.length =
          3*(s.mailbox j).length+2*(s.running j).toList.length := by
      intro j hj
      rw [Function.update_of_ne hj,Function.update_of_ne hj]
    have hsum := sum_range_add_of_ne (M := ℕ) (lt_of_mailbox ht hm) hne
    simp only [Function.update_self,hr,hm,Option.toList_some,Option.toList_none,List.length_cons,List.length_nil]
      at hsum
    simp only [backlog]
    omega
  | @finish i req hr =>
    have hne : ∀ j, j ≠ i → 3*(s.mailbox j).length+2*(Function.update s.running i none j).toList.length =
        3*(s.mailbox j).length+2*(s.running j).toList.length := by
      intro j hj
      rw [Function.update_of_ne hj]
    have hsum := sum_range_add_of_ne (M := ℕ) (lt_of_running ht hr) hne
    simp only [Function.update_self,hr,Option.toList_some,Option.toList_none,List.length_cons,
      List.length_nil] at hsum
    simp only [backlog]
    omega
  | @workerIdle n hn =>
    rw [hn] at ht
    have hlen := len_tryDispatch s.engine.markIdle
    have hsum := sum_deliver (w := fun l o => 3*l.length+2*o.toList.length) (c := fun _ => 3)
      (fun l r o => by rw [List.length_append,List.length_singleton]; omega)
      (fun i r => lt_of_mem_tryDispatch (tallied_markIdle ht).bound (i := i) (r := r)) s.mailbox s.running
    rw [List.map_const',List.sum_const_nat] at hsum
    rw [RemoteEngineCore.markIdle_queue] at hlen
    simp only [backlog,receive,RemoteEngineCore.handle]
    omega

theorem books_exec {as : List PoolAction} (hb : Books capacity N s h done) (he : exec step s as = some t) :
    ∃ h', Books capacity N t h' (done++logged step finishes s as) ∧
      h'.admitted = h.admitted++logged step admits s as := by
  induction as generalizing s h done with
  | nil =>
    obtain rfl : s = t := by simpa using he
    exact ⟨h,by simpa using hb,by simp⟩
  | cons a as ih =>
    obtain ⟨u,hu,ht⟩ := exec_cons_iff.mp he
    obtain ⟨h₁,hb₁,had₁⟩ := books_step hb hu
    obtain ⟨h₂,hb₂,had₂⟩ := ih hb₁ ht
    refine ⟨h₂,?_,?_⟩
    · rw [logged_cons hu,← List.append_assoc]
      exact hb₂
    · rw [logged_cons hu,← List.append_assoc,← had₁]
      exact had₂

/-- No step but a new request can be taken. -/
def AtRest (s : EnginePool) : Prop := Stuck step (fun a => a.isAdd = false) s

theorem signals_of_atRest (h : s.AtRest) : s.signals = 0 := by
  have hnone := h .workerIdle rfl
  by_contra hne
  simp [step,hne] at hnone

theorem free_of_atRest (h : s.AtRest) (i : ℕ) : s.Free i := by
  have hfinish := h (.finish i) rfl
  have hstart := h (.start i) rfl
  have hr : s.running i = none := by
    cases hr : s.running i with
    | none => rfl
    | some req => simp [step,hr] at hfinish
  refine ⟨?_,hr⟩
  cases hm : s.mailbox i with
  | nil => rfl
  | cons req rest => simp [step,hr,hm] at hstart

/-- Where nothing is on its way every flag is idle again, so the loop has emptied the queue. -/
theorem empty_of_atRest (hb : Books capacity N s h done) (hws : s.engine.workers ≠ []) (hrest : s.AtRest) :
    s.engine.queue.inner = [] ∧ s.engine.metrics.inFlight = 0 := by
  have hz : ∑ i ∈ Finset.range N,unfinished s.mailbox s.running i = 0 := by
    apply Finset.sum_eq_zero
    intro i _
    obtain ⟨hm,hr⟩ := free_of_atRest hrest i
    rw [unfinished,hm,hr]
    rfl
  have hbusy : s.engine.workers.countP (fun w => !w.idle) = 0 := by
    rw [← hb.tallied.total,hz,signals_of_atRest hrest]
  refine ⟨?_,by rw [hb.accounts.inFlight_eq,hbusy]⟩
  rcases RemoteEngineCore.dispatchOne_eq_none_iff.mp hb.settled with hnil | hall
  · exact hnil
  · obtain ⟨w,hw⟩ := List.exists_mem_of_ne_nil _ hws
    have hidle := List.countP_eq_zero.mp hbusy w hw
    simp [hall w hw] at hidle

theorem workers_init {config : RemoteEngineConfig} {spawn : ℕ → Bool}
    (hw : ∃ i < config.workerCount, spawn i = true) : (init config spawn).engine.workers ≠ [] := by
  obtain ⟨i,hi,hs⟩ := hw
  have hmem : i ∈ (List.range config.workerCount).filter spawn :=
    List.mem_filter.mpr ⟨List.mem_range.mpr hi,hs⟩
  exact List.ne_nil_of_mem (List.mem_map_of_mem hmem)

theorem workers_exec {as : List PoolAction} (hws : s.engine.workers ≠ []) (he : exec step s as = some t) :
    t.engine.workers ≠ [] := by
  refine exec_preserves (I := fun u => u.engine.workers ≠ []) ?_ hws he
  intro u a v hu hstep hnil
  have haddr := addr_step hstep
  rw [hnil,List.map_nil] at haddr
  exact hu (List.map_eq_nil_iff.mp haddr.symm)

/-- How many steps a run without new requests can still take, and what it has done where it ends. -/
structure Drains (config : RemoteEngineConfig) (spawn : ℕ → Bool) (as : List PoolAction) (s : EnginePool) :
    Prop where
  bounded : ∀ bs t, (∀ b ∈ bs, b.isAdd = false) → exec step s bs = some t →
    bs.length ≤ backlog config.workerCount s
  ends : ∃ bs t, (∀ b ∈ bs, b.isAdd = false) ∧ exec step s bs = some t ∧ t.AtRest
  emptied : ∀ bs t, (∀ b ∈ bs, b.isAdd = false) → exec step s bs = some t → t.AtRest →
    t.engine.queue.inner = [] ∧ t.engine.metrics.queued = 0 ∧ t.engine.metrics.inFlight = 0
  finished : ∀ bs t, (∀ b ∈ bs, b.isAdd = false) → exec step s bs = some t → t.AtRest →
    (logged step finishes (init config spawn) (as++bs)).Perm
      (stamped (logged step admits (init config spawn) as))

/-- Once no more requests arrive, the pool comes to rest whatever the order of its steps and whichever flags the
idle signals turn: the steps left are bounded, and where none is left the queue is empty, nothing is in flight,
and the requests finished are those admitted, each once. -/
theorem pool_drains {config : RemoteEngineConfig} {spawn : ℕ → Bool} {as : List PoolAction}
    (hw : ∃ i < config.workerCount, spawn i = true) (h : exec step (init config spawn) as = some s) :
    Drains config spawn as s := by
  have hbooks : ∀ bs t, exec step s bs = some t → ∃ h',
      Books config.queueCapacity config.workerCount t h' (logged step finishes (init config spawn) (as++bs)) ∧
        h'.admitted = logged step admits (init config spawn) (as++bs) := by
    intro bs t hbs
    obtain ⟨h',hb,had⟩ := books_exec (books_init config spawn) (exec_append_iff.mpr ⟨s,h,hbs⟩)
    exact ⟨h',by simpa using hb,by simpa using had⟩
  have hws : ∀ bs t, exec step s bs = some t → t.engine.workers ≠ [] :=
    fun bs t hbs => workers_exec (workers_exec (workers_init hw) h) hbs
  have hkeep : ∀ u a v, Tallied config.workerCount u.engine.workers u.mailbox u.running u.signals →
      step u a = some v → Tallied config.workerCount v.engine.workers v.mailbox v.running v.signals :=
    fun u a v => tallied_step
  have hless : ∀ u a v, Tallied config.workerCount u.engine.workers u.mailbox u.running u.signals →
      a.isAdd = false → step u a = some v → backlog config.workerCount v < backlog config.workerCount u :=
    fun u a v => backlog_step
  have hs := exec_preserves hkeep (tallied_init config spawn) h
  refine ⟨?_,exists_exec_stuck hkeep hless hs,?_,?_⟩
  · intro bs t hbs ht
    have hlen := exec_length_add_le hkeep hless hs hbs ht
    omega
  · intro bs t hbs ht hrest
    obtain ⟨h',hb,-⟩ := hbooks bs t ht
    obtain ⟨hq,hf⟩ := empty_of_atRest hb (hws bs t ht) hrest
    refine ⟨hq,?_,hf⟩
    rw [hb.accounts.queued_eq,RequestQueue.len,hq,List.length_nil]
  · intro bs t hbs ht hrest
    obtain ⟨h',hb,had⟩ := hbooks bs t ht
    have hnone : logged step admits s bs = [] := by
      apply logged_eq_nil
      intro u b hb
      cases b with
      | add req => exact absurd (hbs _ hb) Bool.true_eq_false.mp
      | _ => rfl
    rw [logged_append h,hnone,List.append_nil] at had
    have hq := (empty_of_atRest hb (hws bs t ht) hrest).1
    have hplaced := hb.accounts.placed
    have hheld : held config.workerCount t.mailbox t.running = 0 := by
      apply Finset.sum_eq_zero
      intro i _
      obtain ⟨hm,hr⟩ := free_of_atRest hrest i
      rw [hm,hr]
      rfl
    have hsent := hb.placed
    rw [hheld,zero_add] at hsent
    rw [hq,List.nil_append,had] at hplaced
    exact (Multiset.coe_eq_coe.mp hsent).trans hplaced

/-- A run in which the idle signal of the second worker turns the flag of the first, so that the first is handed a
request while it has another. -/
theorem pool_drains_crossed :
    let req : ℕ → AddRequest := fun n => ⟨.normal,⟨"r","m",[],{},false,n⟩,n,n⟩
    let as : List PoolAction := [.add (req 0),.start 0,.add (req 1),.start 1,.finish 1,.workerIdle,.add (req 2)]
    ∃ s, exec step twoWorkers as = some s ∧ ((s.running 0).isSome && (s.mailbox 0).length == 1) = true ∧
      Drains { queueCapacity := 4, workerCount := 2 } (fun _ => true) as s := by
  intro req as
  have hrun : (exec step twoWorkers as).any (fun s => (s.running 0).isSome && (s.mailbox 0).length == 1) = true := by
    decide
  obtain ⟨s,hs,hcrossed⟩ := (Option.any_eq_true _ _).mp hrun
  exact ⟨s,hs,hcrossed,pool_drains ⟨0,by decide,rfl⟩ hs⟩

end EnginePool
end RakkaInference
