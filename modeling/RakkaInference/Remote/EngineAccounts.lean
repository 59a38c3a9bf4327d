import Mathlib.Data.List.Nodup
import RakkaInference.Remote.Engine

/-! The books of the engine over every sequence of messages: its counters against its
queue and its idle flags, and the requests it has admitted against those it still holds
and those it has handed over. -/
namespace RakkaInference

/-- The requests that were admitted, each stamped with its place among them. The stamp is
what tells two equal requests apart. -/
def stamped (reqs : List AddRequest) : List PriorityRequest :=
  reqs.mapIdx fun i req => ⟨req.priority,i,req.batch,req.output⟩

theorem stamped_concat (reqs : List AddRequest) (req : AddRequest) :
    stamped (reqs++[req]) =
      stamped reqs++[⟨req.priority,reqs.length,req.batch,req.output⟩] := by
  simp [stamped,List.mapIdx_append]

theorem stamped_nodup (reqs : List AddRequest) : (stamped reqs).Nodup := by
  have hseq : (stamped reqs).map PriorityRequest.arrivalSeq = List.range reqs.length := by
    apply List.ext_getElem
    · simp [stamped]
    · intro i hi hj
      simp [stamped]
  apply List.Nodup.of_map PriorityRequest.arrivalSeq
  rw [hseq]
  exact List.nodup_range

namespace EngineEffect

/-- The effect is an `Ok` on the admission channel. -/
def admits (channel : ℕ) : EngineEffect → Bool
  | .admission c (.ok _) => c == channel
  | _ => false

def request? : EngineEffect → Option PriorityRequest
  | .dispatch _ req => some req
  | _ => none

end EngineEffect

namespace RemoteEngineCore

/-- Handle the messages in order; the log has each message with its effects. -/
def run : RemoteEngineCore → List EngineMsg → RemoteEngineCore × List (EngineMsg × List EngineEffect)
  | e,[] => (e,[])
  | e,m::ms => ((run (e.handle m).1 ms).1,(m,(e.handle m).2)::(run (e.handle m).1 ms).2)

end RemoteEngineCore

/-- What the engine has done, as the outside sees it. -/
structure EngineHistory where
  adds : ℕ := 0
  admitted : List AddRequest := []
  sent : List PriorityRequest := []

namespace EngineHistory

def extend (h : EngineHistory) (m : EngineMsg) (out : List EngineEffect) : EngineHistory :=
  { adds := match m with
      | .add _ => h.adds+1
      | .workerIdle => h.adds
    admitted := match m with
      | .add req => if out.any (EngineEffect.admits req.admission) then h.admitted++[req] else h.admitted
      | .workerIdle => h.admitted
    sent := h.sent++out.filterMap EngineEffect.request? }

def ofLog (log : List (EngineMsg × List EngineEffect)) : EngineHistory :=
  log.foldl (fun h p => h.extend p.1 p.2) {}

end EngineHistory

/-- The books that every part of a message keeps. -/
structure Accounts (capacity : ℕ) (e : RemoteEngineCore) (h : EngineHistory) : Prop where
  queued_eq : e.metrics.queued = e.queue.len
  inFlight_eq : e.metrics.inFlight = e.workers.countP fun w => !w.idle
  conserved : e.metrics.queued+e.metrics.inFlight+e.metrics.completed+
    e.metrics.rejectedBackpressure = h.adds
  nextSeq_eq : e.queue.nextSeq = h.admitted.length
  placed : (e.queue.inner++h.sent).Perm (stamped h.admitted)
  capacity_eq : e.queue.capacity = capacity
  within : e.queue.len ≤ e.queue.capacity

variable {capacity : ℕ} {e e' : RemoteEngineCore} {h : EngineHistory}

/-- One entry more is busy. -/
theorem countP_of_flipFirst_true {ws ws' : List WorkerEntry} {w : WorkerEntry}
    (hf : flipFirst true ws = some (w,ws')) :
    ws'.countP (fun w => !w.idle) = ws.countP (fun w => !w.idle)+1 := by
  obtain ⟨pre,post,rfl,-,hw,rfl⟩ := flipFirst_eq_some hf
  simp only [List.countP_append,List.countP_cons,hw]
  simp only [Bool.not_true,Bool.not_false,if_true,Bool.false_eq_true,if_false]
  omega

/-- One entry less is busy. -/
theorem countP_of_flipFirst_false {ws ws' : List WorkerEntry} {w : WorkerEntry}
    (hf : flipFirst false ws = some (w,ws')) :
    ws'.countP (fun w => !w.idle)+1 = ws.countP fun w => !w.idle := by
  obtain ⟨pre,post,rfl,-,hw,rfl⟩ := flipFirst_eq_some hf
  simp only [List.countP_append,List.countP_cons,hw]
  simp only [Bool.not_true,Bool.not_false,if_true,Bool.false_eq_true,if_false]
  omega

/-- A round moves one request from the queue to a worker. -/
theorem accounts_dispatchOne {f : EngineEffect} (ha : Accounts capacity e h)
    (hd : e.dispatchOne = some (e',f)) :
    Accounts capacity e' { h with sent := h.sent++[f].filterMap EngineEffect.request? } := by
  obtain ⟨w,ws,req,rest,hf,hperm,rfl,rfl⟩ := RemoteEngineCore.dispatchOne_cases hd
  obtain ⟨hq,hi,hc,hn,hp,hcap,hle⟩ := ha
  have hlen : rest.length+1 = e.queue.inner.length := hperm.length_eq
  have hcount := countP_of_flipFirst_true hf
  simp only [RequestQueue.len] at hq hle
  refine ⟨?_,?_,?_,hn,?_,hcap,?_⟩
  · simp only [RequestQueue.len]
    omega
  · simp only [hi,hcount]
  · simp only
    omega
  · simp only [EngineEffect.request?,List.filterMap_cons,List.filterMap_nil]
    refine List.Perm.trans ?_ hp
    have hmove : (rest++(h.sent++[req])).Perm (req::rest++h.sent) := by
      rw [← List.append_assoc]
      exact List.perm_append_singleton _ _
    exact hmove.trans (hperm.append_right _)
  · simp only [RequestQueue.len]
    omega

theorem accounts_tryDispatch (ha : Accounts capacity e h) :
    Accounts capacity e.tryDispatch.1
      { h with sent := h.sent++e.tryDispatch.2.filterMap EngineEffect.request? } := by
  refine RemoteEngineCore.tryDispatch_invariant
    (I := fun e out => Accounts capacity e { h with sent := h.sent++out.filterMap EngineEffect.request? })
    ?_ (by simpa using ha)
  intro e e' f out hI hd
  have hone := accounts_dispatchOne hI hd
  rwa [List.append_assoc,← List.filterMap_append] at hone

/-- Admitting a request books it as queued, refusing it as rejected. -/
theorem accounts_enqueue (ha : Accounts capacity e h) (req : AddRequest) :
    Accounts capacity (e.enqueue req).1 { h with
      adds := h.adds+1
      admitted := if (e.enqueue req).2.any (EngineEffect.admits req.admission) then h.admitted++[req]
        else h.admitted } := by
  obtain ⟨hq,hi,hc,hn,hp,hcap,hle⟩ := ha
  rcases e.enqueue_cases req with ⟨-,hen⟩ | ⟨hroom,hen⟩
  · rw [hen]
    refine ⟨hq,hi,?_,hn,hp,hcap,hle⟩
    simp only
    omega
  · rw [hen]
    simp only [List.any_cons,List.any_nil,EngineEffect.admits,beq_self_eq_true,Bool.or_false,if_true]
    refine ⟨?_,hi,?_,?_,?_,hcap,?_⟩
    · simpa [RequestQueue.len] using hq
    · simp only
      omega
    · simpa using hn
    · rw [stamped_concat,hn]
      exact (hp.cons _).trans (List.perm_append_singleton _ _).symm
    · simp only [RequestQueue.len,List.length_cons]
      omega

/-- An idle signal closes one busy entry, or finds none and changes nothing. -/
theorem accounts_markIdle (ha : Accounts capacity e h) : Accounts capacity e.markIdle h := by
  rcases e.markIdle_cases with ⟨-,hm⟩ | ⟨w,ws,hf,hm⟩
  · rwa [hm]
  · obtain ⟨hq,hi,hc,hn,hp,hcap,hle⟩ := ha
    have hcount := countP_of_flipFirst_false hf
    rw [hm]
    refine ⟨hq,?_,?_,hn,hp,hcap,hle⟩
    · simp only
      omega
    · simp only
      omega

theorem accounts_handle (ha : Accounts capacity e h) (m : EngineMsg) :
    Accounts capacity (e.handle m).1 (h.extend m (e.handle m).2) := by
  cases m with
  | workerIdle => exact accounts_tryDispatch (accounts_markIdle ha)
  | add req =>
    have hloop := accounts_tryDispatch (accounts_enqueue ha req)
    have htail : (e.enqueue req).1.tryDispatch.2.any (EngineEffect.admits req.admission) = false := by
      rw [List.any_eq_false]
      intro f hf
      obtain ⟨addr,r,rfl⟩ := RemoteEngineCore.eq_dispatch_of_mem_tryDispatch hf
      simp [EngineEffect.admits]
    have hhead : (e.enqueue req).2.filterMap EngineEffect.request? = [] := by
      rcases e.enqueue_cases req with ⟨-,hen⟩ | ⟨-,hen⟩ <;> rw [hen] <;> rfl
    simp only [RemoteEngineCore.handle,EngineHistory.extend,List.any_append,htail,Bool.or_false,
      List.filterMap_append,hhead,List.nil_append]
    exact hloop

theorem accounts_init (config : RemoteEngineConfig) (spawn : ℕ → Bool) :
    Accounts config.queueCapacity ((RemoteEngineCore.new config).preStart spawn) {} := by
  refine ⟨rfl,?_,rfl,rfl,.refl _,rfl,Nat.zero_le _⟩
  refine (List.countP_eq_zero.mpr ?_).symm
  intro w hw
  obtain ⟨i,-,rfl⟩ := List.mem_map.mp hw
  simp

/-- The books stay right over whole runs, and between messages the loop has nothing left
to do. -/
theorem accounts_run (ha : Accounts capacity e h) (hd : e.dispatchOne = none)
    (ms : List EngineMsg) :
    Accounts capacity (e.run ms).1 ((e.run ms).2.foldl (fun h p => h.extend p.1 p.2) h) ∧
      (e.run ms).1.dispatchOne = none := by
  induction ms generalizing e h with
  | nil => exact ⟨ha,hd⟩
  | cons m ms ih => exact ih (accounts_handle ha m) (e.handle_exit m)

/-- The counters are those of the queue and the idle flags and add up to the requests
received; every admitted request is queued once or was handed over once; and nothing is
queued while a worker is idle. -/
structure Balanced (e : RemoteEngineCore) (h : EngineHistory) : Prop where
  queued_eq : e.metrics.queued = e.queue.len
  inFlight_eq : e.metrics.inFlight = e.workers.countP fun w => !w.idle
  conserved : e.metrics.queued+e.metrics.inFlight+e.metrics.completed+
    e.metrics.rejectedBackpressure = h.adds
  once : ∀ req ∈ stamped h.admitted, e.queue.inner.count req+h.sent.count req = 1
  admitted : ∀ req, req ∈ e.queue.inner ∨ req ∈ h.sent → req ∈ stamped h.admitted
  saturated : e.queue.inner = [] ∨ ∀ w ∈ e.workers, w.idle = false

theorem balanced_of_accounts (ha : Accounts capacity e h) (hd : e.dispatchOne = none) :
    Balanced e h := by
  refine ⟨ha.queued_eq,ha.inFlight_eq,ha.conserved,?_,?_,
    RemoteEngineCore.dispatchOne_eq_none_iff.mp hd⟩
  · intro req hreq
    rw [← List.count_append,ha.placed.count_eq]
    exact List.count_eq_one_of_mem (stamped_nodup _) hreq
  · intro req hreq
    rw [← ha.placed.mem_iff,List.mem_append]
    exact hreq

/-- A refused request changes the queue and the workers in nothing, and unless the queue
has no room at all it is only refused when the queue is full and everybody is busy. -/
structure Refused (capacity : ℕ) (e e' : RemoteEngineCore) : Prop where
  queue_eq : e'.queue = e.queue
  workers_eq : e'.workers = e.workers
  exhausted : 0 < capacity → e.queue.len = capacity ∧ ∀ w ∈ e.workers, w.idle = false

theorem refused_of_accounts (ha : Accounts capacity e h) (hd : e.dispatchOne = none)
    {req : AddRequest} {channel : ℕ} {err : InferenceError}
    (hr : .admission channel (.error err) ∈ (e.handle (.add req)).2) :
    Refused capacity e (e.handle (.add req)).1 := by
  rcases List.mem_append.mp hr with hr | hr
  · rcases e.enqueue_cases req with ⟨hfull,hen⟩ | ⟨-,hen⟩
    · have hstop : (e.enqueue req).1.tryDispatch = ((e.enqueue req).1,[]) := by
        apply RemoteEngineCore.tryDispatch_of_none
        rw [RemoteEngineCore.dispatchOne_eq_none_iff] at hd ⊢
        simpa only [hen] using hd
      have hsame : (e.handle (.add req)).1 = (e.enqueue req).1 := by
        simp only [RemoteEngineCore.handle,hstop]
      refine ⟨by rw [hsame,hen],by rw [hsame,hen],fun hpos => ?_⟩
      have hcap := ha.capacity_eq
      have hle := ha.within
      refine ⟨by unfold RequestQueue.len at *; omega,?_⟩
      rcases RemoteEngineCore.dispatchOne_eq_none_iff.mp hd with hnil | hbusy
      · rw [hnil,List.length_nil] at hfull
        omega
      · exact hbusy
    · rw [hen] at hr
      simp at hr
  · obtain ⟨addr,r,heq⟩ := RemoteEngineCore.eq_dispatch_of_mem_tryDispatch hr
    cases heq

/-- After every sequence of messages the engine's books balance, and the next request is
refused only as it should be. -/
theorem engine_balanced (config : RemoteEngineConfig) (spawn : ℕ → Bool) (ms : List EngineMsg) :
    Balanced (((RemoteEngineCore.new config).preStart spawn).run ms).1
      (.ofLog (((RemoteEngineCore.new config).preStart spawn).run ms).2) ∧
    ∀ req channel err, .admission channel (.error err) ∈
        ((((RemoteEngineCore.new config).preStart spawn).run ms).1.handle (.add req)).2 →
      Refused config.queueCapacity (((RemoteEngineCore.new config).preStart spawn).run ms).1
        ((((RemoteEngineCore.new config).preStart spawn).run ms).1.handle (.add req)).1 := by
  obtain ⟨ha,hd⟩ := accounts_run (accounts_init config spawn)
    (RemoteEngineCore.dispatchOne_eq_none_iff.mpr (.inl rfl)) ms
  exact ⟨balanced_of_accounts ha hd,fun req channel err hr => refused_of_accounts ha hd hr⟩

/-- One worker and one place in the queue: the first request is handed over, the second
waits, the third is refused, and of two idle signals the second finds nobody busy. -/
example :
    let req : AddRequest := ⟨.normal,⟨"r","m",[],{},false,1⟩,0,0⟩
    let e := (RemoteEngineCore.new { queueCapacity := 1, workerCount := 1 }).preStart fun _ => true
    (e.run [.add req,.add req,.add req]).1.metrics = ⟨1,1,0,1⟩ ∧
    (e.run [.add req,.workerIdle,.workerIdle]).1.metrics = ⟨0,0,1,0⟩ := by decide

end RakkaInference
