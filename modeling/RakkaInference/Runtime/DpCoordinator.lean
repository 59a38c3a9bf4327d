import Mathlib.Algebra.Order.Field.Rat
import Mathlib.Data.List.Basic
import Mathlib.Logic.Function.Basic
import Mathlib.Order.WithBot
import RakkaInference.Core.Error
import RakkaInference.Machine.Least

/-! The coordinator that knows the engines of each deployment and picks one of them for a request. -/
namespace RakkaInference
open Machine

/-- An engine with its load. A load that is not a number is missing. -/
structure RouteTarget (Ref N : Type*) where
  engine : Ref
  load : Option N

structure CoordinatorState (Ref N : Type*) where
  routes : String → Option (List (RouteTarget Ref N)) := fun _ => none

inductive DpCoordinatorMsg (Ref Path N : Type*)
  | register (deployment : String) (target : RouteTarget Ref N)
  | deregister (deployment : String) (enginePath : Path)
  | reportLoad (deployment : String) (enginePath : Path) (load : Option N)
  | routeTo (deployment : String)

def DpCoordinatorMsg.deployment {Ref Path N : Type*} : DpCoordinatorMsg Ref Path N → String
  | register d _ | deregister d _ | reportLoad d _ _ | routeTo d => d

/-- The load an engine tells. It is infinite or not a number where there is no slot. -/
def EngineCore.getLoad (inFlight maxConcurrent : ℕ) : Option (WithTop ℚ) :=
  if maxConcurrent = 0 then if inFlight = 0 then none else some ⊤
  else some ((inFlight/maxConcurrent : ℚ) : WithTop ℚ)

/-- The routes of a deployment are changed in place, where there are some. -/
def CoordinatorState.getMut {Ref N : Type*} (s : CoordinatorState Ref N) (deployment : String)
    (f : List (RouteTarget Ref N) → List (RouteTarget Ref N)) : CoordinatorState Ref N :=
  match s.routes deployment with
  | some v => { s with routes := Function.update s.routes deployment (some (f v)) }
  | none => s

namespace DpCoordinatorActor
variable {Ref Path N : Type*} (path : Ref → Path)

section Code
variable [DecidableEq Path] [LinearOrder N]

def register (s : CoordinatorState Ref N) (deployment : String) (target : RouteTarget Ref N) :
    CoordinatorState Ref N :=
  { s with routes := Function.update s.routes deployment (some ((s.routes deployment).getD []++[target])) }

def deregister (s : CoordinatorState Ref N) (deployment : String) (enginePath : Path) : CoordinatorState Ref N :=
  s.getMut deployment fun v => v.filter fun t => path t.engine ≠ enginePath

def reportLoad (s : CoordinatorState Ref N) (deployment : String) (enginePath : Path) (load : Option N) :
    CoordinatorState Ref N :=
  s.getMut deployment fun v => v.map fun t => if path t.engine = enginePath then { t with load } else t

def pick (s : CoordinatorState Ref N) (deployment : String) : Except InferenceError (RouteTarget Ref N) :=
  match (s.routes deployment).filter fun v => !v.isEmpty with
  | none => .error (.internal s!"no engine for deployment `{deployment}`")
  | some candidates =>
    match minBy (cmpBy RouteTarget.load) candidates with
    | some t => .ok t
    | none => .error (.internal "empty candidate set")

/-- The state after a message, and the reply to it. -/
def handle (s : CoordinatorState Ref N) :
    DpCoordinatorMsg Ref Path N → CoordinatorState Ref N × Option (Except InferenceError (RouteTarget Ref N))
  | .register d target => (register s d target,none)
  | .deregister d enginePath => (deregister path s d enginePath,none)
  | .reportLoad d enginePath load => (reportLoad path s d enginePath load,none)
  | .routeTo d => (s,some (pick s d))

def run (ms : List (DpCoordinatorMsg Ref Path N)) (s : CoordinatorState Ref N) : CoordinatorState Ref N :=
  ms.foldl (fun s m => (handle path s m).1) s

/-- The reply to a request for a route after the messages. -/
def route (ms : List (DpCoordinatorMsg Ref Path N)) (d : String) :
    Option (Except InferenceError (RouteTarget Ref N)) :=
  (handle path (run path ms {}) (.routeTo d)).2

end Code

section History
variable (d : String)

def registration : DpCoordinatorMsg Ref Path N → Option (RouteTarget Ref N)
  | .register d' t => if d' = d then some t else none
  | _ => none

variable [DecidableEq Path]

def deregisters (p : Path) : DpCoordinatorMsg Ref Path N → Bool
  | .deregister d' p' => d' = d ∧ p' = p
  | _ => false

def loadOf (p : Path) : DpCoordinatorMsg Ref Path N → Option (Option N)
  | .reportLoad d' p' load => if d' = d ∧ p' = p then some load else none
  | _ => none

/-- The engine with the load that was last reported for its path. -/
def lastLoad (t : RouteTarget Ref N) (after : List (DpCoordinatorMsg Ref Path N)) : RouteTarget Ref N :=
  { t with load := (after.filterMap (loadOf d (path t.engine))).getLast?.getD t.load }

/-- What is left of a registration after some messages. -/
def survivor (t : RouteTarget Ref N) (after : List (DpCoordinatorMsg Ref Path N)) : Option (RouteTarget Ref N) :=
  if after.any (deregisters d (path t.engine)) then none else some (lastLoad path d t after)

/-- What is left of a registration after one message. -/
def touch (m : DpCoordinatorMsg Ref Path N) (t : RouteTarget Ref N) : Option (RouteTarget Ref N) :=
  match m with
  | .deregister d' p => if d' = d ∧ path t.engine = p then none else some t
  | .reportLoad d' p load => some (if d' = d ∧ path t.engine = p then { t with load } else t)
  | _ => some t

/-- The registered engines, the oldest registration first. -/
def currents : List (DpCoordinatorMsg Ref Path N) → List (RouteTarget Ref N)
  | [] => []
  | m::after => ((registration d m).bind fun t => survivor path d t after).toList++currents after

/-- An engine that is registered and was not deregistered since, with its load. -/
def Current (ms : List (DpCoordinatorMsg Ref Path N)) (t : RouteTarget Ref N) : Prop :=
  ∃ before target after, ms = before++.register d target::after ∧
    (∀ m ∈ after, m ≠ .deregister d (path target.engine)) ∧ t = lastLoad path d target after

end History

section Currents
variable {path} {d : String} {ms : List (DpCoordinatorMsg Ref Path N)} {t : RouteTarget Ref N}
  {m : DpCoordinatorMsg Ref Path N}

theorem registration_eq_some_iff : registration d m = some t ↔ m = .register d t := by
  cases m with
  | register d' t' => simp [registration]
  | deregister _ _ | reportLoad _ _ _ | routeTo _ => simp [registration]

theorem registration_of_ne (h : m.deployment ≠ d) : registration d m = none := by
  cases m with
  | register d' target => exact if_neg h
  | deregister d' p => rfl
  | reportLoad d' p load => rfl
  | routeTo d' => rfl

variable [DecidableEq Path]

theorem deregisters_iff {p : Path} : deregisters d p m ↔ m = .deregister d p := by
  cases m with
  | deregister d' p' => simp [deregisters]
  | register _ _ | reportLoad _ _ _ | routeTo _ => simp [deregisters]

theorem survivor_eq_some_iff {target : RouteTarget Ref N} : survivor path d target ms = some t ↔
    (∀ m ∈ ms, m ≠ .deregister d (path target.engine)) ∧ t = lastLoad path d target ms := by
  have hany : ms.any (deregisters d (path target.engine)) ↔ ¬∀ m ∈ ms, m ≠ .deregister d (path target.engine) := by
    simp only [List.any_eq_true,deregisters_iff]
    push Not
    rfl
  unfold survivor
  rw [Option.ite_none_left_eq_some,hany,not_not,Option.some.injEq,eq_comm (b := t)]

theorem current_cons : Current path d (m::ms) t ↔
    (∃ target, m = .register d target ∧ survivor path d target ms = some t) ∨ Current path d ms t := by
  simp only [survivor_eq_some_iff]
  constructor
  · rintro ⟨before,target,after,hms,hkept,rfl⟩
    cases before with
    | nil =>
      obtain ⟨rfl,rfl⟩ := List.cons.inj hms
      exact .inl ⟨target,rfl,hkept,rfl⟩
    | cons m' before =>
      obtain ⟨-,rfl⟩ := List.cons.inj hms
      exact .inr ⟨before,target,after,rfl,hkept,rfl⟩
  · intro h
    cases h with
    | inl hfirst =>
      obtain ⟨target,rfl,hkept,rfl⟩ := hfirst
      exact ⟨[],target,ms,rfl,hkept,rfl⟩
    | inr hlater =>
      obtain ⟨before,target,after,rfl,hkept,rfl⟩ := hlater
      exact ⟨m::before,target,after,rfl,hkept,rfl⟩

theorem mem_currents_iff : t ∈ currents path d ms ↔ Current path d ms t := by
  induction ms with
  | nil =>
    constructor
    · exact nofun
    · rintro ⟨before,target,after,hms,-⟩
      exact absurd hms.symm (by simp)
  | cons m ms ih =>
    rw [current_cons,← ih,currents,List.mem_append,Option.mem_toList,Option.bind_eq_some_iff]
    simp only [registration_eq_some_iff]

theorem lastLoad_report {p : Path} {load : Option N} (h : path t.engine = p) :
    lastLoad path d t (.reportLoad d p load::ms) = lastLoad path d { t with load } ms := by
  have hload : loadOf d (path t.engine) (.reportLoad d p load : DpCoordinatorMsg Ref Path N) = some load :=
    if_pos ⟨rfl,h.symm⟩
  unfold lastLoad
  rw [List.filterMap_cons_some hload,List.getLast?_cons,Option.getD_some]

theorem lastLoad_other (h : loadOf d (path t.engine) m = none) :
    lastLoad path d t (m::ms) = lastLoad path d t ms := by
  unfold lastLoad
  rw [List.filterMap_cons_none h]

theorem survivor_cons (m : DpCoordinatorMsg Ref Path N) (t : RouteTarget Ref N)
    (ms : List (DpCoordinatorMsg Ref Path N)) :
    survivor path d t (m::ms) = (touch path d m t).bind fun t => survivor path d t ms := by
  cases m with
  | register d' target => rfl
  | routeTo d' => rfl
  | deregister d' p =>
    rw [touch]
    split
    case isTrue heq =>
      obtain ⟨rfl,rfl⟩ := heq
      exact if_pos (by simp [deregisters])
    case isFalse hne =>
      have hother : deregisters d (path t.engine) (.deregister d' p : DpCoordinatorMsg Ref Path N) = false := by
        simpa [deregisters,eq_comm (b := p)] using hne
      unfold survivor
      rw [List.any_cons,hother,Bool.false_or]
      rfl
  | reportLoad d' p load =>
    have hany : ∀ q : Path,
        (DpCoordinatorMsg.reportLoad d' p load::ms).any (deregisters d q) = ms.any (deregisters d q) :=
      fun _ => rfl
    rw [touch,Option.bind_some]
    unfold survivor
    rw [hany]
    by_cases h : d' = d ∧ path t.engine = p
    · rw [if_pos h]
      obtain ⟨rfl,hp⟩ := h
      rw [lastLoad_report hp]
    · have hnone : loadOf d (path t.engine) (.reportLoad d' p load : DpCoordinatorMsg Ref Path N) = none :=
        if_neg fun h' => h ⟨h'.1,h'.2.symm⟩
      rw [if_neg h,lastLoad_other hnone]

theorem touch_of_ne (h : m.deployment ≠ d) (t : RouteTarget Ref N) : touch path d m t = some t := by
  cases m with
  | register d' target => rfl
  | deregister d' p => exact if_neg fun h' => h h'.1
  | reportLoad d' p load => exact congrArg some (if_neg fun h' => h h'.1)
  | routeTo d' => rfl

/-- What a message does to the engines of a deployment. -/
def advance (path : Ref → Path) (d : String) (xs : List (RouteTarget Ref N)) (m : DpCoordinatorMsg Ref Path N) :
    List (RouteTarget Ref N) :=
  xs.filterMap (touch path d m)++(registration d m).toList

theorem advance_of_ne (h : m.deployment ≠ d) (xs : List (RouteTarget Ref N)) : advance path d xs m = xs := by
  unfold advance
  rw [registration_of_ne h,funext (touch_of_ne h),Option.toList_none,List.append_nil]
  exact List.filterMap_some

theorem foldl_advance (ms : List (DpCoordinatorMsg Ref Path N)) (xs : List (RouteTarget Ref N)) :
    ms.foldl (advance path d) xs = xs.filterMap (fun t => survivor path d t ms)++currents path d ms := by
  induction ms generalizing xs with
  | nil =>
    change xs = xs.filterMap some++[]
    rw [List.filterMap_some,List.append_nil]
  | cons m ms ih =>
    rw [List.foldl_cons,ih,advance,List.filterMap_append,List.filterMap_filterMap,currents,List.append_assoc]
    simp only [survivor_cons]
    congr 2
    cases registration d m with
    | none => rfl
    | some t =>
      change [t].filterMap _ = _
      rw [List.filterMap_cons,Option.bind_some]
      cases survivor path d t ms with
      | none => rfl
      | some u => rfl

/-- Messages to other deployments do nothing here. -/
theorem foldl_advance_filter (ms : List (DpCoordinatorMsg Ref Path N)) (xs : List (RouteTarget Ref N)) :
    (ms.filter (·.deployment = d)).foldl (advance path d) xs = ms.foldl (advance path d) xs := by
  rw [List.foldl_filter]
  congr 1
  funext xs m
  rw [ite_eq_left_iff]
  intro hne
  rw [decide_eq_true_iff] at hne
  exact (advance_of_ne hne xs).symm

theorem currents_filter (path : Ref → Path) (ms : List (DpCoordinatorMsg Ref Path N)) (d : String) :
    currents path d (ms.filter (·.deployment = d)) = currents path d ms := by
  have h : (ms.filter (·.deployment = d)).foldl (advance path d) [] = ms.foldl (advance path d) [] :=
    foldl_advance_filter ms []
  rwa [foldl_advance,foldl_advance] at h

end Currents

section Entries
variable {d : String} {s : CoordinatorState Ref N}

/-- The engines the coordinator knows. -/
def entries (s : CoordinatorState Ref N) (d : String) : List (RouteTarget Ref N) := (s.routes d).getD []

theorem entries_update {v : List (RouteTarget Ref N)} :
    entries { s with routes := Function.update s.routes d (some v) } d = v :=
  congrArg (·.getD []) (Function.update_self d (some v) s.routes)

theorem entries_update_of_ne {d' : String} {v : Option (List (RouteTarget Ref N))} (h : d' ≠ d) :
    entries { s with routes := Function.update s.routes d' v } d = entries s d :=
  congrArg (·.getD []) (Function.update_of_ne h.symm v s.routes)

theorem entries_getMut {f : List (RouteTarget Ref N) → List (RouteTarget Ref N)} (hf : f [] = []) :
    entries (s.getMut d f) d = f (entries s d) := by
  unfold CoordinatorState.getMut
  split
  case h_1 v hroutes => rw [entries_update,entries,hroutes,Option.getD_some]
  case h_2 hroutes => rw [entries,hroutes,Option.getD_none,hf]

theorem entries_getMut_of_ne {d' : String} {f : List (RouteTarget Ref N) → List (RouteTarget Ref N)} (h : d' ≠ d) :
    entries (s.getMut d' f) d = entries s d := by
  unfold CoordinatorState.getMut
  split
  · exact entries_update_of_ne h
  · rfl

end Entries

section Law
variable [DecidableEq Path] [LinearOrder N]

/-- What requests for a route are promised. -/
structure RoutingLaw (ms : List (DpCoordinatorMsg Ref Path N)) (d : String) : Prop where
  fails : (∃ e, route path ms d = some (.error e)) ↔ ¬∃ t, Current path d ms t
  current : ∀ t, route path ms d = some (.ok t) → Current path d ms t
  least : (∃ t, Current path d ms t ∧ t.load ≠ none) →
    ∃ t l, route path ms d = some (.ok t) ∧ t.load = some l ∧
      ∀ u k, Current path d ms u → u.load = some k → l ≤ k
  apart : route path ms d = route path (ms.filter (·.deployment = d)) d

/-- The oldest registration has a number as its load, or none has. -/
def OldestHasNumber (ms : List (DpCoordinatorMsg Ref Path N)) (d : String) : Prop :=
  ∀ t ∈ (currents path d ms).head?, t.load = none → ∀ u ∈ currents path d ms, u.load = none

variable {path} {d : String} {s : CoordinatorState Ref N} {ms : List (DpCoordinatorMsg Ref Path N)}
  {t : RouteTarget Ref N} {m : DpCoordinatorMsg Ref Path N}

theorem entries_handle (s : CoordinatorState Ref N) (m : DpCoordinatorMsg Ref Path N) :
    entries (handle path s m).1 d = advance path d (entries s d) m := by
  by_cases hd : m.deployment = d
  · subst hd
    unfold advance
    cases m with
    | register d' target =>
      have hregistration : registration d' (.register d' target : DpCoordinatorMsg Ref Path N) = some target :=
        if_pos rfl
      refine entries_update.trans ?_
      change _ = (entries s d').filterMap some++
        (registration d' (.register d' target : DpCoordinatorMsg Ref Path N)).toList
      rw [hregistration,List.filterMap_some]
      rfl
    | deregister d' p =>
      refine (entries_getMut List.filter_nil).trans (Eq.trans ?_ (List.append_nil _).symm)
      rw [← List.filterMap_eq_filter]
      congr 1
      funext t
      simp [touch,Option.guard,DpCoordinatorMsg.deployment]
    | reportLoad d' p load =>
      refine (entries_getMut List.map_nil).trans (Eq.trans ?_ (List.append_nil _).symm)
      rw [← List.filterMap_eq_map]
      congr 1
      funext t
      simp [touch,DpCoordinatorMsg.deployment]
    | routeTo d' =>
      exact (List.filterMap_some.symm.trans (List.append_nil _).symm)
  · rw [advance_of_ne hd]
    cases m with
    | register d' target => exact entries_update_of_ne hd
    | deregister d' p => exact entries_getMut_of_ne hd
    | reportLoad d' p load => exact entries_getMut_of_ne hd
    | routeTo d' => rfl

theorem entries_run (ms : List (DpCoordinatorMsg Ref Path N)) (s : CoordinatorState Ref N) :
    entries (run path ms s) d = ms.foldl (advance path d) (entries s d) := by
  induction ms generalizing s with
  | nil => rfl
  | cons m ms ih =>
    rw [List.foldl_cons,← entries_handle]
    exact ih _

theorem pick_of_nil (h : entries s d = []) :
    pick s d = .error (.internal s!"no engine for deployment `{d}`") := by
  unfold entries at h
  have hnone : ((s.routes d).filter fun v => !v.isEmpty) = none := by
    cases hroutes : s.routes d with
    | none => rfl
    | some v =>
      rw [hroutes,Option.getD_some] at h
      rw [h]
      rfl
  unfold pick
  rw [hnone]

theorem pick_of_minBy (h : minBy (cmpBy RouteTarget.load) (entries s d) = some t) : pick s d = .ok t := by
  unfold entries at h
  have hne : entries s d ≠ [] := fun hnil => by
    rw [entries] at hnil
    rw [hnil] at h
    exact nomatch h
  cases hroutes : s.routes d with
  | none =>
    rw [hroutes] at h
    exact nomatch h
  | some v =>
    unfold entries at hne
    rw [hroutes,Option.getD_some] at h hne
    have hsome : ((some v).filter fun v => !v.isEmpty) = some v := by simpa using hne
    unfold pick
    simp only [hroutes,hsome,h]

theorem entries_run_start (ms : List (DpCoordinatorMsg Ref Path N)) (d : String) :
    entries (run path ms {}) d = currents path d ms := by
  rw [entries_run,foldl_advance]
  rfl

/-- The choice looks at nothing but the engines of the deployment. -/
theorem route_cases (path : Ref → Path) (ms : List (DpCoordinatorMsg Ref Path N)) (d : String) :
    currents path d ms = [] ∧ route path ms d = some (.error (.internal s!"no engine for deployment `{d}`")) ∨
    ∃ t, minBy (cmpBy RouteTarget.load) (currents path d ms) = some t ∧ route path ms d = some (.ok t) := by
  cases hpick : minBy (cmpBy RouteTarget.load) (currents path d ms) with
  | none =>
    have hnil := minBy_eq_none_iff.mp hpick
    rw [← entries_run_start] at hnil
    exact .inl ⟨minBy_eq_none_iff.mp hpick,congrArg some (pick_of_nil hnil)⟩
  | some t =>
    rw [← entries_run_start] at hpick
    exact .inr ⟨t,rfl,congrArg some (pick_of_minBy hpick)⟩

theorem route_error_iff : (∃ e, route path ms d = some (.error e)) ↔ currents path d ms = [] := by
  obtain ⟨hnil,hroute⟩ | ⟨t,hpick,hroute⟩ := route_cases path ms d
  · rw [hroute]
    exact ⟨fun _ => hnil,fun _ => ⟨_,rfl⟩⟩
  · have hne : currents path d ms ≠ [] := fun hnil => by
      rw [hnil] at hpick
      exact nomatch hpick
    rw [hroute]
    exact ⟨nofun,fun hnil => absurd hnil hne⟩

theorem route_ok_iff :
    route path ms d = some (.ok t) ↔ minBy (cmpBy RouteTarget.load) (currents path d ms) = some t := by
  obtain ⟨hnil,hroute⟩ | ⟨u,hpick,hroute⟩ := route_cases path ms d
  · rw [hroute,hnil]
    exact ⟨nofun,nofun⟩
  · rw [hroute,hpick,Option.some.injEq,Except.ok.injEq,Option.some.injEq]

theorem route_filter (path : Ref → Path) (ms : List (DpCoordinatorMsg Ref Path N)) (d : String) :
    route path ms d = route path (ms.filter (·.deployment = d)) d := by
  obtain ⟨hnil,hroute⟩ | ⟨t,hpick,hroute⟩ := route_cases path (ms.filter (·.deployment = d)) d
  · obtain ⟨-,hroute'⟩ | ⟨t,hpick,-⟩ := route_cases path ms d
    · rw [hroute,hroute']
    · rw [← currents_filter,hnil] at hpick
      exact nomatch hpick
  · rw [currents_filter] at hpick
    rw [hroute]
    exact route_ok_iff.mpr hpick

/-- The law holds of the messages exactly where the oldest registration has a number as its load, or none has. -/
theorem routing_law_iff (path : Ref → Path) (ms : List (DpCoordinatorMsg Ref Path N)) (d : String) :
    RoutingLaw path ms d ↔ OldestHasNumber path ms d := by
  have hmem : ∀ t, Current path d ms t ↔ t ∈ currents path d ms := fun _ => mem_currents_iff.symm
  have hfails : (∃ e, route path ms d = some (.error e)) ↔ ¬∃ t, Current path d ms t := by
    simp only [hmem]
    rw [route_error_iff,← List.isEmpty_iff,← Bool.not_eq_false,List.isEmpty_eq_false_iff_exists_mem]
  have hcurrent : ∀ t, route path ms d = some (.ok t) → Current path d ms t := by
    intro t ht
    rw [hmem]
    exact mem_of_minBy (route_ok_iff.mp ht)
  obtain ⟨hnil,-⟩ | ⟨t,hpick,hroute⟩ := route_cases path ms d
  · have hnone : ∀ t, ¬Current path d ms t := fun t ht => by
      rw [hmem,hnil] at ht
      exact nomatch ht
    constructor
    · intro _ t ht
      rw [hnil] at ht
      exact nomatch ht
    · intro _
      exact ⟨hfails,hcurrent,fun ⟨t,ht,_⟩ => absurd ht (hnone t),route_filter path ms d⟩
  · refine Iff.trans ?_ (minBy_leastKey_iff hpick)
    constructor
    · intro hlaw hsome
      obtain ⟨y,hy,hload⟩ := hsome
      obtain ⟨u,l,hu,hl,hleast⟩ := hlaw.least ⟨y,(hmem y).mpr hy,hload⟩
      obtain rfl : t = u := Except.ok.inj (Option.some.inj (hroute.symm.trans hu))
      exact ⟨l,hl,fun z hz k hk => hleast z k ((hmem z).mpr hz) hk⟩
    · intro hleast
      refine ⟨hfails,hcurrent,?_,route_filter path ms d⟩
      intro hsome
      obtain ⟨y,hy,hload⟩ := hsome
      obtain ⟨l,hl,hle⟩ := hleast ⟨y,(hmem y).mp hy,hload⟩
      exact ⟨t,l,hroute,hl,fun z k hz hk => hle z ((hmem z).mp hz) k hk⟩

/-- An engine without slots is registered first, and an engine with a load of one half after it. -/
theorem routing_law_fails_without_slots :
    ¬RoutingLaw (fun engine : ℕ => engine)
      [.register "chat" ⟨0,EngineCore.getLoad 0 0⟩,.register "chat" ⟨1,EngineCore.getLoad 1 2⟩] "chat" := by
  intro hlaw
  have hcurrent : Current (fun engine : ℕ => engine) "chat"
      [.register "chat" ⟨0,EngineCore.getLoad 0 0⟩,.register "chat" ⟨1,EngineCore.getLoad 1 2⟩]
      ⟨1,EngineCore.getLoad 1 2⟩ :=
    ⟨[.register "chat" ⟨0,EngineCore.getLoad 0 0⟩],⟨1,EngineCore.getLoad 1 2⟩,[],rfl,nofun,rfl⟩
  obtain ⟨t,l,ht,hl,-⟩ := hlaw.least ⟨_,hcurrent,nofun⟩
  obtain rfl := Except.ok.inj (Option.some.inj ht)
  exact nomatch hl

end Law

end DpCoordinatorActor
end RakkaInference
