import Mathlib.Data.List.Nodup
import RakkaInference.Machine.Runs
import RakkaInference.Remote.Queue

/-! What the bounded priority queue gives out over any sequence of pushes and pops: the requests of
the highest class first, and those of a class in the order in which they came. -/
namespace RakkaInference
open Machine

instance : Std.TransOrd Priority where
  eq_swap {a b} := by cases a <;> cases b <;> rfl
  isLE_trans {a b c} := by cases a <;> cases b <;> cases c <;> decide

/-- The comparison of the heap is a total order. -/
instance : Std.TransCmp PriorityRequest.cmp :=
  inferInstanceAs (Std.TransCmp (compareLex (compareOn PriorityRequest.priority)
    fun a o => compareOn PriorityRequest.arrivalSeq o a))

theorem PriorityRequest.cmp_isLE {a m : PriorityRequest} (h : (a.cmp m).isLE) :
    compare a.priority m.priority = .lt ∨ (a.priority = m.priority ∧ m.arrivalSeq ≤ a.arrivalSeq) := by
  unfold cmp at h
  cases hp : compare a.priority m.priority with
  | lt => exact .inl rfl
  | eq =>
    right
    rw [hp,Ordering.eq_then] at h
    exact ⟨by revert hp; cases a.priority <;> cases m.priority <;> decide,Nat.isLE_compare.mp h⟩
  | gt =>
    rw [hp] at h
    exact nomatch h

/-- A queue, the requests that were accepted, as they were pushed, and the requests that were
popped. -/
structure QueueHistory where
  queue : RequestQueue
  accepted : List PriorityRequest := []
  popped : List PriorityRequest := []

inductive QueueAction
  | push (req : PriorityRequest)
  | pop

namespace QueueHistory

def start (capacity : ℕ) : QueueHistory := { queue := .new capacity }

def step (s : QueueHistory) : QueueAction → Option QueueHistory
  | .push req => some
      { queue := (s.queue.push req).1
        accepted := if (s.queue.push req).2.isOk then s.accepted++[req] else s.accepted
        popped := s.popped }
  | .pop => some
      { queue := s.queue.pop.2
        accepted := s.accepted
        popped := s.popped++s.queue.pop.1.toList }

/-- The accepted requests, each one with its place in the order of the pushes. -/
def stamped (s : QueueHistory) : List PriorityRequest :=
  s.accepted.mapIdx fun i req => { req with arrivalSeq := i }

/-- What holds between any two operations: nothing is lost and nothing comes twice. -/
structure Law (capacity : ℕ) (s : QueueHistory) : Prop where
  capacity_eq : s.queue.capacity = capacity
  within : s.queue.len ≤ capacity
  counted : s.queue.nextSeq = s.accepted.length
  kept : (s.popped++s.queue.inner).Perm s.stamped
  once : (s.popped++s.queue.inner).Nodup

/-- Of the stored requests no one is of a higher class, or came earlier in the same class. -/
def First (s : QueueHistory) (m : PriorityRequest) : Prop :=
  m ∈ s.queue.inner ∧ ∃ i : ℕ, s.stamped[i]? = some m ∧ ∀ (j : ℕ) x, x ∈ s.queue.inner → s.stamped[j]? = some x →
    compare x.priority m.priority = .lt ∨ (x.priority = m.priority ∧ i ≤ j)

/-- What an operation answers. -/
def StepLaw (s : QueueHistory) : QueueAction → Prop
  | .push req =>
    ((s.queue.push req).2 = .ok () ↔ s.queue.len ≠ s.queue.capacity) ∧
      ∀ e, (s.queue.push req).2 = .error e → e = req ∧ (s.queue.push req).1 = s.queue
  | .pop => (s.queue.pop.1 = none ↔ s.queue.len = 0) ∧ ∀ m, s.queue.pop.1 = some m → s.First m

variable {s t : QueueHistory} {a : QueueAction} {capacity : ℕ}

theorem stamped_getElem? {i : ℕ} {m : PriorityRequest} (h : s.stamped[i]? = some m) : m.arrivalSeq = i := by
  rw [stamped,List.getElem?_mapIdx,Option.map_eq_some_iff] at h
  obtain ⟨req,-,rfl⟩ := h
  rfl

/-- No two accepted requests are the same. -/
theorem stamped_nodup (s : QueueHistory) : s.stamped.Nodup := by
  rw [List.nodup_iff_getElem?_ne_getElem?]
  intro i j hij hj heq
  have hlater := List.getElem?_eq_getElem hj
  have hseq := stamped_getElem? (heq.trans hlater)
  have hseq' := stamped_getElem? hlater
  omega

theorem law_start (capacity : ℕ) : Law capacity (start capacity) where
  capacity_eq := rfl
  within := Nat.zero_le capacity
  counted := rfl
  kept := .refl []
  once := List.nodup_nil

theorem Law.push (h : Law capacity s) (req : PriorityRequest) (hroom : s.queue.inner.length < s.queue.capacity) :
    Law capacity
      { queue := { s.queue with
          inner := { req with arrivalSeq := s.queue.nextSeq }::s.queue.inner, nextSeq := s.queue.nextSeq+1 }
        accepted := s.accepted++[req]
        popped := s.popped } := by
  have hkept : (s.popped++{ req with arrivalSeq := s.queue.nextSeq }::s.queue.inner).Perm
      (stamped ⟨s.queue,s.accepted++[req],s.popped⟩) := by
    rw [stamped,List.mapIdx_concat,h.counted]
    refine List.perm_middle.trans (.trans (.cons _ h.kept) ?_)
    exact (List.perm_append_singleton _ _).symm
  exact
    { capacity_eq := h.capacity_eq
      within := hroom.trans_eq h.capacity_eq
      counted := by simp [h.counted]
      kept := hkept
      once := hkept.nodup_iff.mpr (stamped_nodup ⟨s.queue,s.accepted++[req],s.popped⟩) }

theorem Law.pop (h : Law capacity s) {m : PriorityRequest} {rest : List PriorityRequest}
    (hperm : (m::rest).Perm s.queue.inner) :
    Law capacity { s with queue := { s.queue with inner := rest }, popped := s.popped++[m] } := by
  have hkept : (s.popped++[m]++rest).Perm (s.popped++s.queue.inner) := by
    rw [List.append_assoc]
    exact hperm.append_left s.popped
  have hlen := hperm.length_eq
  rw [List.length_cons] at hlen
  have hwithin := h.within
  exact
    { capacity_eq := h.capacity_eq
      within := by simp only [RequestQueue.len] at hwithin ⊢; omega
      counted := h.counted
      kept := hkept.trans h.kept
      once := hkept.nodup_iff.mpr h.once }

theorem Law.step (h : Law capacity s) (hstep : s.step a = some t) : Law capacity t := by
  cases a with
  | push req =>
    obtain rfl := Option.some.inj hstep
    obtain ⟨-,hpush⟩ | ⟨hroom,hpush⟩ := s.queue.push_cases req
    · rw [hpush]
      exact h
    · rw [hpush]
      exact h.push req hroom
  | pop =>
    obtain rfl := Option.some.inj hstep
    obtain ⟨-,hpop⟩ | ⟨m,rest,hperm,hpop⟩ := s.queue.pop_cases
    · rw [hpop]
      simpa using h
    · rw [hpop]
      exact h.pop hperm

/-- What is popped is the first one. -/
theorem Law.first (h : Law capacity s) {m : PriorityRequest} (hm : s.queue.pop.1 = some m) : s.First m := by
  have hstored : ∀ x ∈ s.queue.inner, x ∈ s.stamped := by
    intro x hx
    exact h.kept.mem_iff.mp (List.mem_append_right s.popped hx)
  cases hpop : MaxBag.pop PriorityRequest.cmp s.queue.inner with
  | none => simp [RequestQueue.pop,hpop] at hm
  | some p =>
    obtain rfl : p.1 = m := by simpa [RequestQueue.pop,hpop] using hm
    have hmem : p.1 ∈ s.queue.inner := (MaxBag.pop_perm hpop).mem_iff.mp List.mem_cons_self
    obtain ⟨i,hi⟩ := List.mem_iff_getElem?.mp (hstored p.1 hmem)
    refine ⟨hmem,i,hi,?_⟩
    intro j x hx hj
    have hle := PriorityRequest.cmp_isLE (MaxBag.pop_max hpop hx)
    rwa [stamped_getElem? hi,stamped_getElem? hj] at hle

theorem Law.stepLaw (h : Law capacity s) (a : QueueAction) : s.StepLaw a := by
  cases a with
  | push req =>
    have hwithin := h.within
    rw [← h.capacity_eq] at hwithin
    obtain ⟨hfull,hpush⟩ | ⟨hroom,hpush⟩ := s.queue.push_cases req
    · have heq : s.queue.len = s.queue.capacity := Nat.le_antisymm hwithin hfull
      simp [StepLaw,hpush,heq]
    · have hne : s.queue.len ≠ s.queue.capacity := hroom.ne
      simp [StepLaw,hpush,hne]
  | pop =>
    refine ⟨?_,fun m hm => h.first hm⟩
    obtain ⟨hnil,hpop⟩ | ⟨m,rest,hperm,hpop⟩ := s.queue.pop_cases
    · simp [hpop,RequestQueue.len,hnil]
    · have hlen := hperm.length_eq
      simp [hpop,RequestQueue.len,← hlen]

/-- Every sequence of pushes and pops, refused pushes included. -/
theorem queue_gives_out_in_order (capacity : ℕ) (as : List QueueAction) :
    (∃ t, exec step (start capacity) as = some t) ∧ Always step (Law capacity) (start capacity) as ∧
      Throughout step StepLaw (start capacity) as := by
  have htotal : ∀ (s : QueueHistory) (a : QueueAction), ∃ t, s.step a = some t := by
    intro s a
    cases a <;> exact ⟨_,rfl⟩
  obtain ⟨t,ht⟩ := exec_total htotal (start capacity) as
  refine ⟨⟨t,ht⟩,?_,?_⟩
  · exact always_preserves (fun _ hs => hs) (fun _ _ _ hs hst => hs.step hst) (law_start capacity) as
  · exact throughout_preserves (fun _ _ _ hs hst => hs.step hst) (fun _ a _ hs _ => hs.stepLaw a)
      (law_start capacity) ht

end QueueHistory
end RakkaInference
