import RakkaInference.Core.Request
import RakkaInference.Machine.MaxBag

/-! The bounded priority queue of the remote engine. Output channels are named by
numbers. -/
namespace RakkaInference
open Machine

/-- Higher classes are served first. -/
inductive Priority
  | background
  | normal
  | high
  | critical
  deriving DecidableEq, Ord

structure PriorityRequest where
  priority : Priority
  arrivalSeq : ℕ
  batch : ExecuteBatch
  output : ℕ
  deriving DecidableEq

/-- The order of the heap: the higher class, then the earlier arrival, is greater. -/
def PriorityRequest.cmp (a o : PriorityRequest) : Ordering :=
  (compare a.priority o.priority).then (compare o.arrivalSeq a.arrivalSeq)

structure RequestQueue where
  inner : List PriorityRequest
  capacity : ℕ
  nextSeq : ℕ

namespace RequestQueue

def new (capacity : ℕ) : RequestQueue := ⟨[],capacity,0⟩

def len (q : RequestQueue) : ℕ := q.inner.length

def isEmpty (q : RequestQueue) : Bool := q.inner.isEmpty

def isFull (q : RequestQueue) : Bool := q.len ≥ q.capacity

/-- A full queue gives the request back as it came; otherwise the request is stamped with
its place in the order of arrival. -/
def push (q : RequestQueue) (req : PriorityRequest) : RequestQueue × Except PriorityRequest Unit :=
  if q.isFull then (q,.error req)
  else ({ q with inner := { req with arrivalSeq := q.nextSeq }::q.inner, nextSeq := q.nextSeq+1 },.ok ())

def pop (q : RequestQueue) : Option PriorityRequest × RequestQueue :=
  match MaxBag.pop PriorityRequest.cmp q.inner with
  | none => (none,q)
  | some (req,rest) => (some req,{ q with inner := rest })

variable {q : RequestQueue}

@[simp] theorem isEmpty_iff : q.isEmpty = true ↔ q.inner = [] := List.isEmpty_iff

theorem isFull_iff : q.isFull = true ↔ q.capacity ≤ q.inner.length := by simp [isFull,len]

/-- What a push can do. -/
theorem push_cases (q : RequestQueue) (req : PriorityRequest) :
    (q.capacity ≤ q.inner.length ∧ q.push req = (q,.error req)) ∨
    (q.inner.length < q.capacity ∧ q.push req =
      ({ q with inner := { req with arrivalSeq := q.nextSeq }::q.inner, nextSeq := q.nextSeq+1 },.ok ())) := by
  by_cases h : q.isFull = true
  · exact .inl ⟨isFull_iff.mp h,by rw [push,if_pos h]⟩
  · refine .inr ⟨?_,by rw [push,if_neg h]⟩
    rw [isFull_iff] at h
    omega

/-- What a pop can do. -/
theorem pop_cases (q : RequestQueue) :
    (q.inner = [] ∧ q.pop = (none,q)) ∨
    (∃ req rest, (req::rest).Perm q.inner ∧ q.pop = (some req,{ q with inner := rest })) := by
  cases h : MaxBag.pop PriorityRequest.cmp q.inner with
  | none => exact .inl ⟨MaxBag.pop_eq_none_iff.mp h,by rw [pop,h]⟩
  | some p => exact .inr ⟨p.1,p.2,MaxBag.pop_perm h,by rw [pop,h]⟩

end RequestQueue
end RakkaInference
