import Mathlib.Data.List.ReduceOption
import RakkaInference.Machine.Runs
import RakkaInference.Remote.Backoff

/-! The delays before the attempts to connect again, between two successful connects. -/
namespace RakkaInference.Ws
open Machine

structure ReconnectEngine where
  policy : BackoffPolicy
  maxAttempts : UInt32
  attempt : UInt32

namespace ReconnectEngine

def saturatingSub (a b : UInt32) : UInt32 := if b ≤ a then a-b else 0

def saturatingAdd (a b : UInt32) : UInt32 := if a.toNat+b.toNat < 2^32 then a+b else 4294967295

def new (policy : BackoffPolicy) (maxAttempts : UInt32) : ReconnectEngine := { policy, maxAttempts, attempt := 0 }

def reset (r : ReconnectEngine) : ReconnectEngine := { r with attempt := 0 }

/-- The delay before the next attempt. There is none when no attempt is left. -/
def nextDelay (r : ReconnectEngine) : ReconnectEngine × Option ℕ :=
  if r.attempt = 0 then ({ r with attempt := 1 },some 0)
  else if r.maxAttempts ≠ 0 ∧ r.attempt ≥ r.maxAttempts then (r,none)
  else ({ r with attempt := saturatingAdd r.attempt 1 },
    some (computeBackoff r.policy (saturatingSub r.attempt 1).toNat))

def attempts (r : ReconnectEngine) : UInt32 := r.attempt

end ReconnectEngine

/-- The engine and what it has answered since the last reset. -/
structure ReconnectHistory where
  engine : ReconnectEngine
  answers : List (Option ℕ) := []

inductive ReconnectCall
  | nextDelay
  | reset

namespace ReconnectHistory

def start (policy : BackoffPolicy) (maxAttempts : UInt32) : ReconnectHistory := { engine := .new policy maxAttempts }

/-- There are fewer than `2^32` calls of `next_delay` between two resets. -/
def step (s : ReconnectHistory) : ReconnectCall → Option ReconnectHistory
  | .nextDelay =>
    if s.answers.length+1 < 2^32 then
      some { engine := s.engine.nextDelay.1, answers := s.answers++[s.engine.nextDelay.2] }
    else none
  | .reset => some { engine := s.engine.reset }

/-- The delays that were answered since the last reset. -/
def delays (s : ReconnectHistory) : List ℕ := s.answers.reduceOption

/-- The first attempt is free, the others back off, and when a number of attempts is set there are no more. -/
structure Law (policy : BackoffPolicy) (maxAttempts : UInt32) (s : ReconnectHistory) : Prop where
  free : ∀ d, s.delays.head? = some d → d = 0
  backoff : ∀ k d, 2 ≤ k → s.delays[k-1]? = some d → d = computeBackoff policy (k-2)
  budget : maxAttempts ≠ 0 → ∀ i answer, s.answers[i]? = some answer → (answer.isSome ↔ i < maxAttempts.toNat)
  forever : maxAttempts = 0 → none ∉ s.answers
  attempts : s.engine.attempts.toNat = s.delays.length

/-- The delay of an attempt, counted from zero. -/
def delayOf (policy : BackoffPolicy) (i : ℕ) : ℕ := if i = 0 then 0 else computeBackoff policy (i-1)

/-- The answers so far are those of the first attempts, and none when they are used up. -/
structure Budgeted (policy : BackoffPolicy) (maxAttempts : UInt32) (s : ReconnectHistory) (n m : ℕ) : Prop where
  policy_eq : s.engine.policy = policy
  maxAttempts_eq : s.engine.maxAttempts = maxAttempts
  attempt_eq : s.engine.attempt.toNat = n
  answers_eq : s.answers = (List.range n).map (fun i => some (delayOf policy i))++List.replicate m none
  within : maxAttempts ≠ 0 → n ≤ maxAttempts.toNat
  used : m ≠ 0 → maxAttempts ≠ 0 ∧ maxAttempts.toNat ≤ n

variable {policy : BackoffPolicy} {maxAttempts : UInt32} {s t : ReconnectHistory} {a : ReconnectCall} {n m : ℕ}

theorem toNat_saturatingAdd_one {x : UInt32} (h : x.toNat+1 < 2^32) :
    (ReconnectEngine.saturatingAdd x 1).toNat = x.toNat+1 := by
  have hadd : ReconnectEngine.saturatingAdd x 1 = x+1 := if_pos h
  rw [hadd,UInt32.toNat_add]
  exact Nat.mod_eq_of_lt h

theorem toNat_saturatingSub_one {x : UInt32} (h : x ≠ 0) :
    (ReconnectEngine.saturatingSub x 1).toNat = x.toNat-1 := by
  have hpos : 1 ≤ x.toNat := Nat.pos_of_ne_zero fun hzero => h (UInt32.toNat_inj.mp hzero)
  have hle : 1 ≤ x := UInt32.le_iff_toNat_le.mpr hpos
  have hsub : ReconnectEngine.saturatingSub x 1 = x-1 := if_pos hle
  rw [hsub,UInt32.toNat_sub_of_le _ _ hle]
  rfl

theorem budgeted_start (policy : BackoffPolicy) (maxAttempts : UInt32) :
    Budgeted policy maxAttempts (start policy maxAttempts) 0 0 :=
  ⟨rfl,rfl,rfl,rfl,fun _ => Nat.zero_le _,fun h => absurd rfl h⟩

theorem Budgeted.length_eq (h : Budgeted policy maxAttempts s n m) : s.answers.length = n+m := by
  rw [h.answers_eq,List.length_append,List.length_map,List.length_range,List.length_replicate]

/-- A delay is answered only as long as none has been refused. -/
theorem Budgeted.delay (h : Budgeted policy maxAttempts s n m) (hleft : maxAttempts ≠ 0 → n < maxAttempts.toNat)
    {r : ReconnectEngine} (hpolicy : r.policy = policy) (hmax : r.maxAttempts = maxAttempts)
    (hattempt : r.attempt.toNat = n+1) :
    Budgeted policy maxAttempts ⟨r,s.answers++[some (delayOf policy n)]⟩ (n+1) 0 := by
  have hm : m = 0 := by
    by_contra hm
    obtain ⟨hne,hle⟩ := h.used hm
    exact absurd (hleft hne) (Nat.not_lt_of_ge hle)
  constructor
  case policy_eq => exact hpolicy
  case maxAttempts_eq => exact hmax
  case attempt_eq => exact hattempt
  case answers_eq =>
    rw [h.answers_eq,hm,List.range_succ,List.map_append]
    simp
  case within => exact hleft
  case used => exact fun h => absurd rfl h

theorem Budgeted.refuse (h : Budgeted policy maxAttempts s n m) (hne : maxAttempts ≠ 0)
    (hle : maxAttempts.toNat ≤ n) : Budgeted policy maxAttempts ⟨s.engine,s.answers++[none]⟩ n (m+1) := by
  constructor
  case policy_eq => exact h.policy_eq
  case maxAttempts_eq => exact h.maxAttempts_eq
  case attempt_eq => exact h.attempt_eq
  case answers_eq =>
    dsimp only
    rw [h.answers_eq,List.replicate_succ',List.append_assoc]
  case within => exact h.within
  case used => exact fun _ => ⟨hne,hle⟩

/-- An engine with attempts left answers the next delay, and another one none. -/
theorem nextDelay_cases (r : ReconnectEngine) (hshort : r.attempt.toNat+1 < 2^32) :
    ((r.maxAttempts ≠ 0 → r.attempt.toNat < r.maxAttempts.toNat) ∧
      ∃ x : UInt32, x.toNat = r.attempt.toNat+1 ∧
        r.nextDelay = ({ r with attempt := x },some (delayOf r.policy r.attempt.toNat))) ∨
    (r.maxAttempts ≠ 0 ∧ r.maxAttempts.toNat ≤ r.attempt.toNat) ∧ r.nextDelay = (r,none) := by
  by_cases hzero : r.attempt = 0
  · have hn : r.attempt.toNat = 0 := congrArg UInt32.toNat hzero
    have hnext : r.nextDelay = ({ r with attempt := 1 },some 0) := if_pos hzero
    left
    rw [hnext,hn]
    refine ⟨?_,1,rfl,rfl⟩
    intro hne
    exact Nat.pos_of_ne_zero fun hz => hne (UInt32.toNat_inj.mp hz)
  · have hn : r.attempt.toNat ≠ 0 := fun hn => hzero (UInt32.toNat_inj.mp hn)
    by_cases hcap : r.maxAttempts ≠ 0 ∧ r.attempt ≥ r.maxAttempts
    · right
      exact ⟨⟨hcap.1,UInt32.le_iff_toNat_le.mp hcap.2⟩,(if_neg hzero).trans (if_pos hcap)⟩
    · have hnext : r.nextDelay = ({ r with attempt := ReconnectEngine.saturatingAdd r.attempt 1 },
          some (computeBackoff r.policy (ReconnectEngine.saturatingSub r.attempt 1).toNat)) :=
        (if_neg hzero).trans (if_neg hcap)
      left
      refine ⟨?_,ReconnectEngine.saturatingAdd r.attempt 1,toNat_saturatingAdd_one hshort,?_⟩
      · intro hne
        by_contra hnot
        exact hcap ⟨hne,UInt32.le_iff_toNat_le.mpr (Nat.le_of_not_lt hnot)⟩
      · rw [hnext,toNat_saturatingSub_one hzero,delayOf,if_neg hn]

/-- Every call keeps the answers to the budget. -/
theorem Budgeted.step (h : Budgeted policy maxAttempts s n m) (hstep : s.step a = some t) :
    ∃ n m, Budgeted policy maxAttempts t n m := by
  cases a with
  | reset =>
    obtain rfl := Option.some.inj hstep
    exact ⟨0,0,h.policy_eq,h.maxAttempts_eq,rfl,rfl,fun _ => Nat.zero_le _,fun h => absurd rfl h⟩
  | nextDelay =>
    unfold ReconnectHistory.step at hstep
    dsimp only at hstep
    split at hstep
    case isFalse => exact nomatch hstep
    case isTrue hcalls =>
      obtain rfl := Option.some.inj hstep
      have hshort : s.engine.attempt.toNat+1 < 2^32 := by
        rw [h.length_eq] at hcalls
        rw [h.attempt_eq]
        omega
      obtain ⟨hleft,x,hx,hnext⟩ | ⟨hused,hnext⟩ := nextDelay_cases s.engine hshort
      · rw [h.maxAttempts_eq,h.attempt_eq] at hleft
        rw [hnext,h.attempt_eq,h.policy_eq]
        exact ⟨n+1,0,h.delay hleft rfl h.maxAttempts_eq (hx.trans (congrArg (·+1) h.attempt_eq))⟩
      · rw [h.maxAttempts_eq,h.attempt_eq] at hused
        rw [hnext]
        exact ⟨n,m+1,h.refuse hused.1 hused.2⟩

theorem Budgeted.delays_eq (h : Budgeted policy maxAttempts s n m) :
    s.delays = (List.range n).map (delayOf policy) := by
  rw [delays,h.answers_eq,List.reduceOption_append,List.reduceOption_replicate_none,List.append_nil]
  exact List.filterMap_map.trans (congrFun List.filterMap_eq_map _)

theorem Budgeted.law (h : Budgeted policy maxAttempts s n m) : Law policy maxAttempts s := by
  have hdelays := h.delays_eq
  constructor
  case free =>
    intro d hd
    rw [hdelays] at hd
    cases n with
    | zero => exact nomatch hd
    | succ n =>
      rw [List.range_succ_eq_map,List.map_cons,List.head?_cons] at hd
      exact (Option.some.inj hd).symm
  case backoff =>
    intro k d hk hd
    rw [hdelays,List.getElem?_map,Option.map_eq_some_iff] at hd
    obtain ⟨i,hi,rfl⟩ := hd
    obtain ⟨-,rfl⟩ := List.getElem?_eq_some_iff.mp hi
    rw [List.getElem_range,delayOf,if_neg (by omega)]
    rfl
  case budget =>
    intro hne i answer hanswer
    have hwithin := h.within hne
    rw [h.answers_eq,List.getElem?_append,List.length_map,List.length_range] at hanswer
    split at hanswer
    case isTrue hi =>
      rw [List.getElem?_map,List.getElem?_range hi] at hanswer
      rw [← Option.some.inj hanswer]
      exact iff_of_true rfl (hi.trans_le hwithin)
    case isFalse hi =>
      rw [List.getElem?_replicate] at hanswer
      split at hanswer
      case isTrue hm =>
        rw [← Option.some.inj hanswer]
        have hle := (h.used (by omega)).2
        exact iff_of_false Bool.false_ne_true (by omega)
      case isFalse => exact nomatch hanswer
  case forever =>
    intro hzero hnone
    have hm : m = 0 := by
      by_contra hm
      exact (h.used hm).1 hzero
    rw [h.answers_eq,hm] at hnone
    simp at hnone
  case attempts =>
    rw [hdelays,List.length_map,List.length_range]
    exact h.attempt_eq

/-- Between any two calls of a sequence of calls the answers since the last reset are those of the budget. -/
theorem reconnect_budget (policy : BackoffPolicy) (maxAttempts : UInt32) (calls : List ReconnectCall) :
    Always step (Law policy maxAttempts) (start policy maxAttempts) calls := by
  refine always_preserves (J := fun s => ∃ n m, Budgeted policy maxAttempts s n m) ?_ ?_ ?_ calls
  · rintro s ⟨n,m,h⟩
    exact h.law
  · rintro s a t ⟨n,m,h⟩ hstep
    exact h.step hstep
  · exact ⟨0,0,budgeted_start policy maxAttempts⟩

end ReconnectHistory
end RakkaInference.Ws
