import Mathlib.Data.List.Basic

/-! A counter of occupied slots beside the list of all tasks that were ever given one. -/
namespace Machine
variable {τ : Type*} {ts : List τ} {i cap n : ℕ} {x y : τ} {live : τ → Bool}

/-- Replacing one task changes the number of tasks of a kind by that task alone. -/
theorem countP_set_add (h : ts[i]? = some x) (y : τ) (live : τ → Bool) :
    (ts.set i y).countP live+(if live x then 1 else 0) = ts.countP live+if live y then 1 else 0 := by
  induction ts generalizing i with
  | nil => exact nomatch h
  | cons z ts ih =>
    cases i with
    | zero =>
      obtain rfl : z = x := by simpa using h
      simp only [List.set_cons_zero,List.countP_cons]
      omega
    | succ i =>
      have hrest := ih (i := i) (by simpa using h)
      simp only [List.set_cons_succ,List.countP_cons]
      omega

/-- A lock that is only taken while nobody has it has one holder at most. -/
theorem countP_set_le_one (h : ts.countP live ≤ 1) (hi : ts[i]? = some x)
    (hy : live y = true → live x = true ∨ ∀ z ∈ ts, (!live z) = true) : (ts.set i y).countP live ≤ 1 := by
  have hcount := countP_set_add hi y live
  by_cases hyl : live y = true
  · rcases hy hyl with hxl | hfree
    · simp only [hxl,hyl,if_true] at hcount
      omega
    · have hnone : ts.countP live = 0 := by
        apply List.countP_eq_zero.mpr
        intro z hz
        simpa using hfree z hz
      simp only [hyl,if_true] at hcount
      omega
  · simp only [hyl,Bool.false_eq_true,if_false] at hcount
    omega

/-- What holds of every task and of a new one holds of every task after the new one has
taken a place. -/
theorem all_of_set {P : τ → Prop} (h : ∀ z ∈ ts, P z) (hy : P y) : ∀ z ∈ ts.set i y, P z := by
  intro z hz
  apply (List.mem_or_eq_of_mem_set hz).elim (h z)
  rintro rfl
  exact hy

theorem all_of_snoc {P : τ → Prop} (h : ∀ z ∈ ts, P z) (hy : P y) : ∀ z ∈ ts++[y], P z := by
  intro z hz
  apply (List.mem_append.mp hz).elim (h z)
  intro hz
  rw [List.mem_singleton.mp hz]
  exact hy

/-- The counter is the number of live tasks, and within the capacity. -/
structure Counted (cap : ℕ) (live : τ → Bool) (n : ℕ) (ts : List τ) : Prop where
  eq : n = ts.countP live
  le : n ≤ cap

namespace Counted

theorem nil (cap : ℕ) (live : τ → Bool) : Counted cap live 0 [] := ⟨rfl,Nat.zero_le _⟩

theorem take (h : Counted cap live n ts) (hroom : n < cap) (hx : live x = true) :
    Counted cap live (n+1) (ts++[x]) := by
  refine ⟨?_,hroom⟩
  rw [h.eq,List.countP_append]
  simp [hx]

theorem update (h : Counted cap live n ts) (hi : ts[i]? = some x) (hy : live y = live x) :
    Counted cap live n (ts.set i y) := by
  refine ⟨?_,h.le⟩
  have hcount := countP_set_add hi y live
  have heq := h.eq
  rw [hy] at hcount
  omega

/-- The slot of a live task is there to be given back. -/
theorem release (h : Counted cap live n ts) (hi : ts[i]? = some x) (hx : live x = true)
    (hy : live y = false) : 0 < n ∧ Counted cap live (n-1) (ts.set i y) := by
  have hcount := countP_set_add hi y live
  have heq := h.eq
  have hle := h.le
  simp only [hx,hy,if_true,Bool.false_eq_true,if_false] at hcount
  exact ⟨by omega,by omega,by omega⟩

end Counted
end Machine
