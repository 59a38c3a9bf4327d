import Mathlib.Algebra.BigOperators.Group.List.Basic
import Mathlib.Algebra.Order.BigOperators.Group.List
import Mathlib.Algebra.Ring.Nat

/-! Sums over the entries of a log that meet a condition, and what an interval of time can
hold when the log falls into windows of a fixed length that do not overlap. -/
namespace Machine
variable {ε : Type*} {f : ε → ℕ} {P Q : ε → Prop} [DecidablePred P] [DecidablePred Q] {log : List ε}

/-- What the entries with a property add up to. -/
def total (f : ε → ℕ) (P : ε → Prop) [DecidablePred P] (log : List ε) : ℕ := ((log.filter P).map f).sum

@[simp] theorem total_nil : total f P [] = 0 := rfl

theorem total_cons (e : ε) : total f P (e::log) = (if P e then f e else 0)+total f P log := by
  by_cases he : P e <;> simp [total,he]

theorem total_snoc (e : ε) : total f P (log++[e]) = total f P log+if P e then f e else 0 := by
  by_cases he : P e <;> simp [total,he]

theorem total_mono (h : ∀ e ∈ log, P e → Q e) : total f P log ≤ total f Q log := by
  induction log with
  | nil => exact le_rfl
  | cons e log ih =>
    have hrest := ih fun d hd => h d (List.mem_cons_of_mem _ hd)
    have he := h e List.mem_cons_self
    rw [total_cons,total_cons]
    by_cases hP : P e
    · rw [if_pos hP,if_pos (he hP)]
      omega
    · rw [if_neg hP]
      omega

theorem total_eq_zero (h : ∀ e ∈ log, ¬ P e) : total f P log = 0 := by
  have hnone : log.filter P = [] := List.filter_eq_nil_iff.mpr fun e he => by simpa using h e he
  simp [total,hnone]

/-- A condition is met on one side or on the other. -/
theorem total_le_add {R : ε → Prop} [DecidablePred R] (h : ∀ e ∈ log, P e → Q e ∨ R e) :
    total f P log ≤ total f Q log+total f R log := by
  induction log with
  | nil => exact le_rfl
  | cons e log ih =>
    have hrest := ih fun d hd => h d (List.mem_cons_of_mem _ hd)
    have he := h e List.mem_cons_self
    simp only [total_cons]
    by_cases hP : P e
    · rcases he hP with hQ | hR
      · rw [if_pos hP,if_pos hQ]
        omega
      · rw [if_pos hP,if_pos hR]
        omega
    · rw [if_neg hP]
      omega

section Windows
variable {start time : ε → ℕ} {D L : ℕ}

/-- Every entry lies in a window of length `D`, and two windows are the same or at least
that far apart. -/
structure Windowed (start time : ε → ℕ) (D : ℕ) (log : List ε) : Prop where
  inside : ∀ e ∈ log, start e ≤ time e ∧ time e < start e+D
  apart : ∀ e ∈ log, ∀ d ∈ log, start e = start d ∨ start e+D ≤ start d ∨ start d+D ≤ start e

/-- A new entry of the latest window, or of a later one that keeps the distance. -/
theorem Windowed.snoc (hw : Windowed start time D log) {e : ε} (hinside : start e ≤ time e ∧ time e < start e+D)
    (hfar : ∀ d ∈ log, start d = start e ∨ start d+D ≤ start e) : Windowed start time D (log++[e]) := by
  constructor
  · intro d hd
    rcases List.mem_append.mp hd with hd | hd
    · exact hw.inside d hd
    · rw [List.mem_singleton.mp hd]
      exact hinside
  · intro c hc d hd
    rcases List.mem_append.mp hc with hold | hc
    · rcases List.mem_append.mp hd with hold' | hd
      · exact hw.apart c hold d hold'
      · obtain rfl := List.mem_singleton.mp hd
        exact (hfar c hold).imp_right .inl
    · obtain rfl := List.mem_singleton.mp hc
      rcases List.mem_append.mp hd with hold | hd
      · exact (hfar d hold).imp Eq.symm .inr
      · exact .inl (congrArg start (List.mem_singleton.mp hd).symm)

theorem total_le_of_one_window (hone : ∀ e ∈ log, ∀ d ∈ log, P e → P d → start e = start d)
    (hL : ∀ w, total f (fun e => start e = w) log ≤ L) : total f P log ≤ L := by
  by_cases hany : ∃ e ∈ log, P e
  · obtain ⟨e,he,hP⟩ := hany
    refine (total_mono fun d hd hPd => ?_).trans (hL (start e))
    exact hone d hd e he hPd hP
  · push Not at hany
    rw [total_eq_zero hany]
    exact Nat.zero_le _

/-- An interval shorter than the windows meets at most two of them: the entries of windows
that began by its start, and the entries of windows that began inside it. -/
theorem total_interval_le (hw : Windowed start time D log)
    (hL : ∀ w, total f (fun e => start e = w) log ≤ L) {a b : ℕ} (hab : b < a+D) :
    total f (fun e => a ≤ time e ∧ time e ≤ b) log ≤ 2*L := by
  have hold : total f (fun e => a ≤ time e ∧ time e ≤ b ∧ start e ≤ a) log ≤ L := by
    apply total_le_of_one_window _ hL
    intro e he d hd hPe hPd
    have hine := hw.inside e he
    have hind := hw.inside d hd
    have hapart := hw.apart e he d hd
    omega
  have hnew : total f (fun e => a ≤ time e ∧ time e ≤ b ∧ a < start e) log ≤ L := by
    apply total_le_of_one_window _ hL
    intro e he d hd hPe hPd
    have hine := hw.inside e he
    have hind := hw.inside d hd
    have hapart := hw.apart e he d hd
    omega
  have hsplit : total f (fun e => a ≤ time e ∧ time e ≤ b) log ≤
      total f (fun e => a ≤ time e ∧ time e ≤ b ∧ start e ≤ a) log+
        total f (fun e => a ≤ time e ∧ time e ≤ b ∧ a < start e) log := by
    apply total_le_add
    intro e _ he
    omega
  omega

end Windows
end Machine
