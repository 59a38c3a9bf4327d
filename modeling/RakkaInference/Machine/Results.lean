import Mathlib.Data.List.Forall2

/-! Chains of steps that may fail, read back from their result. -/
namespace Machine
variable {ε α β : Type}

theorem bind_eq_ok {x : Except ε α} {f : α → Except ε β} {b : β} (h : x >>= f = .ok b) :
    ∃ a, x = .ok a ∧ f a = .ok b := by
  cases x with
  | error e => exact nomatch h
  | ok a => exact ⟨a,rfl,h⟩

/-- A list of results comes from the items one by one. -/
theorem mapM_eq_ok {f : α → Except ε β} {xs : List α} {ys : List β} (h : xs.mapM f = .ok ys) :
    List.Forall₂ (fun x y => f x = .ok y) xs ys := by
  induction xs generalizing ys with
  | nil =>
    rw [List.mapM_nil] at h
    obtain rfl : [] = ys := Except.ok.inj h
    exact .nil
  | cons x xs ih =>
    rw [List.mapM_cons] at h
    obtain ⟨y,hy,hrest⟩ := bind_eq_ok h
    obtain ⟨ys',hys,hsame⟩ := bind_eq_ok hrest
    obtain rfl : y::ys' = ys := Except.ok.inj hsame
    exact .cons hy (ih hys)

end Machine
