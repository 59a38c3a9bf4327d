import Mathlib.Data.List.Induction

/-! Sequences that end once: the last item is terminal and no other one is. -/
namespace Machine
variable {α : Type*} {p : α → Bool} {xs ys : List α} {x : α}

def EndsOnce (p : α → Bool) (xs : List α) : Prop :=
  ∃ init last, xs = init++[last] ∧ p last = true ∧ ∀ x ∈ init, p x = false

theorem endsOnce_snoc_iff : EndsOnce p (xs++[x]) ↔ p x = true ∧ ∀ y ∈ xs, p y = false := by
  constructor
  · rintro ⟨init,last,heq,hlast,hinit⟩
    obtain ⟨rfl,hsame⟩ := List.append_inj' heq rfl
    obtain rfl : x = last := by simpa using hsame
    exact ⟨hlast,hinit⟩
  · rintro ⟨hx,hxs⟩
    exact ⟨xs,x,rfl,hx,hxs⟩

/-- A sequence that has ended does not end again. -/
theorem EndsOnce.append_iff (h : EndsOnce p xs) : EndsOnce p (xs++ys) ↔ ys = [] := by
  refine ⟨?_,?_⟩
  · intro hys
    cases ys using List.reverseRecOn with
    | nil => rfl
    | append_singleton ys y =>
      obtain ⟨init,last,rfl,hlast,-⟩ := h
      rw [← List.append_assoc,endsOnce_snoc_iff] at hys
      rw [hys.2 last (by simp)] at hlast
      exact nomatch hlast
  · rintro rfl
    rwa [List.append_nil]

/-- A sequence without a terminal item does not end. -/
theorem not_endsOnce_of_forall (h : ∀ x ∈ xs, p x = false) : ¬ EndsOnce p xs := by
  rintro ⟨init,last,rfl,hlast,-⟩
  rw [h last (by simp)] at hlast
  exact nomatch hlast

/-- The first terminal item. -/
theorem exists_first (h : ∃ x ∈ xs, p x = true) :
    ∃ init x rest, xs = init++x::rest ∧ p x = true ∧ ∀ y ∈ init, p y = false := by
  induction xs with
  | nil => simp at h
  | cons y xs ih =>
    cases hy : p y with
    | true => exact ⟨[],y,xs,rfl,hy,nofun⟩
    | false =>
      have hxs : ∃ x ∈ xs, p x = true := by simpa [hy] using h
      obtain ⟨init,x,rest,rfl,hx,hinit⟩ := ih hxs
      exact ⟨y::init,x,rest,rfl,hx,List.forall_mem_cons.2 ⟨hy,hinit⟩⟩

end Machine
