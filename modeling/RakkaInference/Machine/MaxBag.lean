import Mathlib.Data.List.Perm.Basic

/-! A bag of values from which the greatest under a comparison is taken out. The order in
which the others are kept is not observable. -/
namespace Machine.MaxBag
variable {α : Type*} (cmp : α → α → Ordering)

/-- The greatest of `x` and `xs`, and the rest. -/
def extract : α → List α → α × List α
  | x,[] => (x,[])
  | x,y::ys =>
    if cmp x y = .lt then ((extract y ys).1,x::(extract y ys).2)
    else ((extract x ys).1,y::(extract x ys).2)

def pop : List α → Option (α × List α)
  | [] => none
  | x::xs => some (extract cmp x xs)

theorem extract_perm (x : α) (xs : List α) :
    ((extract cmp x xs).1::(extract cmp x xs).2).Perm (x::xs) := by
  induction xs generalizing x with
  | nil => exact .refl _
  | cons y ys ih =>
    unfold extract
    split
    · exact (List.Perm.swap _ _ _).trans ((ih y).cons x)
    · exact (List.Perm.swap _ _ _).trans (((ih x).cons y).trans (List.Perm.swap _ _ _))

variable {cmp}

@[simp] theorem pop_eq_none_iff {xs : List α} : pop cmp xs = none ↔ xs = [] := by
  cases xs <;> simp [pop]

/-- Taking the greatest out loses and invents nothing. -/
theorem pop_perm {m : α} {xs rest : List α} (h : pop cmp xs = some (m,rest)) :
    (m::rest).Perm xs := by
  cases xs with
  | nil => simp [pop] at h
  | cons x xs =>
    have hp := extract_perm cmp x xs
    simp only [pop,Option.some.injEq] at h
    rwa [h] at hp

theorem extract_max [Std.TransCmp cmp] (x : α) (xs : List α) :
    ∀ z ∈ x::xs, (cmp z (extract cmp x xs).1).isLE := by
  induction xs generalizing x with
  | nil =>
    intro z hz
    obtain rfl := List.mem_singleton.mp hz
    have hself : cmp z z = .eq := Std.ReflCmp.compare_self
    rw [extract,hself]
    rfl
  | cons y ys ih =>
    intro z hz
    unfold extract
    split
    case isTrue hlt =>
      obtain rfl | hz := List.mem_cons.mp hz
      · exact Std.TransCmp.isLE_trans (by rw [hlt]; rfl) (ih y y List.mem_cons_self)
      · exact ih y z hz
    case isFalse hge =>
      have hyx : (cmp y x).isLE := by
        have hswap : cmp y x = (cmp x y).swap := Std.OrientedCmp.eq_swap
        rw [hswap]
        cases hxy : cmp x y with
        | lt => exact absurd hxy hge
        | eq => rfl
        | gt => rfl
      obtain rfl | hz := List.mem_cons.mp hz
      · exact ih z z List.mem_cons_self
      · obtain rfl | hz := List.mem_cons.mp hz
        · exact Std.TransCmp.isLE_trans hyx (ih x x List.mem_cons_self)
        · exact ih x z (List.mem_cons_of_mem x hz)

/-- What is taken out is a greatest value, when the comparison is a total order. -/
theorem pop_max [Std.TransCmp cmp] {m z : α} {xs rest : List α} (h : pop cmp xs = some (m,rest)) (hz : z ∈ xs) :
    (cmp z m).isLE := by
  cases xs with
  | nil => exact nomatch hz
  | cons x xs =>
    have hmax : (cmp z (extract cmp x xs).1).isLE := extract_max x xs z hz
    simp only [pop,Option.some.injEq] at h
    rwa [h] at hmax

end Machine.MaxBag
