import Mathlib.Data.List.Induction
import Mathlib.Order.Nat
import RakkaInference.Machine.Endings

/-! Lists cut into pieces of one length, where the last piece may be shorter, and pieces that are marked
as the last one or not. -/
namespace Machine
variable {α β : Type*} {n : ℕ} {xs : List α}

/-- The pieces of `n` items, from the start. -/
def cuts (n : ℕ) (xs : List α) : List (List α) :=
  if n = 0 ∨ xs = [] then [] else xs.take n::cuts n (xs.drop n)
termination_by xs.length
decreasing_by
  rename_i h
  have hpos := List.length_pos_iff.mpr (not_or.mp h).2
  rw [List.length_drop]
  omega

theorem cuts_nil (n : ℕ) : cuts n ([] : List α) = [] := by
  rw [cuts,if_pos (.inr rfl)]

theorem cuts_of_ne_nil (hn : 0 < n) (hxs : xs ≠ []) : cuts n xs = xs.take n::cuts n (xs.drop n) := by
  rw [cuts,if_neg (by simp [hn.ne',hxs])]

theorem cuts_ne_nil (hn : 0 < n) (hxs : xs ≠ []) : cuts n xs ≠ [] := by
  rw [cuts_of_ne_nil hn hxs]
  exact List.cons_ne_nil _ _

/-- Items are cut off as long as there are some. -/
theorem cuts_induction {motive : List α → Prop} (hn : 0 < n) (nil : motive [])
    (cut : ∀ xs, xs ≠ [] → motive (xs.drop n) → motive xs) (xs : List α) : motive xs := by
  induction hlen : xs.length using Nat.strong_induction_on generalizing xs with
  | _ m ih =>
    subst hlen
    by_cases hxs : xs = []
    · rw [hxs]
      exact nil
    · apply cut xs hxs
      apply ih _ _ _ rfl
      have hpos := List.length_pos_iff.mpr hxs
      rw [List.length_drop]
      omega

theorem flatten_cuts (hn : 0 < n) (xs : List α) : (cuts n xs).flatten = xs := by
  induction xs using cuts_induction hn with
  | nil => rw [cuts_nil,List.flatten_nil]
  | cut xs hxs ih => rw [cuts_of_ne_nil hn hxs,List.flatten_cons,ih,List.take_append_drop]

theorem length_cuts (hn : 0 < n) (xs : List α) : (cuts n xs).length = (xs.length+n-1)/n := by
  induction xs using cuts_induction hn with
  | nil =>
    rw [cuts_nil,List.length_nil,List.length_nil,Nat.zero_add]
    exact (Nat.div_eq_of_lt (Nat.sub_lt hn Nat.one_pos)).symm
  | cut xs hxs ih =>
    have hpos := List.length_pos_iff.mpr hxs
    rw [cuts_of_ne_nil hn hxs,List.length_cons,ih,List.length_drop]
    obtain hlt | hle := Nat.lt_or_ge xs.length n
    · have hzero : xs.length-n+n-1 = n-1 := by omega
      have hsum : xs.length+n-1 = (xs.length-1)+n := by omega
      rw [hzero,hsum,Nat.add_div_right _ hn,Nat.div_eq_of_lt (by omega),Nat.div_eq_of_lt (by omega)]
    · have hsum : xs.length+n-1 = (xs.length-n+n-1)+n := by omega
      rw [hsum,Nat.add_div_right _ hn]

theorem ne_nil_of_mem_cuts (hn : 0 < n) (xs : List α) : ∀ p ∈ cuts n xs, p ≠ [] := by
  induction xs using cuts_induction hn with
  | nil => simp [cuts_nil]
  | cut xs hxs ih =>
    rw [cuts_of_ne_nil hn hxs,List.forall_mem_cons]
    refine ⟨?_,ih⟩
    rw [ne_eq,List.take_eq_nil_iff]
    simp [hn.ne',hxs]

theorem length_le_of_mem_cuts (hn : 0 < n) (xs : List α) : ∀ p ∈ cuts n xs, p.length ≤ n := by
  induction xs using cuts_induction hn with
  | nil => simp [cuts_nil]
  | cut xs hxs ih =>
    rw [cuts_of_ne_nil hn hxs,List.forall_mem_cons]
    exact ⟨List.length_take_le n xs,ih⟩

/-- All pieces but the last are whole. -/
theorem length_of_mem_dropLast_cuts (hn : 0 < n) (xs : List α) : ∀ p ∈ (cuts n xs).dropLast, p.length = n := by
  induction xs using cuts_induction hn with
  | nil => simp [cuts_nil]
  | cut xs hxs ih =>
    rw [cuts_of_ne_nil hn hxs]
    by_cases hrest : xs.drop n = []
    · rw [hrest,cuts_nil]
      exact nofun
    · rw [List.dropLast_cons_of_ne_nil (cuts_ne_nil hn hrest),List.forall_mem_cons]
      refine ⟨?_,ih⟩
      rw [List.drop_eq_nil_iff] at hrest
      rw [List.length_take]
      omega

/-- The pieces, each one with whether it is the last. -/
def marked (f : Bool → α → β) : List α → List β
  | [] => []
  | [x] => [f true x]
  | x::y::xs => f false x::marked f (y::xs)

variable {f : Bool → α → β}

theorem marked_cons {x : α} (hxs : xs ≠ []) : marked f (x::xs) = f false x::marked f xs := by
  cases xs with
  | nil => exact absurd rfl hxs
  | cons y xs => rfl

theorem marked_concat (xs : List α) (x : α) : marked f (xs++[x]) = xs.map (f false)++[f true x] := by
  induction xs with
  | nil => rfl
  | cons y xs ih => rw [List.cons_append,marked_cons (by simp),ih,List.map_cons,List.cons_append]

/-- The piece that is cut off first is the last one where nothing is left. -/
theorem marked_cuts {f : Bool → List α → β} (hn : 0 < n) (hxs : xs ≠ []) :
    marked f (cuts n xs) = f (xs.drop n).isEmpty (xs.take n)::marked f (cuts n (xs.drop n)) := by
  rw [cuts_of_ne_nil hn hxs]
  by_cases hrest : xs.drop n = []
  · rw [hrest,cuts_nil]
    rfl
  · rw [marked_cons (cuts_ne_nil hn hrest),List.isEmpty_eq_false_iff.mpr hrest]

/-- Pieces that are counted are marked where the count is reached. -/
theorem mapIdx_last (f : Bool → α → β) (xs : List α) :
    xs.mapIdx (fun i x => f (i+1 = xs.length) x) = marked f xs := by
  induction xs using List.reverseRecOn with
  | nil => rfl
  | append_singleton xs x _ =>
    rw [marked_concat,List.mapIdx_concat,List.length_append,List.length_singleton]
    congr 1
    · apply List.ext_getElem
      · rw [List.length_mapIdx,List.length_map]
      · intro i hi _
        rw [List.length_mapIdx] at hi
        rw [List.getElem_mapIdx,List.getElem_map,decide_eq_false (by omega)]
    · rw [decide_eq_true rfl]

end Machine
