import Mathlib.Algebra.Ring.Nat
import Mathlib.Data.List.DropRight

/-! A cell whose value is built when it is first asked for, and that is cleared now and then. -/
namespace Machine
variable {μ ε : Type*}

/-- What is in the cell then, and what the caller gets. -/
def getOrTryInit (cell : Option μ) (built : Except ε μ) : Option μ × Except ε μ :=
  match cell,built with
  | some m,_ => (some m,.ok m)
  | none,.ok m => (some m,.ok m)
  | none,.error e => (none,.error e)

/-- A use of the cell. It is asked for its value, with what building it would give, or cleared, or left alone. -/
inductive CellUse (ε μ : Type*)
  | ask (built : Except ε μ)
  | clear
  | leave

namespace CellUse

def after (cell : Option μ) : CellUse ε μ → Option μ
  | ask built => (getOrTryInit cell built).1
  | clear => none
  | leave => cell

/-- What a use would put into an empty cell. -/
def offered : CellUse ε μ → Option μ
  | ask (.ok m) => some m
  | _ => none

/-- What is built in a use. -/
def builds (cell : Option μ) (u : CellUse ε μ) : List μ := if cell.isNone then u.offered.toList else []

def keeps : CellUse ε μ → Bool
  | clear => false
  | _ => true

end CellUse

open CellUse
variable {us : List (CellUse ε μ)}

def cellAfter (us : List (CellUse ε μ)) : Option μ := us.foldl after none

/-- The uses since the cell was cleared last. -/
def sinceClear (us : List (CellUse ε μ)) : List (CellUse ε μ) := us.rtakeWhile keeps

theorem cellAfter_concat (us : List (CellUse ε μ)) (u : CellUse ε μ) :
    cellAfter (us++[u]) = u.after (cellAfter us) := by
  rw [cellAfter,List.foldl_append]
  rfl

theorem sinceClear_concat (us : List (CellUse ε μ)) (u : CellUse ε μ) :
    sinceClear (us++[u]) = if u.keeps then sinceClear us++[u] else [] := List.rtakeWhile_concat _ _ _

/-- The value is the first one that was built since the cell was cleared last. -/
theorem cellAfter_eq (us : List (CellUse ε μ)) : cellAfter us = (sinceClear us).findSome? offered := by
  induction us using List.reverseRecOn with
  | nil => rfl
  | append_singleton us u ih =>
    rw [cellAfter_concat,ih,sinceClear_concat]
    cases u with
    | clear => rfl
    | leave =>
      simp only [keeps,if_true,List.findSome?_append]
      exact Option.or_none.symm
    | ask built =>
      simp only [keeps,if_true,List.findSome?_append]
      cases (sinceClear us).findSome? offered with
      | some m => rfl
      | none =>
        cases built with
        | ok m => rfl
        | error e => rfl

theorem getOrTryInit_snd (cell : Option μ) (built : Except ε μ) :
    (getOrTryInit cell built).2 = cell.elim built .ok := by
  cases cell with
  | some m => rfl
  | none =>
    cases built with
    | ok m => rfl
    | error e => rfl

/-- All that is built. -/
def allBuilt : Option μ → List (CellUse ε μ) → List μ
  | _, [] => []
  | cell, u::us => u.builds cell++allBuilt (u.after cell) us

theorem length_builds_add (cell : Option μ) (u : CellUse ε μ) :
    (u.builds cell).length+(if (u.after cell).isSome then 0 else 1) ≤
      (if cell.isSome then 0 else 1)+(if u.keeps then 0 else 1) := by
  cases u with
  | clear => cases cell <;> simp [builds,after,offered,keeps]
  | leave => cases cell <;> simp [builds,after,offered,keeps]
  | ask built => cases cell <;> cases built <;> simp [builds,after,offered,keeps,getOrTryInit]

/-- A value is built once at most for each time that the cell is cleared, and once before. -/
theorem length_allBuilt_le (us : List (CellUse ε μ)) (cell : Option μ) :
    (allBuilt cell us).length ≤ (if cell.isSome then 0 else 1)+us.countP fun u => !u.keeps := by
  induction us generalizing cell with
  | nil => exact Nat.zero_le _
  | cons u us ih =>
    have hstep := length_builds_add cell u
    have hrest := ih (u.after cell)
    rw [allBuilt,List.length_append,List.countP_cons]
    cases hu : u.keeps with
    | true => simp only [hu,if_true,Bool.not_true,Bool.false_eq_true,if_false] at hstep ⊢; omega
    | false => simp only [hu,if_true,Bool.not_false,Bool.false_eq_true,if_false] at hstep ⊢; omega

end Machine
