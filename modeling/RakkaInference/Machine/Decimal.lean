import Mathlib.Algebra.Ring.Nat
import Mathlib.Data.List.Basic

/-! Unsigned words in decimal, written and read back. -/
namespace Machine
variable {w n : ℕ}

def decimal (n : ℕ) : List Char := Nat.toDigits 10 n

/-- Digits, after a plus sign or none, of a number that fits into the word. -/
def parseUnsigned (w : ℕ) (s : List Char) : Option ℕ :=
  let digits := if s.head? = some '+' then s.tail else s
  if digits = [] ∨ ¬digits.all Char.isDigit then none
  else
    let n := Nat.ofDigitChars 10 digits 0
    if n < 2^w then some n else none

theorem parseUnsigned_lt {s : List Char} (h : parseUnsigned w s = some n) : n < 2^w := by
  unfold parseUnsigned at h
  dsimp only at h
  generalize (if s.head? = some '+' then s.tail else s) = digits at h
  split at h
  case isTrue => cases h
  case isFalse =>
    split at h
    case isTrue hlt =>
      rw [← Option.some.inj h]
      exact hlt
    case isFalse => cases h

theorem isDigit_of_mem_decimal {c : Char} (h : c ∈ decimal n) : c.isDigit = true :=
  Nat.isDigit_of_mem_toDigits (by omega) (Nat.le_refl _) h

theorem not_mem_decimal {c : Char} (h : c.isDigit = false) : c ∉ decimal n := by
  intro hc
  rw [isDigit_of_mem_decimal hc] at h
  contradiction

theorem parseUnsigned_decimal (h : n < 2^w) : parseUnsigned w (decimal n) = some n := by
  have hne : decimal n ≠ [] := Nat.toDigits_ne_nil
  have hplus : (decimal n).head? ≠ some '+' := by
    intro hhead
    exact not_mem_decimal rfl (List.mem_of_head? hhead)
  have hall : (decimal n).all Char.isDigit = true := List.all_eq_true.mpr fun c hc => isDigit_of_mem_decimal hc
  have hval : Nat.ofDigitChars 10 (decimal n) 0 = n := Nat.ofDigitChars_ten_toDigits
  simp only [parseUnsigned,if_neg hplus,hne,hall,hval,not_true,or_self,if_false,if_pos h]

end Machine
