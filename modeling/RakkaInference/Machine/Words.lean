import Mathlib.Data.Int.DivMod
import Mathlib.Tactic.Ring

/-! Casts between machine words and saturating word arithmetic, on the integers
the words stand for. A cast keeps the low bits; a saturating operation clamps. -/
namespace Machine

/-- The cast `as u64` of a non-negative integer. -/
def asU64 (n : ℕ) : ℕ := n % 2^64

/-- The cast `as u32` of a non-negative integer. -/
def asU32 (n : ℕ) : ℕ := n % 2^32

/-- The cast `as u64` of a signed integer. -/
def asU64OfInt (z : ℤ) : ℕ := (z % 2^64).toNat

/-- The cast `as i64`, in two's complement. -/
def asI64 (n : ℕ) : ℤ := Int.bmod n (2^64)

/-- The cast `as i32`, in two's complement. -/
def asI32 (n : ℕ) : ℤ := Int.bmod n (2^32)

def i64SaturatingSub (a b : ℤ) : ℤ := max (-2^63) (min (2^63-1) (a-b))

def u64SaturatingAdd (a b : ℕ) : ℕ := min (2^64-1) (a+b)

theorem asU64_lt (n : ℕ) : asU64 n < 2^64 := Nat.mod_lt _ (by decide)

theorem asU64_of_lt {n : ℕ} (h : n < 2^64) : asU64 n = n := Nat.mod_eq_of_lt h

theorem asU32_of_lt {n : ℕ} (h : n < 2^32) : asU32 n = n := Nat.mod_eq_of_lt h

theorem asU32_le (n : ℕ) : asU32 n ≤ n := Nat.mod_le n (2^32)

/-- A counter of one word counts on as the unbounded one does. -/
theorem asU32_succ (n : ℕ) : asU32 (asU32 n+1) = asU32 (n+1) := Nat.mod_add_mod n (2^32) 1

/-- A clock that is read through a cast never seems to advance by more than it did. -/
theorem asU64_sub_le {s t : ℕ} (h : s ≤ t) : asU64 t - asU64 s ≤ t - s := by
  unfold asU64
  omega

theorem asI32_eq (n : ℕ) : asI32 n =
    if (n : ℤ)%4294967296 < 2147483648 then (n : ℤ)%4294967296 else (n : ℤ)%4294967296-4294967296 :=
  Int.bmod_def n (2^32)

theorem asI32_of_lt {n : ℕ} (h : n < 2^31) : asI32 n = n := by
  rw [asI32_eq]
  split <;> omega

/-- From half of the word on the cast is negative. -/
theorem asI32_of_ge {n : ℕ} (h : 2^31 ≤ n) (hn : n < 2^32) : asI32 n = (n : ℤ)-2^32 := by
  rw [asI32_eq]
  split <;> omega

/-- A clock read through a cast stays within `D` of `o` for a whole period of length `D`
only if the period is empty, or fits the word and begins with a reading of at most `o`. -/
theorem asU64_window_iff {x o D : ℕ} (ho : 0 < asU64 D → o+asU64 D < 2^64) :
    (∀ k < D, asU64 (x+k)-o < asU64 D) ↔ D = 0 ∨ D < 2^64 ∧ asU64 x ≤ o := by
  unfold asU64 at *
  constructor
  · intro h
    by_cases hD : D = 0
    · exact .inl hD
    have h0 := h 0 (by omega)
    -- the first moment at which the reading is exactly `o+D` lies in the period
    have hk := h ((o+D%2^64+2^64-x%2^64)%2^64)
    refine .inr ⟨?_,?_⟩
    · by_contra hM
      have := hk (by omega)
      omega
    · by_contra hx
      have := hk (by omega)
      omega
  · rintro (rfl | ⟨hD,hx⟩) k hk
    · omega
    · have := ho (by omega)
      omega

end Machine
