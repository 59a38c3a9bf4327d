import Mathlib.Data.Int.Log
import Mathlib.Data.NNRat.Floor
import Mathlib.Algebra.Order.WithTop.Untop0
import Mathlib.Tactic.Linarith
import Mathlib.Tactic.Positivity
import Mathlib.Tactic.FieldSimp

/-! Formats of floating-point numbers, by the way they round. Signs are left out here: they are no matter of
rounding to the nearest number. -/
namespace Machine

/-- A format has the numbers that are rounded to themselves, and ⊤ stands for what is too large for it. From a
half on a number has its half. -/
structure FloatFormat where
  round : ℚ≥0 → WithTop ℚ≥0
  mono : Monotone round
  round_round : ∀ {q r : ℚ≥0}, round q = r → round r = r
  zero : round 0 = 0
  one : round 1 = 1
  half : ∀ {q : ℚ≥0}, 1/2 ≤ q → round q = q → round (q/2) = ↑(q/2)

/-- The nearest natural number, and the even one of two. -/
def nearest (x : ℚ≥0) : ℕ :=
  if x < ⌊x⌋₊+1/2 then ⌊x⌋₊
  else if ⌊x⌋₊+1/2 < x then ⌊x⌋₊+1
  else if Even ⌊x⌋₊ then ⌊x⌋₊ else ⌊x⌋₊+1

section Nearest
variable {x y : ℚ≥0} {n : ℕ}

theorem floor_le_nearest (x : ℚ≥0) : ⌊x⌋₊ ≤ nearest x := by
  unfold nearest
  split_ifs <;> omega

theorem nearest_le_succ (x : ℚ≥0) : nearest x ≤ ⌊x⌋₊+1 := by
  unfold nearest
  split_ifs <;> omega

theorem nearest_natCast (n : ℕ) : nearest n = n := by
  have hlt : (n : ℚ≥0) < ⌊(n : ℚ≥0)⌋₊+1/2 := by
    rw [Nat.floor_natCast]
    exact lt_add_of_pos_right _ (by norm_num)
  rw [nearest,if_pos hlt,Nat.floor_natCast]

/-- Where the whole parts are the same, the three cases follow each other. -/
theorem nearest_mono : Monotone nearest := by
  intro x y hxy
  have hfloor : ⌊x⌋₊ ≤ ⌊y⌋₊ := Nat.floor_mono hxy
  obtain hlt | heq := hfloor.lt_or_eq
  · exact (nearest_le_succ x).trans (hlt.trans_le (floor_le_nearest y))
  · unfold nearest
    rw [heq]
    by_cases hbelow : y < ⌊y⌋₊+1/2
    · rw [if_pos (hxy.trans_lt hbelow),if_pos hbelow]
    · rw [if_neg hbelow]
      by_cases habove : ⌊y⌋₊+1/2 < y
      · rw [if_pos habove]
        split_ifs <;> omega
      · rw [if_neg habove]
        have hnot : ¬(⌊y⌋₊ : ℚ≥0)+1/2 < x := fun h => habove (h.trans_le hxy)
        rw [if_neg hnot]
        split_ifs <;> omega

theorem nearest_le (h : x ≤ n) : nearest x ≤ n := (nearest_mono h).trans_eq (nearest_natCast n)

end Nearest

section Binary
variable {precision maxExponent : ℕ} {q r : ℚ≥0} {n : ℕ} {k : ℤ}

/-- The least exponent of a last digit. -/
def leastExponent (precision maxExponent : ℕ) : ℤ := 2-maxExponent-precision

/-- The exponent of the last digit of a number of this size. -/
def lastExponent (precision maxExponent : ℕ) (q : ℚ≥0) : ℤ :=
  max (Int.log 2 q+1-precision) (leastExponent precision maxExponent)

/-- The nearest multiple of a power of two. -/
def nearestMultiple (k : ℤ) (q : ℚ≥0) : ℚ≥0 := nearest (q/2^k)*2^k

/-- Rounded to nearest, ties to even, as a number with so many binary digits. -/
def roundBinary (precision maxExponent : ℕ) (q : ℚ≥0) : WithTop ℚ≥0 :=
  let r := nearestMultiple (lastExponent precision maxExponent q) q
  if r < 2^(maxExponent+1) then r else ⊤

theorem two_zpow_pos (k : ℤ) : (0 : ℚ≥0) < 2^k := zpow_pos (by norm_num) k

theorem nearestMultiple_mono (k : ℤ) : Monotone (nearestMultiple k) := by
  intro q r hqr
  have hdiv : q/2^k ≤ r/2^k := div_le_div_of_nonneg_right hqr (two_zpow_pos k).le
  exact mul_le_mul_of_nonneg_right (by exact_mod_cast nearest_mono hdiv) (two_zpow_pos k).le

theorem nearestMultiple_natCast_mul (k : ℤ) (n : ℕ) : nearestMultiple k (n*2^k) = n*2^k := by
  rw [nearestMultiple,mul_div_cancel_right₀ _ (two_zpow_pos k).ne',nearest_natCast]

theorem nearestMultiple_zero (k : ℤ) : nearestMultiple k 0 = 0 := by
  simpa using nearestMultiple_natCast_mul k 0

/-- A multiple of a larger power is a multiple of a smaller one. -/
theorem natCast_mul_two_zpow {j : ℤ} (h : j ≤ k) (n : ℕ) :
    (n : ℚ≥0)*2^k = (n*2^(k-j).toNat : ℕ)*2^j := by
  have hsplit : k = ((k-j).toNat : ℤ)+j := by omega
  have hpow : (2 : ℚ≥0)^k = 2^(k-j).toNat*2^j := by
    conv_lhs => rw [hsplit]
    rw [zpow_add₀ (by norm_num),zpow_natCast]
  rw [hpow]
  push_cast
  ring

theorem nearestMultiple_of_digits {j : ℤ} (h : j ≤ k) (n : ℕ) : nearestMultiple j (n*2^k) = n*2^k := by
  rw [natCast_mul_two_zpow h,nearestMultiple_natCast_mul]

theorem leastExponent_le_lastExponent (precision maxExponent : ℕ) (q : ℚ≥0) :
    leastExponent precision maxExponent ≤ lastExponent precision maxExponent q := le_max_right _ _

theorem log_le_lastExponent (precision maxExponent : ℕ) (q : ℚ≥0) :
    Int.log 2 q+1-precision ≤ lastExponent precision maxExponent q := le_max_left _ _

/-- A number that needs no further digits has its last one far enough to the left. -/
theorem lastExponent_le (hn : n < 2^precision) (hn0 : n ≠ 0) (hk : leastExponent precision maxExponent ≤ k) :
    lastExponent precision maxExponent (n*2^k) ≤ k := by
  have hpos : (0 : ℚ≥0) < n*2^k := mul_pos (by exact_mod_cast Nat.pos_of_ne_zero hn0) (two_zpow_pos k)
  have hlt : (n : ℚ≥0)*2^k < (2 : ℕ)^(precision+k : ℤ) := by
    rw [zpow_add₀ (by norm_num),zpow_natCast]
    push_cast
    exact mul_lt_mul_of_pos_right (by exact_mod_cast hn) (two_zpow_pos k)
  have hlog : Int.log 2 ((n : ℚ≥0)*2^k) < precision+k := (Int.lt_zpow_iff_log_lt (by norm_num) hpos).mp hlt
  exact max_le (by omega) hk

/-- What has few enough digits is kept. -/
theorem roundBinary_of_digits (hprecision : precision ≠ 0) (hn : n ≤ 2^precision)
    (hk : leastExponent precision maxExponent ≤ k) (hlimit : (n : ℚ≥0)*2^k < 2^(maxExponent+1)) :
    roundBinary precision maxExponent (n*2^k) = ((n*2^k : ℚ≥0) : WithTop ℚ≥0) := by
  have hkept : nearestMultiple (lastExponent precision maxExponent (n*2^k)) (n*2^k) = n*2^k := by
    obtain hlt | rfl := hn.lt_or_eq
    · obtain rfl | hn0 := Nat.eq_zero_or_pos n
      · simpa using nearestMultiple_zero (lastExponent precision maxExponent 0)
      · exact nearestMultiple_of_digits (lastExponent_le hlt hn0.ne' hk) n
    · -- one digit more: the last of them is a zero
      obtain ⟨p,rfl⟩ : ∃ p, precision = p+1 := ⟨precision-1,by omega⟩
      have hcarry : ((2^(p+1) : ℕ) : ℚ≥0)*2^k = (2^p : ℕ)*2^(k+1) := by
        rw [zpow_add_one₀ (by norm_num)]
        push_cast
        ring
      have hlt : 2^p < 2^(p+1) := Nat.pow_lt_pow_right (by norm_num) (by omega)
      rw [hcarry]
      exact nearestMultiple_of_digits (lastExponent_le hlt (by positivity) (by omega)) _
  rw [roundBinary]
  simp only [hkept,if_pos hlimit]

theorem lt_two_zpow_lastExponent (precision maxExponent : ℕ) (q : ℚ≥0) :
    q < (2 : ℚ≥0)^(lastExponent precision maxExponent q+precision) := by
  have hlog : q < ((2 : ℕ) : ℚ≥0)^(Int.log 2 q+1) := Int.lt_zpow_succ_log_self (by norm_num) q
  refine hlog.trans_le ?_
  push_cast
  apply zpow_le_zpow_right₀ (by norm_num)
  have hle := log_le_lastExponent precision maxExponent q
  omega

/-- What a number is rounded to has few enough digits. -/
theorem exists_digits (h : roundBinary precision maxExponent q = r) :
    ∃ n : ℕ, n ≤ 2^precision ∧ r = n*2^(lastExponent precision maxExponent q) ∧ r < 2^(maxExponent+1) := by
  simp only [roundBinary] at h
  split at h
  case isTrue hlimit =>
    obtain rfl := WithTop.coe_injective h
    refine ⟨nearest (q/2^(lastExponent precision maxExponent q)),nearest_le ?_,rfl,hlimit⟩
    rw [div_le_iff₀ (two_zpow_pos _)]
    have hlt := lt_two_zpow_lastExponent precision maxExponent q
    rw [zpow_add₀ (by norm_num),zpow_natCast,mul_comm] at hlt
    push_cast
    exact hlt.le
  case isFalse => cases h

theorem roundBinary_zero (precision maxExponent : ℕ) : roundBinary precision maxExponent 0 = 0 := by
  simp only [roundBinary,nearestMultiple_zero]
  exact if_pos (by positivity)

/-- The first digit of a number has a place of its own, where it is not too small. -/
theorem two_zpow_le_of_lt {j : ℤ} (hr : 0 < r) (hj : j < lastExponent precision maxExponent r)
    (hleast : leastExponent precision maxExponent ≤ j) :
    (2 : ℚ≥0)^(lastExponent precision maxExponent r+precision-1) ≤ r := by
  have hlog : lastExponent precision maxExponent r = Int.log 2 r+1-precision :=
    max_eq_left_of_lt (by
      by_contra hnot
      have heq : lastExponent precision maxExponent r = leastExponent precision maxExponent :=
        max_eq_right (not_lt.mp hnot)
      omega)
  rw [hlog]
  have hle : ((2 : ℕ) : ℚ≥0)^(Int.log 2 r) ≤ r := Int.zpow_log_le_self (by norm_num) hr
  have hexponent : Int.log 2 r+1-precision+precision-1 = Int.log 2 r := by omega
  rw [hexponent]
  exact_mod_cast hle

/-- Between two numbers of different size there is a power of two, which neither is rounded across. -/
theorem nearestMultiple_lastExponent_mono (hprecision : precision ≠ 0) (hqr : q ≤ r) :
    nearestMultiple (lastExponent precision maxExponent q) q ≤
      nearestMultiple (lastExponent precision maxExponent r) r := by
  obtain rfl | hq := eq_zero_or_pos q
  · rw [nearestMultiple_zero]
    exact zero_le
  have hlog : Int.log 2 q ≤ Int.log 2 r := Int.log_mono_right hq hqr
  have hexponent : lastExponent precision maxExponent q ≤ lastExponent precision maxExponent r :=
    max_le_max_right _ (by omega)
  obtain hlt | heq := hexponent.lt_or_eq
  · have hleast := leastExponent_le_lastExponent precision maxExponent q
    have hpower := two_zpow_le_of_lt (hq.trans_le hqr) hlt hleast
    have hbelow := lt_two_zpow_lastExponent precision maxExponent q
    generalize lastExponent precision maxExponent q = j at *
    generalize lastExponent precision maxExponent r = k at *
    have hqpower : q ≤ (1 : ℕ)*(2 : ℚ≥0)^(k+precision-1) := by
      rw [Nat.cast_one,one_mul]
      exact hbelow.le.trans (zpow_le_zpow_right₀ (by norm_num) (by omega))
    have hrpower : (1 : ℕ)*(2 : ℚ≥0)^(k+precision-1) ≤ r := by
      rwa [Nat.cast_one,one_mul]
    calc nearestMultiple j q ≤ nearestMultiple j ((1 : ℕ)*2^(k+precision-1)) := nearestMultiple_mono j hqpower
      _ = (1 : ℕ)*2^(k+precision-1) := nearestMultiple_of_digits (by omega) 1
      _ = nearestMultiple k ((1 : ℕ)*2^(k+precision-1)) := (nearestMultiple_of_digits (by omega) 1).symm
      _ ≤ nearestMultiple k r := nearestMultiple_mono k hrpower
  · rw [heq]
    exact nearestMultiple_mono _ hqr

theorem roundBinary_mono (hprecision : precision ≠ 0) : Monotone (roundBinary precision maxExponent) := by
  intro q r hqr
  have hle : nearestMultiple (lastExponent precision maxExponent q) q ≤
      nearestMultiple (lastExponent precision maxExponent r) r :=
    nearestMultiple_lastExponent_mono hprecision hqr
  simp only [roundBinary]
  by_cases hr : nearestMultiple (lastExponent precision maxExponent r) r < 2^(maxExponent+1)
  · rw [if_pos (hle.trans_lt hr),if_pos hr]
    exact_mod_cast hle
  · rw [if_neg hr]
    exact le_top

theorem roundBinary_roundBinary (hprecision : precision ≠ 0) (h : roundBinary precision maxExponent q = r) :
    roundBinary precision maxExponent r = r := by
  obtain ⟨n,hn,rfl,hlimit⟩ := exists_digits h
  exact roundBinary_of_digits hprecision hn (leastExponent_le_lastExponent _ _ q) hlimit

/-- Half of a number has its digits one place to the right, and there is one from a half on. -/
theorem roundBinary_half (hprecision : precision ≠ 0) (hexponent : 3 ≤ maxExponent) (hq : 1/2 ≤ q)
    (h : roundBinary precision maxExponent q = q) : roundBinary precision maxExponent (q/2) = ↑(q/2) := by
  obtain ⟨n,hn,hdigits,hlimit⟩ := exists_digits h
  have hlog : -1 ≤ Int.log 2 q := by
    have hpos : (0 : ℚ≥0) < 1/2 := by norm_num
    apply (Int.zpow_le_iff_le_log (by norm_num) (hpos.trans_le hq)).mp
    simpa using hq
  have hlast : leastExponent precision maxExponent ≤ lastExponent precision maxExponent q-1 := by
    have hle := log_le_lastExponent precision maxExponent q
    unfold leastExponent
    omega
  have hhalf : q/2 = n*2^(lastExponent precision maxExponent q-1) := by
    rw [zpow_sub_one₀ (by norm_num),← mul_assoc,← hdigits]
    rfl
  rw [hhalf]
  apply roundBinary_of_digits hprecision hn hlast
  rw [← hhalf]
  exact (div_le_self zero_le (by norm_num)).trans_lt hlimit

theorem roundBinary_one (hprecision : precision ≠ 0) (hexponent : 3 ≤ maxExponent) :
    roundBinary precision maxExponent 1 = 1 := by
  have hleast : leastExponent precision maxExponent ≤ 0 := by
    unfold leastExponent
    omega
  have hone : ((1 : ℕ) : ℚ≥0)*2^(0 : ℤ) = 1 := by simp
  have hlimit : ((1 : ℕ) : ℚ≥0)*2^(0 : ℤ) < 2^(maxExponent+1) := by
    rw [hone]
    exact one_lt_pow₀ (by norm_num) (by omega)
  have h := roundBinary_of_digits hprecision Nat.one_le_two_pow hleast hlimit
  rwa [hone] at h

end Binary

namespace FloatFormat
variable {F : FloatFormat} {q : ℚ≥0}

/-- Numbers with this many binary digits, by the largest exponent of the first one. -/
def binary (precision maxExponent : ℕ) (hprecision : precision ≠ 0) (hexponent : 3 ≤ maxExponent) : FloatFormat where
  round := roundBinary precision maxExponent
  mono := roundBinary_mono hprecision
  round_round := roundBinary_roundBinary hprecision
  zero := roundBinary_zero precision maxExponent
  one := roundBinary_one hprecision hexponent
  half := roundBinary_half hprecision hexponent

def binary32 : FloatFormat := binary 24 127 (by decide) (by decide)

def binary64 : FloatFormat := binary 53 1023 (by decide) (by decide)

/-- A number of the format. -/
def Has (F : FloatFormat) (q : ℚ≥0) : Prop := F.round q = q

/-- Too large for the format. -/
def Overflows (F : FloatFormat) (q : ℚ≥0) : Prop := F.round q = ⊤

/-- The number is not rounded, or it is too large. -/
def Exact (F : FloatFormat) (q : ℚ≥0) : Prop := F.Has q ∨ F.Overflows q

instance : Decidable (F.Has q) := inferInstanceAs (Decidable (F.round q = q))

instance : Decidable (F.Overflows q) := inferInstanceAs (Decidable (F.round q = ⊤))

instance : Decidable (F.Exact q) := inferInstanceAs (Decidable (F.Has q ∨ F.Overflows q))

theorem Has.le_of_round {p r : ℚ≥0} (hp : F.Has p) (h : F.round q = r) (hle : p ≤ q) : p ≤ r :=
  WithTop.coe_le_coe.mp (hp.symm.trans_le ((F.mono hle).trans_eq h))

theorem Has.not_overflows (h : F.Has q) : ¬F.Overflows q := fun htop => WithTop.coe_ne_top (h.symm.trans htop)

theorem Overflows.of_le {r : ℚ≥0} (h : F.Overflows q) (hle : q ≤ r) : F.Overflows r :=
  top_le_iff.mp (h.symm.trans_le (F.mono hle))

/-- What is above a number of the format is not below one that is too large. -/
theorem Has.lt_of_overflows {r : ℚ≥0} (h : F.Has q) (hr : F.Overflows r) : q < r :=
  lt_of_not_ge fun hle => h.not_overflows (hr.of_le hle)

theorem Exact.has_of_le {r : ℚ≥0} (h : F.Exact q) (hr : F.Has r) (hle : q ≤ r) : F.Has q :=
  h.resolve_right fun htop => hr.not_overflows (htop.of_le hle)

/-- All numbers below a limit, if there is one. -/
def exact (limit : WithTop ℚ≥0) (hlimit : 1 < limit) : FloatFormat where
  round q := if (q : WithTop ℚ≥0) < limit then q else ⊤
  mono := by
    intro q r hqr
    have hle : (q : WithTop ℚ≥0) ≤ r := WithTop.coe_le_coe.mpr hqr
    dsimp only
    by_cases hr : (r : WithTop ℚ≥0) < limit
    · rw [if_pos (hle.trans_lt hr),if_pos hr]
      exact hle
    · rw [if_neg hr]
      exact le_top
  round_round := by
    intro q r h
    split at h
    case isTrue hq =>
      obtain rfl := WithTop.coe_injective h
      exact if_pos hq
    case isFalse => cases h
  zero := if_pos (zero_lt_one.trans hlimit)
  one := if_pos hlimit
  half := by
    intro q hq h
    have hle : ((q/2 : ℚ≥0) : WithTop ℚ≥0) ≤ q := WithTop.coe_le_coe.mpr (div_le_self zero_le (by norm_num))
    split at h
    case isTrue hlt => exact if_pos (hle.trans_lt hlt)
    case isFalse => cases h

/-- All numbers. -/
def rationals : FloatFormat := exact ⊤ (WithTop.coe_lt_top 1)

theorem has_zero : F.Has 0 := F.zero

theorem has_one : F.Has 1 := F.one

theorem Has.half (h : F.Has q) (hq : 1/2 ≤ q) : F.Has (q/2) := F.half hq h

theorem has_half : F.Has (1/2) := has_one.half (by norm_num)

theorem has_quarter : F.Has (1/4) := by
  have h := F.has_half.half le_rfl
  norm_num at h
  simpa using h

/-- A format with more digits and a larger range has all the numbers. -/
theorem binary_has {p e p' e' : ℕ} {hp : p ≠ 0} {he : 3 ≤ e} {hp' : p' ≠ 0} {he' : 3 ≤ e'} (hdigits : p ≤ p')
    (hrange : e ≤ e') (h : (binary p e hp he).Has q) : (binary p' e' hp' he').Has q := by
  obtain ⟨n,hn,hq,hlimit⟩ := exists_digits h
  have hleast := leastExponent_le_lastExponent p e q
  have hn' : n ≤ 2^p' := hn.trans (Nat.pow_le_pow_right (by norm_num) hdigits)
  have hleast' : leastExponent p' e' ≤ lastExponent p e q := by
    unfold leastExponent at hleast ⊢
    omega
  have hlimit' : q < 2^(e'+1) := hlimit.trans_le (pow_le_pow_right₀ (by norm_num) (by omega))
  have hkept : roundBinary p' e' (n*2^lastExponent p e q) = ((n*2^lastExponent p e q : ℚ≥0) : WithTop ℚ≥0) :=
    roundBinary_of_digits hp' hn' hleast' (by rwa [← hq])
  rwa [← hq] at hkept

theorem binary64_has (h : binary32.Has q) : binary64.Has q := binary_has (by norm_num) (by norm_num) h

section Limit
variable {limit : WithTop ℚ≥0} {hlimit : 1 < limit}

theorem exact_has (h : (q : WithTop ℚ≥0) < limit) : (exact limit hlimit).Has q := if_pos h

theorem exact_exact (q : ℚ≥0) : (exact limit hlimit).Exact q := by
  by_cases h : (q : WithTop ℚ≥0) < limit
  · exact .inl (exact_has h)
  · exact .inr (if_neg h)

end Limit

end FloatFormat

end Machine
