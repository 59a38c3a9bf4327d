import RakkaInference.Machine.Rounding

/-! Floating-point numbers with signs, infinities and NaN. An operation rounds its exact result once. -/
namespace Machine

/-- A number of a format. Zero has a sign too. -/
structure FiniteFloat (F : FloatFormat) where
  negative : Bool
  magnitude : ℚ≥0
  held : F.Has magnitude
  deriving DecidableEq

inductive Floating (F : FloatFormat)
  | nan
  | infinite (negative : Bool)
  | finite (x : FiniteFloat F)
  deriving DecidableEq

abbrev F32 : Type := Floating .binary32

abbrev F64 : Type := Floating .binary64

variable {F G : FloatFormat}

def FiniteFloat.value (x : FiniteFloat F) : ℚ := if x.negative then -(x.magnitude : ℚ) else x.magnitude

/-- The same number in a format that has more of them. -/
def FiniteFloat.widen (h : ∀ q, F.Has q → G.Has q) (x : FiniteFloat F) : FiniteFloat G :=
  ⟨x.negative,x.magnitude,h _ x.held⟩

namespace Floating

/-- The number of this sign and size, rounded. -/
def rounded (negative : Bool) (q : ℚ≥0) : Floating F :=
  match h : F.round q with
  | none => .infinite negative
  | some r => .finite ⟨negative,r,F.round_round h⟩

def ofInt (n : ℤ) : Floating F := rounded (decide (n < 0)) n.natAbs

instance : NatCast (Floating F) := ⟨fun n => rounded false n⟩

instance (n : ℕ) : OfNat (Floating F) n := ⟨(n : Floating F)⟩

instance : OfScientific (Floating F) := ⟨fun m s e => rounded false (OfScientific.ofScientific m s e : ℚ≥0)⟩

protected def mul : Floating F → Floating F → Floating F
  | .nan, _ | _, .nan => .nan
  | .infinite s, .infinite t => .infinite (s ^^ t)
  | .infinite s, .finite y => if y.magnitude = 0 then .nan else .infinite (s ^^ y.negative)
  | .finite x, .infinite t => if x.magnitude = 0 then .nan else .infinite (x.negative ^^ t)
  | .finite x, .finite y => rounded (x.negative ^^ y.negative) (x.magnitude*y.magnitude)

protected def div : Floating F → Floating F → Floating F
  | .nan, _ | _, .nan => .nan
  | .infinite _, .infinite _ => .nan
  | .infinite s, .finite y => .infinite (s ^^ y.negative)
  | .finite x, .infinite t => rounded (x.negative ^^ t) 0
  | .finite x, .finite y =>
    if y.magnitude = 0 then if x.magnitude = 0 then .nan else .infinite (x.negative ^^ y.negative)
    else rounded (x.negative ^^ y.negative) (x.magnitude/y.magnitude)

/-- A sum of zero is negative only if both numbers are. -/
protected def add : Floating F → Floating F → Floating F
  | .nan, _ | _, .nan => .nan
  | .infinite s, .infinite t => if s = t then .infinite s else .nan
  | .infinite s, .finite _ => .infinite s
  | .finite _, .infinite t => .infinite t
  | .finite x, .finite y =>
    let sum := x.value+y.value
    if sum = 0 then rounded (x.negative && y.negative) 0 else rounded (decide (sum < 0)) sum.nnabs

instance : Mul (Floating F) := ⟨Floating.mul⟩

instance : Div (Floating F) := ⟨Floating.div⟩

instance : Add (Floating F) := ⟨Floating.add⟩

/-- NaN is neither below a number nor above one. -/
protected def Less : Floating F → Floating F → Prop
  | .nan, _ | _, .nan => False
  | .infinite s, .infinite t => s = true ∧ t = false
  | .infinite s, .finite _ => s = true
  | .finite _, .infinite t => t = false
  | .finite x, .finite y => x.value < y.value

instance : LT (Floating F) := ⟨Floating.Less⟩

instance (x y : Floating F) : Decidable (x < y) :=
  match x, y with
  | .nan, _ => isFalse id
  | .infinite _, .nan | .finite _, .nan => isFalse id
  | .infinite s, .infinite t => inferInstanceAs (Decidable (s = true ∧ t = false))
  | .infinite s, .finite _ => inferInstanceAs (Decidable (s = true))
  | .finite _, .infinite t => inferInstanceAs (Decidable (t = false))
  | .finite x, .finite y => inferInstanceAs (Decidable (x.value < y.value))

/-- A NaN is passed over. -/
instance : Min (Floating F) where
  min
    | .nan, y => y
    | x, .nan => x
    | x, y => if y < x then y else x

instance : Max (Floating F) where
  max
    | .nan, y => y
    | x, .nan => x
    | x, y => if x < y then y else x

/-- The cast to an unsigned word: truncated, clamped at both ends, and zero for a NaN. -/
def asUnsigned (w : ℕ) : Floating F → ℕ
  | .nan => 0
  | .infinite s => if s then 0 else 2^w-1
  | .finite x => if x.negative then 0 else min (2^w-1) ⌊x.magnitude⌋₊

/-- The bits of the exponent from the lowest on, of which there are so many. -/
def powLoop : ℕ → Floating F → Floating F → ℕ → Floating F
  | 0, r, _, _ => r
  | bits+1, r, a, b =>
    let r := if b%2 = 1 then r*a else r
    if b/2 = 0 then r else powLoop bits r (a*a) (b/2)

/-- The power with a signed word of 32 bits. -/
def powi (a : Floating F) (b : ℤ) : Floating F :=
  let r := powLoop 32 1 a b.natAbs
  if b < 0 then 1/r else r

def IsFinite (x : Floating F) : Prop := ∃ y, x = .finite y

/-- The value of a number that is not negative. -/
def toNNRat : Floating F → ℚ≥0
  | .finite ⟨false,q,_⟩ => q
  | _ => 0

/-- This number, with a positive sign. -/
def Is (x : Floating F) (q : ℚ≥0) : Prop := ∃ h, x = .finite ⟨false,q,h⟩

section Numbers
variable {x y : Floating F} {a b q r : ℚ≥0} {n : ℕ}

theorem rounded_eq {s : Bool} (h : F.round q = r) : rounded s q = .finite ⟨s,r,F.round_round h⟩ := by
  unfold rounded
  split
  · rename_i hnone
    cases h.symm.trans hnone
  · rename_i hsome
    obtain rfl := WithTop.coe_injective (h.symm.trans hsome)
    rfl

theorem rounded_self (x : FiniteFloat F) : rounded x.negative x.magnitude = .finite x := rounded_eq x.held

theorem is_rounded (h : F.round q = r) : (rounded false q : Floating F).Is r := ⟨F.round_round h,rounded_eq h⟩

theorem rounded_of_overflows {s : Bool} (h : F.Overflows q) : (rounded s q : Floating F) = .infinite s := by
  unfold rounded
  split
  · rfl
  · rename_i hsome
    cases h.symm.trans hsome

theorem Is.held (h : x.Is q) : F.Has q := h.choose

theorem Is.eq_rounded (h : x.Is q) : x = rounded false q := by
  obtain ⟨hq,rfl⟩ := h
  obtain ⟨_,heq⟩ := is_rounded hq
  exact heq.symm

theorem is_toNNRat (h : x.toNNRat ≠ 0) : x.Is x.toNNRat := by
  cases x with
  | nan => exact absurd rfl h
  | infinite s => exact absurd rfl h
  | finite x =>
    obtain ⟨s,q,hq⟩ := x
    cases s with
    | false => exact ⟨hq,rfl⟩
    | true => exact absurd rfl h

/-- What is not above a number is not rounded above it. -/
theorem is_rounded_of_le (h : q ≤ r) (hr : F.Has r) :
    ∃ s ≤ r, F.round q = s ∧ (rounded false q : Floating F).Is s := by
  have hle : F.round q ≤ r := (F.mono h).trans_eq hr
  obtain ⟨s,hs,hsr⟩ := WithTop.le_coe_iff.mp hle
  exact ⟨s,hsr,hs,is_rounded hs⟩

theorem is_natCast (h : F.Has n) : (n : Floating F).Is n := is_rounded h

theorem is_zero : (0 : Floating F).Is 0 := by
  have h : F.round (0 : ℕ) = (0 : ℚ≥0) := by
    rw [Nat.cast_zero]
    exact F.zero
  exact is_rounded h

theorem is_one : (1 : Floating F).Is 1 := by
  have h : F.round (1 : ℕ) = (1 : ℚ≥0) := by
    rw [Nat.cast_one]
    exact F.one
  exact is_rounded h

theorem Is.mul (hx : x.Is a) (hy : y.Is b) : x*y = rounded false (a*b) := by
  obtain ⟨ha,rfl⟩ := hx
  obtain ⟨hb,rfl⟩ := hy
  rfl

theorem Is.div (hx : x.Is a) (hy : y.Is b) (hne : b ≠ 0) : x/y = rounded false (a/b) := by
  obtain ⟨ha,rfl⟩ := hx
  obtain ⟨hb,rfl⟩ := hy
  exact if_neg hne

theorem Is.add (hx : x.Is a) (hy : y.Is b) : x+y = rounded false (a+b) := by
  obtain ⟨ha,rfl⟩ := hx
  obtain ⟨hb,rfl⟩ := hy
  have hsum : ((a : ℚ)+b).nnabs = a+b := by
    apply NNRat.coe_injective
    rw [Rat.coe_nnabs,abs_of_nonneg (by positivity)]
    exact (NNRat.coe_add a b).symm
  change (if (a : ℚ)+b = 0 then _ else rounded (decide ((a : ℚ)+b < 0)) ((a : ℚ)+b).nnabs) = _
  split
  case isTrue hzero =>
    have hab : a+b = 0 := by exact_mod_cast hzero
    rw [hab]
    rfl
  case isFalse =>
    have hnot : ¬(a : ℚ)+b < 0 := not_lt_of_ge (by positivity)
    rw [hsum,decide_eq_false hnot]

theorem Is.lt_iff (hx : x.Is a) (hy : y.Is b) : x < y ↔ a < b := by
  obtain ⟨ha,rfl⟩ := hx
  obtain ⟨hb,rfl⟩ := hy
  exact NNRat.coe_lt_coe

theorem Is.min (hx : x.Is a) (hy : y.Is b) : (min x y).Is (min a b) := by
  have hmin : Min.min x y = if y < x then y else x := by
    obtain ⟨ha,rfl⟩ := hx
    obtain ⟨hb,rfl⟩ := hy
    rfl
  rw [hmin]
  by_cases hlt : b < a
  · rw [if_pos ((hy.lt_iff hx).mpr hlt),min_eq_right hlt.le]
    exact hy
  · rw [if_neg fun h => hlt ((hy.lt_iff hx).mp h),min_eq_left (not_lt.mp hlt)]
    exact hx

theorem Is.max_zero (hx : x.Is a) : max x 0 = x := by
  have hmax : Max.max x 0 = if x < 0 then 0 else x := by
    obtain ⟨ha,rfl⟩ := hx
    obtain ⟨hzero,heq⟩ := is_zero (F := F)
    rw [heq]
    rfl
  rw [hmax,if_neg fun h => not_lt_zero ((hx.lt_iff is_zero).mp h)]

theorem Is.asUnsigned {w : ℕ} (hx : x.Is a) : x.asUnsigned w = Min.min (2^w-1) ⌊a⌋₊ := by
  obtain ⟨ha,rfl⟩ := hx
  rfl

theorem nan_min (y : Floating F) : Min.min .nan y = y := rfl

theorem Is.infinite_min (hy : y.Is b) : Min.min (.infinite false) y = y := by
  obtain ⟨hb,rfl⟩ := hy
  rfl

theorem Is.zero_mul_infinite (hx : x.Is 0) : x*.infinite false = .nan := by
  obtain ⟨h,rfl⟩ := hx
  rfl

theorem Is.infinite_mul (hy : y.Is b) (hne : b ≠ 0) : .infinite false*y = (.infinite false : Floating F) := by
  obtain ⟨hb,rfl⟩ := hy
  exact if_neg hne

theorem Is.mul_infinite (hx : x.Is a) (hne : a ≠ 0) : x*.infinite false = .infinite false := by
  obtain ⟨ha,rfl⟩ := hx
  exact if_neg hne

theorem Is.div_infinite (hx : x.Is a) : x/.infinite false = 0 := by
  obtain ⟨ha,rfl⟩ := hx
  change rounded false 0 = (0 : Floating F)
  exact is_zero.eq_rounded.symm

end Numbers

section Powers
variable {x : Floating F} {m : ℚ≥0} {n i s b bits : ℕ}

/-- A power that is too large stays so in a product of powers. -/
theorem power_mul (hm : 1 ≤ m) (hexact : ∀ j ≤ n, F.Exact (m^j)) (h : i+s ≤ n) :
    (rounded false (m^i)*rounded false (m^s) : Floating F) = rounded false (m^(i+s)) := by
  have hne (j : ℕ) : m^j ≠ 0 := (one_pos.trans_le (one_le_pow₀ hm)).ne'
  obtain hi | hi := hexact i (by omega)
  · obtain hs | hs := hexact s (by omega)
    · rw [(is_rounded hi).mul (is_rounded hs),pow_add]
    · rw [rounded_of_overflows hs,rounded_of_overflows (hs.of_le (pow_le_pow_right₀ hm (Nat.le_add_left s i)))]
      exact (is_rounded hi).mul_infinite (hne i)
  · rw [rounded_of_overflows hi,rounded_of_overflows (hi.of_le (pow_le_pow_right₀ hm (Nat.le_add_right i s)))]
    obtain hs | hs := hexact s (by omega)
    · exact (is_rounded hs).infinite_mul (hne s)
    · rw [rounded_of_overflows hs]
      rfl

/-- The invariant of the loop: what has been collected, times the power that is left. -/
theorem powLoop_power (hm : 1 ≤ m) (hexact : ∀ j ≤ n, F.Exact (m^j)) (hb : b < 2^bits) (h : i+s*b ≤ n) :
    (powLoop bits (rounded false (m^i)) (rounded false (m^s)) b : Floating F) = rounded false (m^(i+s*b)) := by
  induction bits generalizing i s b with
  | zero =>
    obtain rfl : b = 0 := by omega
    rfl
  | succ bits ih =>
    have hsplit : s*b = s*(b%2)+(s+s)*(b/2) := by
      conv_lhs => rw [← Nat.mod_add_div b 2]
      ring
    have hcollected :
        (if b%2 = 1 then rounded false (m^i)*rounded false (m^s) else rounded false (m^i) : Floating F) =
        rounded false (m^(i+s*(b%2))) := by
      obtain hbit | hbit := Nat.mod_two_eq_zero_or_one b
      · rw [hbit]
        rfl
      · rw [hbit,if_pos rfl,mul_one]
        rw [hbit] at hsplit
        exact power_mul hm hexact (by omega)
    rw [powLoop]
    simp only [hcollected]
    by_cases hlast : b/2 = 0
    · rw [if_pos hlast,hsplit,hlast,mul_zero,add_zero]
    · have hdouble : s+s ≤ (s+s)*(b/2) := Nat.le_mul_of_pos_right _ (Nat.pos_of_ne_zero hlast)
      rw [if_neg hlast,power_mul hm hexact (by omega : s+s ≤ n),ih (by omega) (by omega),hsplit,add_assoc]

theorem Is.powLoop (hx : x.Is m) (hm : 1 ≤ m) (hexact : ∀ j ≤ n, F.Exact (m^j)) (hn : n < 2^32) :
    powLoop 32 1 x n = rounded false (m^n) := by
  have h := powLoop_power (F := F) (i := 0) (s := 1) hm hexact hn (by omega)
  rwa [pow_zero,pow_one,← is_one.eq_rounded,← hx.eq_rounded,zero_add,one_mul] at h

end Powers

end Floating

end Machine
