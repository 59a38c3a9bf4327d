import Mathlib.Algebra.Order.Floor.Semifield
import Mathlib.Data.Nat.Cast.Order.Field
import RakkaInference.Remote.Backoff

/-! The delays of a policy against the exact power that they are taken from. They are not those of the power where
the number of the attempt becomes a negative exponent, where the power is too large for its format, and where the
first delay is not in whole milliseconds. -/
namespace RakkaInference
open Machine Floating

variable {F : FloatFormat} {policy : BackoffPolicy F} {attempt earlier : ℕ}

namespace BackoffPolicy

def factor (policy : BackoffPolicy F) : ℚ≥0 := policy.multiplier.toNNRat

/-- The power of the first delay, in milliseconds. -/
def powerMs (policy : BackoffPolicy F) (attempt : ℕ) : ℚ≥0 := policy.initial/1000000*policy.factor^attempt

/-- The same for the whole milliseconds of the first delay. -/
def wholeMs (policy : BackoffPolicy F) (attempt : ℕ) : ℚ≥0 := Duration.asMillis policy.initial*policy.factor^attempt

/-- The power with its cap. -/
def exactMs (policy : BackoffPolicy F) (attempt : ℕ) : ℚ≥0 := min (policy.powerMs attempt) (policy.max/1000000)

/-- The delay in whole milliseconds, with a jitter of this kind. -/
def delayMs (policy : BackoffPolicy F) (jitter : JitterKind) (attempt : ℕ) : ℕ :=
  Duration.asMillis (computeBackoff { policy with jitter } attempt)

end BackoffPolicy

/-- The delays are capped, and without jitter they are those of the power and grow. Jitter takes
at most half of the delay away, or any part of it. -/
structure BackoffLaw (policy : BackoffPolicy F) (attempt : ℕ) : Prop where
  whole : ∀ jitter, computeBackoff { policy with jitter } attempt =
    Duration.fromMillis (policy.delayMs jitter attempt)
  capped : ∀ jitter, policy.delayMs jitter attempt ≤ Duration.asMillis policy.max
  exact : policy.delayMs .none attempt = ⌊policy.exactMs attempt⌋₊
  grows : ∀ earlier ≤ attempt, policy.delayMs .none earlier ≤ policy.delayMs .none attempt
  equal : policy.delayMs .none attempt/2 ≤ policy.delayMs .equal attempt ∧
    policy.delayMs .equal attempt ≤ policy.delayMs .none attempt
  full : policy.delayMs .full attempt ≤ policy.delayMs .none attempt

namespace BackoffPolicy

/-- The numbers of the calls up to this one are not rounded, but for those of the jitter, and the format has
the words. -/
structure Unrounded (policy : BackoffPolicy F) (attempt : ℕ) : Prop where
  initial : F.Has (Duration.asMillis policy.initial)
  max : F.Has (Duration.asMillis policy.max)
  random : F.Has 10000
  words : F.Has (2^64*1000000)
  power : ∀ earlier ≤ attempt, ∀ k ≤ (asI32 earlier).natAbs, F.Exact (policy.factor^k)
  inverse : ∀ earlier ≤ attempt, F.Exact (policy.factor^asI32 earlier)
  product : ∀ earlier ≤ attempt, F.Exact (Duration.asMillis policy.initial*policy.factor^asI32 earlier)

/-- The same with the exponent that a late attempt gets. -/
def lateMs (policy : BackoffPolicy F) (attempt : ℕ) : ℚ≥0 :=
  Duration.asMillis policy.initial*policy.factor^((attempt : ℤ)-2^32)

/-- While the number of the attempt is an exponent as it is, the cap is reached by whole milliseconds, or the rest
of the first delay makes no difference; and a first delay of zero has no power that is too large. From then on the
exponent is negative, and must not matter. The delay is a word. -/
structure InRange (policy : BackoffPolicy F) (attempt : ℕ) : Prop where
  word : policy.exactMs attempt < 2^64
  early : attempt < 2^31 → Duration.asMillis policy.max ≤ policy.wholeMs attempt ∨
    ¬F.Overflows (policy.factor^attempt) ∧ ⌊policy.wholeMs attempt⌋₊ = ⌊policy.powerMs attempt⌋₊ ∨
    F.Overflows (policy.factor^attempt) ∧ policy.initial ≠ 0
  late : 2^31 ≤ attempt → policy.factor = 1 ∨ Duration.asMillis policy.max ≤ policy.lateMs attempt ∨
    policy.powerMs attempt < 1 ∧ ¬F.Overflows (policy.factor^(2^31-1))

/-- The power with its cap, as it is computed. -/
def capped (policy : BackoffPolicy F) (attempt : ℕ) : Floating F :=
  Min.min (Duration.asMillis policy.initial*policy.multiplier.powi (asI32 attempt))
    (Duration.asMillis policy.max : Floating F)

theorem Unrounded.of_le (h : policy.Unrounded attempt) (hle : earlier ≤ attempt) : policy.Unrounded earlier where
  initial := h.initial
  max := h.max
  random := h.random
  words := h.words
  power := fun e he => h.power e (he.trans hle)
  inverse := fun e he => h.inverse e (he.trans hle)
  product := fun e he => h.product e (he.trans hle)

/-- Exact numbers are never rounded. -/
theorem unrounded_exact {limit : WithTop ℚ≥0} {hlimit : 1 < limit} (policy : BackoffPolicy (.exact limit hlimit))
    (hwords : ((2^64*1000000 : ℚ≥0) : WithTop ℚ≥0) < limit)
    (hinitial : ((Duration.asMillis policy.initial : ℚ≥0) : WithTop ℚ≥0) < limit)
    (hmax : ((Duration.asMillis policy.max : ℚ≥0) : WithTop ℚ≥0) < limit) (attempt : ℕ) :
    policy.Unrounded attempt where
  initial := FloatFormat.exact_has hinitial
  max := FloatFormat.exact_has hmax
  random := FloatFormat.exact_has (lt_trans (WithTop.coe_lt_coe.mpr (by norm_num)) hwords)
  words := FloatFormat.exact_has hwords
  power := fun _ _ _ _ => FloatFormat.exact_exact _
  inverse := fun _ _ => FloatFormat.exact_exact _
  product := fun _ _ => FloatFormat.exact_exact _

theorem is_multiplier (hm : 1 ≤ policy.factor) : policy.multiplier.Is policy.factor :=
  is_toNNRat (one_pos.trans_le hm).ne'

/-- As long as the exponent is the number of the attempt. -/
theorem powi_early (hm : 1 ≤ policy.factor) (h : policy.Unrounded attempt) (hearly : attempt < 2^31) :
    policy.multiplier.powi (asI32 attempt) = rounded false (policy.factor^attempt) := by
  have hpower := h.power attempt le_rfl
  rw [asI32_of_lt hearly,Int.natAbs_natCast] at hpower
  rw [asI32_of_lt hearly,powi,Int.natAbs_natCast,if_neg (by omega)]
  exact (is_multiplier hm).powLoop hm hpower (by omega)

/-- A negative exponent has the inverse of a power, which is zero if the power is too large. -/
theorem powi_late (hm : 1 ≤ policy.factor) (h : policy.Unrounded attempt) (hlate : 2^31 ≤ attempt)
    (hword : attempt < 2^32) :
    (policy.multiplier.powi (asI32 attempt)).Is
      (if F.Overflows (policy.factor^(2^32-attempt)) then 0 else policy.factor^((attempt : ℤ)-2^32)) := by
  have hpower := h.power attempt le_rfl
  have hinverse := h.inverse attempt le_rfl
  have habs : ((attempt : ℤ)-2^32).natAbs = 2^32-attempt := by omega
  rw [asI32_of_ge hlate hword] at hpower hinverse ⊢
  rw [habs] at hpower
  rw [powi,habs,if_pos (by omega)]
  simp only [(is_multiplier hm).powLoop hm hpower (by omega)]
  by_cases hover : F.Overflows (policy.factor^(2^32-attempt))
  · rw [if_pos hover,rounded_of_overflows hover,is_one.div_infinite]
    exact is_zero
  · have hhas := (hpower _ le_rfl).resolve_right hover
    have hpos : policy.factor^(2^32-attempt) ≠ 0 := (one_pos.trans_le (one_le_pow₀ hm)).ne'
    have hexponent : policy.factor^((attempt : ℤ)-2^32) = 1/policy.factor^(2^32-attempt) := by
      have hneg : (attempt : ℤ)-2^32 = -((2^32-attempt : ℕ) : ℤ) := by omega
      rw [hneg,zpow_neg,zpow_natCast,one_div]
    have hle : policy.factor^((attempt : ℤ)-2^32) ≤ 1 := zpow_le_one_of_nonpos₀ hm (by omega)
    rw [if_neg hover,is_one.div (is_rounded hhas) hpos,← hexponent]
    exact is_rounded (hinverse.has_of_le F.has_one hle)

theorem capped_early (hm : 1 ≤ policy.factor) (h : policy.Unrounded attempt) (hearly : attempt < 2^31) :
    (policy.capped attempt).Is (if F.Overflows (policy.factor^attempt) ∧ Duration.asMillis policy.initial = 0
      then Duration.asMillis policy.max else Min.min (policy.wholeMs attempt) (Duration.asMillis policy.max)) := by
  have hinitial := is_natCast h.initial
  have hmax := is_natCast h.max
  have hproduct := h.product attempt le_rfl
  rw [asI32_of_lt hearly,zpow_natCast] at hproduct
  change F.Exact (policy.wholeMs attempt) at hproduct
  rw [capped,powi_early hm h hearly]
  by_cases hover : F.Overflows (policy.factor^attempt)
  · rw [rounded_of_overflows hover]
    by_cases hzero : Duration.asMillis policy.initial = 0
    · rw [hzero,Nat.cast_zero] at hinitial
      rw [if_pos ⟨hover,hzero⟩,hzero,hinitial.zero_mul_infinite,nan_min]
      exact hmax
    · have hne : (Duration.asMillis policy.initial : ℚ≥0) ≠ 0 := Nat.cast_ne_zero.mpr hzero
      have hone : (1 : ℚ≥0) ≤ Duration.asMillis policy.initial := by
        exact_mod_cast Nat.one_le_iff_ne_zero.mpr hzero
      have hlarge : F.Overflows (policy.wholeMs attempt) := hover.of_le (le_mul_of_one_le_left zero_le hone)
      rw [if_neg fun hnan => hzero hnan.2,min_eq_right (h.max.lt_of_overflows hlarge).le,hinitial.mul_infinite hne,
        hmax.infinite_min]
      exact hmax
  · have hpower := h.power attempt le_rfl attempt
    rw [asI32_of_lt hearly,Int.natAbs_natCast] at hpower
    have hbase : (Duration.asMillis policy.initial : Floating F)*rounded false (policy.factor^attempt) =
        rounded false (policy.wholeMs attempt) := hinitial.mul (is_rounded ((hpower le_rfl).resolve_right hover))
    rw [if_neg fun hnan => hover hnan.1,hbase]
    obtain hhas | hlarge := hproduct
    · exact (is_rounded hhas).min hmax
    · rw [rounded_of_overflows hlarge,hmax.infinite_min,min_eq_right (h.max.lt_of_overflows hlarge).le]
      exact hmax

theorem capped_late (hm : 1 ≤ policy.factor) (h : policy.Unrounded attempt) (hlate : 2^31 ≤ attempt)
    (hword : attempt < 2^32) :
    (policy.capped attempt).Is (if F.Overflows (policy.factor^(2^32-attempt)) then 0
      else Min.min (policy.lateMs attempt) (Duration.asMillis policy.max)) := by
  have hinitial := is_natCast h.initial
  have hpowi := powi_late hm h hlate hword
  have hproduct := h.product attempt le_rfl
  rw [asI32_of_ge hlate hword] at hproduct
  rw [capped,hinitial.mul hpowi]
  by_cases hover : F.Overflows (policy.factor^(2^32-attempt))
  · rw [if_pos hover,if_pos hover,mul_zero]
    have hmin := (is_rounded F.has_zero).min (is_natCast h.max)
    rwa [min_eq_left zero_le] at hmin
  · have hle : policy.factor^((attempt : ℤ)-2^32) ≤ 1 := zpow_le_one_of_nonpos₀ hm (by omega)
    rw [if_neg hover,if_neg hover]
    exact (is_rounded (hproduct.has_of_le h.initial (mul_le_of_le_one_right zero_le hle))).min (is_natCast h.max)

theorem exists_capped (hm : 1 ≤ policy.factor) (h : policy.Unrounded attempt) (hword : attempt < 2^32) :
    ∃ c ≤ (Duration.asMillis policy.max : ℚ≥0), (policy.capped attempt).Is c := by
  obtain hearly | hlate := Nat.lt_or_ge attempt (2^31)
  · refine ⟨_,?_,capped_early hm h hearly⟩
    split_ifs
    · exact le_rfl
    · exact min_le_right _ _
  · refine ⟨_,?_,capped_late hm h hlate hword⟩
    split_ifs
    · exact zero_le
    · exact min_le_right _ _

theorem is_half : (0.5 : Floating F).Is (1/2) := by
  have hhalf : (OfScientific.ofScientific 5 true 1 : ℚ≥0) = 1/2 := by norm_num
  have h : (rounded false (OfScientific.ofScientific 5 true 1 : ℚ≥0) : Floating F).Is (1/2) := by
    rw [hhalf]
    exact is_rounded F.has_half
  exact h

theorem pseudoRandom01_le_one (h : F.Has 10000) (seed : ℕ) : ∃ r ≤ 1, (pseudoRandom01 seed : Floating F).Is r := by
  have hlt : ((asU32 (seed*2654435761)%10000 : ℕ) : ℚ≥0) ≤ 10000 := by
    exact_mod_cast (Nat.mod_lt (asU32 (seed*2654435761)) (by decide : 0 < 10000)).le
  obtain ⟨s,hs,-,his⟩ := is_rounded_of_le hlt h
  have hden : (10000 : Floating F).Is 10000 := is_rounded (q := (10000 : ℕ)) (by exact_mod_cast h)
  obtain ⟨r,hr,-,hdiv⟩ := is_rounded_of_le ((div_le_one (by norm_num : (0 : ℚ≥0) < 10000)).mpr hs) F.has_one
  refine ⟨r,hr,?_⟩
  have heq : (pseudoRandom01 seed : Floating F) = rounded false (s/10000) := his.div hden (by norm_num)
  rwa [heq]

theorem asMillis_fromMillis (ms : ℕ) : Duration.asMillis (Duration.fromMillis ms) = ms :=
  Nat.mul_div_cancel ms (by decide)

section Delays
variable {c r : ℚ≥0}

theorem asMillis_of_is {x : Floating F} (h : x.Is c) :
    Duration.asMillis (Duration.fromMillis ((Max.max x 0).asUnsigned 64)) = Min.min (2^64-1) ⌊c⌋₊ := by
  rw [asMillis_fromMillis,h.max_zero,h.asUnsigned]

theorem delayMs_none (h : (policy.capped attempt).Is c) :
    policy.delayMs .none attempt = Min.min (2^64-1) ⌊c⌋₊ := asMillis_of_is h

/-- A product with a number of at most one. -/
theorem delayMs_full_le (h : (policy.capped attempt).Is c) (hr : (pseudoRandom01 attempt : Floating F).Is r)
    (hle : r ≤ 1) : policy.delayMs .full attempt ≤ Min.min (2^64-1) ⌊c⌋₊ := by
  obtain ⟨s,hs,-,his⟩ := is_rounded_of_le (mul_le_of_le_one_right zero_le hle) h.held
  rw [← h.mul hr] at his
  have hfull : policy.delayMs .full attempt = Min.min (2^64-1) ⌊s⌋₊ := asMillis_of_is his
  rw [hfull]
  exact min_le_min_left _ (Nat.floor_mono hs)

/-- From a half on the half of a number is one, so that the sum is rounded between it and the whole. -/
theorem jittered_of_half_le {x : Floating F} (h : x.Is c) (hc : 1/2 ≤ c) {y : Floating F} (hy : y.Is r)
    (hle : r ≤ 1) : ∃ s, (x*0.5+x*y*0.5).Is s ∧ c/2 ≤ s ∧ s ≤ c := by
  have hhalf : F.Has (c/2) := h.held.half hc
  obtain ⟨z,hz,-,hrandom⟩ := is_rounded_of_le (mul_le_of_le_one_right zero_le hle) h.held
  rw [← h.mul hy] at hrandom
  have hbelow : z*(1/2) ≤ c/2 := by
    rw [mul_one_div]
    exact div_le_div_of_nonneg_right hz (by norm_num)
  obtain ⟨w,hw,-,hpart⟩ := is_rounded_of_le hbelow hhalf
  rw [← hrandom.mul is_half] at hpart
  have hfirst : (x*0.5).Is (c/2) := by
    rw [h.mul is_half,mul_one_div]
    exact is_rounded hhalf
  have hsum : c/2+w ≤ c := (add_le_add_right hw _).trans_eq (add_halves c)
  obtain ⟨s,hs,hround,hIs⟩ := is_rounded_of_le hsum h.held
  rw [← hfirst.add hpart] at hIs
  exact ⟨s,hIs,hhalf.le_of_round hround (le_add_of_nonneg_right zero_le),hs⟩

/-- Below a half both parts stay below a quarter. -/
theorem jittered_of_lt_half {x : Floating F} (h : x.Is c) (hc : c ≤ 1/2) {y : Floating F} (hy : y.Is r)
    (hle : r ≤ 1) : ∃ s, (x*0.5+x*y*0.5).Is s ∧ s ≤ 1/2 := by
  obtain ⟨z,hz,-,hrandom⟩ := is_rounded_of_le (mul_le_of_le_one_right zero_le hle) h.held
  rw [← h.mul hy] at hrandom
  have hquarter {a : ℚ≥0} (ha : a ≤ c) : a*(1/2) ≤ 1/4 := by
    have hmul := mul_le_mul_of_nonneg_right (ha.trans hc) (by norm_num : (0 : ℚ≥0) ≤ 1/2)
    exact hmul.trans_eq (by norm_num)
  obtain ⟨a,ha,-,hfirst⟩ := is_rounded_of_le (hquarter le_rfl) F.has_quarter
  obtain ⟨b,hb,-,hpart⟩ := is_rounded_of_le (hquarter hz) F.has_quarter
  rw [← h.mul is_half] at hfirst
  rw [← hrandom.mul is_half] at hpart
  have hsum : a+b ≤ 1/2 := (add_le_add ha hb).trans_eq (by norm_num)
  obtain ⟨s,hs,-,hIs⟩ := is_rounded_of_le hsum F.has_half
  rw [← hfirst.add hpart] at hIs
  exact ⟨s,hIs,hs⟩

theorem delayMs_equal (h : (policy.capped attempt).Is c) (hr : (pseudoRandom01 attempt : Floating F).Is r)
    (hle : r ≤ 1) :
    Min.min (2^64-1) ⌊c⌋₊/2 ≤ policy.delayMs .equal attempt ∧
      policy.delayMs .equal attempt ≤ Min.min (2^64-1) ⌊c⌋₊ := by
  obtain hc | hc := le_total (1/2) c
  · obtain ⟨s,hs,hlow,hhigh⟩ := jittered_of_half_le h hc hr hle
    have hequal : policy.delayMs .equal attempt = Min.min (2^64-1) ⌊s⌋₊ := asMillis_of_is hs
    have hfloor : ⌊c⌋₊/2 ≤ ⌊s⌋₊ := by
      rw [← Nat.floor_div_ofNat]
      exact Nat.floor_mono hlow
    have hfloor' : ⌊s⌋₊ ≤ ⌊c⌋₊ := Nat.floor_mono hhigh
    rw [hequal]
    omega
  · obtain ⟨s,hs,hhigh⟩ := jittered_of_lt_half h hc hr hle
    have hequal : policy.delayMs .equal attempt = Min.min (2^64-1) ⌊s⌋₊ := asMillis_of_is hs
    have hzero {a : ℚ≥0} (ha : a ≤ 1/2) : ⌊a⌋₊ = 0 := Nat.floor_eq_zero.mpr (ha.trans_lt (by norm_num))
    rw [hequal,hzero hhigh,hzero hc]
    omega

end Delays

theorem floor_million (d : ℕ) : ⌊(d : ℚ≥0)/1000000⌋₊ = Duration.asMillis d := by
  have h := Nat.floor_div_eq_div (K := ℚ≥0) d 1000000
  exact_mod_cast h

theorem asMillis_le (d : ℕ) : (Duration.asMillis d : ℚ≥0) ≤ d/1000000 :=
  Nat.cast_div_le.trans_eq (by norm_num)

theorem wholeMs_le_powerMs (policy : BackoffPolicy F) (attempt : ℕ) :
    policy.wholeMs attempt ≤ policy.powerMs attempt :=
  mul_le_mul_of_nonneg_right (asMillis_le _) zero_le

theorem floor_exactMs (policy : BackoffPolicy F) (attempt : ℕ) :
    ⌊policy.exactMs attempt⌋₊ = Min.min ⌊policy.powerMs attempt⌋₊ (Duration.asMillis policy.max) := by
  rw [exactMs,Nat.floor_mono.map_min,floor_million]

theorem powerMs_mono (hm : 1 ≤ policy.factor) (h : earlier ≤ attempt) :
    policy.powerMs earlier ≤ policy.powerMs attempt :=
  mul_le_mul_of_nonneg_left (pow_le_pow_right₀ hm h) zero_le

theorem floor_exactMs_mono (hm : 1 ≤ policy.factor) (h : earlier ≤ attempt) :
    ⌊policy.exactMs earlier⌋₊ ≤ ⌊policy.exactMs attempt⌋₊ :=
  Nat.floor_mono (min_le_min_right _ (powerMs_mono hm h))

theorem floor_lt_word {q : ℚ≥0} : q < 2^64 ↔ ⌊q⌋₊ < 2^64 := by
  rw [Nat.floor_lt zero_le]
  norm_num

/-- A power that is too large is far beyond the words. -/
theorem word_le_powerMs (h : policy.Unrounded attempt) (hover : F.Overflows (policy.factor^attempt))
    (hinitial : policy.initial ≠ 0) : 2^64 ≤ policy.powerMs attempt := by
  have hone : (1 : ℚ≥0)/1000000 ≤ policy.initial/1000000 := by
    apply div_le_div_of_nonneg_right _ (by norm_num)
    exact_mod_cast Nat.one_le_iff_ne_zero.mpr hinitial
  calc (2^64 : ℚ≥0) = 1/1000000*(2^64*1000000) := by norm_num
    _ ≤ policy.initial/1000000*policy.factor^attempt := mul_le_mul' hone (h.words.lt_of_overflows hover).le

theorem word_le_wholeMs (h : policy.Unrounded attempt) (hover : F.Overflows (policy.factor^attempt))
    (hinitial : Duration.asMillis policy.initial ≠ 0) : 2^64 ≤ policy.wholeMs attempt := by
  have hone : (1 : ℚ≥0) ≤ Duration.asMillis policy.initial := by exact_mod_cast Nat.one_le_iff_ne_zero.mpr hinitial
  have hlarge : (2^64 : ℚ≥0) ≤ policy.factor^attempt :=
    le_trans (by norm_num) (h.words.lt_of_overflows hover).le
  exact hlarge.trans (le_mul_of_one_le_left zero_le hone)

theorem floor_min_natCast (q : ℚ≥0) (n : ℕ) : ⌊Min.min q n⌋₊ = Min.min ⌊q⌋₊ n := by
  rw [Nat.floor_mono.map_min,Nat.floor_natCast]

theorem delayMs_early (hm : 1 ≤ policy.factor) (h : policy.Unrounded attempt) (hearly : attempt < 2^31) :
    policy.delayMs .none attempt = Min.min (2^64-1)
      (if F.Overflows (policy.factor^attempt) ∧ Duration.asMillis policy.initial = 0
        then Duration.asMillis policy.max
        else Min.min ⌊policy.wholeMs attempt⌋₊ (Duration.asMillis policy.max)) := by
  rw [delayMs_none (capped_early hm h hearly)]
  split_ifs
  · rw [Nat.floor_natCast]
  · rw [floor_min_natCast]

/-- Where the power is too large, its inverse makes less than a millisecond of the first delay. -/
theorem delayMs_late (hm : 1 ≤ policy.factor) (h : policy.Unrounded attempt) (hlate : 2^31 ≤ attempt)
    (hword : attempt < 2^32) :
    policy.delayMs .none attempt =
      Min.min (2^64-1) (Min.min ⌊policy.lateMs attempt⌋₊ (Duration.asMillis policy.max)) := by
  rw [delayMs_none (capped_late hm h hlate hword)]
  by_cases hover : F.Overflows (policy.factor^(2^32-attempt))
  · have hlt : policy.lateMs attempt < 1 := by
      have hneg : (attempt : ℤ)-2^32 = -((2^32-attempt : ℕ) : ℤ) := by omega
      rw [lateMs,hneg,zpow_neg,zpow_natCast,← div_eq_mul_inv,div_lt_one (one_pos.trans_le (one_le_pow₀ hm))]
      exact h.initial.lt_of_overflows hover
    rw [if_pos hover,Nat.floor_zero,Nat.floor_eq_zero.mpr hlt,Nat.zero_min]
  · rw [if_neg hover,floor_min_natCast]

theorem exact_early_iff (hm : 1 ≤ policy.factor) (h : policy.Unrounded attempt) (hearly : attempt < 2^31) :
    policy.delayMs .none attempt = ⌊policy.exactMs attempt⌋₊ ↔ policy.exactMs attempt < 2^64 ∧
      (Duration.asMillis policy.max ≤ policy.wholeMs attempt ∨
        ¬F.Overflows (policy.factor^attempt) ∧ ⌊policy.wholeMs attempt⌋₊ = ⌊policy.powerMs attempt⌋₊ ∨
        F.Overflows (policy.factor^attempt) ∧ policy.initial ≠ 0) := by
  have hle : ⌊policy.wholeMs attempt⌋₊ ≤ ⌊policy.powerMs attempt⌋₊ :=
    Nat.floor_mono (policy.wholeMs_le_powerMs attempt)
  rw [delayMs_early hm h hearly,floor_lt_word,floor_exactMs,← Nat.le_floor_iff zero_le]
  by_cases hover : F.Overflows (policy.factor^attempt)
  · by_cases hinitial : Duration.asMillis policy.initial = 0
    · have hwhole : policy.wholeMs attempt = 0 := by rw [wholeMs,hinitial,Nat.cast_zero,zero_mul]
      rw [if_pos ⟨hover,hinitial⟩,hwhole,Nat.floor_zero]
      by_cases hzero : policy.initial = 0
      · have hpower : policy.powerMs attempt = 0 := by rw [powerMs,hzero,Nat.cast_zero,zero_div,zero_mul]
        simp only [hpower,hover,hzero,Nat.floor_zero,not_true_eq_false,false_and,ne_eq,and_false,or_false]
        omega
      · have hlarge : 2^64 ≤ ⌊policy.powerMs attempt⌋₊ :=
          Nat.le_floor (by exact_mod_cast word_le_powerMs h hover hzero)
        simp only [hover,hzero,not_true_eq_false,false_and,ne_eq,not_false_eq_true,and_self,or_true,and_true]
        omega
    · have hlarge : 2^64 ≤ ⌊policy.wholeMs attempt⌋₊ :=
        Nat.le_floor (by exact_mod_cast word_le_wholeMs h hover hinitial)
      have hne : policy.initial ≠ 0 := fun hzero => hinitial (by rw [hzero]; rfl)
      simp only [hover,hinitial,hne,and_false,if_false,not_true_eq_false,false_and,ne_eq,not_false_eq_true,and_self,
        or_true,and_true]
      omega
  · simp only [hover,false_and,if_false,not_false_eq_true,true_and,or_false]
    omega

theorem floor_lateMs_le (hm : 1 ≤ policy.factor) (hword : attempt < 2^32) :
    ⌊policy.lateMs attempt⌋₊ ≤ Duration.asMillis policy.initial := by
  have hle : policy.factor^((attempt : ℤ)-2^32) ≤ 1 := zpow_le_one_of_nonpos₀ hm (by omega)
  exact Nat.floor_le_of_le (mul_le_of_le_one_right zero_le hle)

theorem floor_lateMs_lt (hm : 1 ≤ policy.factor) (hword : attempt < 2^32) (hgrows : policy.factor ≠ 1)
    (hinitial : Duration.asMillis policy.initial ≠ 0) :
    ⌊policy.lateMs attempt⌋₊ < Duration.asMillis policy.initial := by
  have hlt : policy.factor^((attempt : ℤ)-2^32) < 1 := zpow_lt_one_of_neg₀ (lt_of_le_of_ne hm hgrows.symm) (by omega)
  have hpos : (0 : ℚ≥0) < Duration.asMillis policy.initial := by exact_mod_cast Nat.pos_of_ne_zero hinitial
  rw [Nat.floor_lt zero_le]
  exact mul_lt_of_lt_one_right hpos hlt

theorem asMillis_le_powerMs (hm : 1 ≤ policy.factor) (attempt : ℕ) :
    Duration.asMillis policy.initial ≤ ⌊policy.powerMs attempt⌋₊ :=
  Nat.le_floor ((asMillis_le _).trans (le_mul_of_one_le_right zero_le (one_le_pow₀ hm)))

theorem floor_of_factor_one (hone : policy.factor = 1) : ⌊policy.lateMs attempt⌋₊ = ⌊policy.powerMs attempt⌋₊ := by
  rw [lateMs,powerMs,hone,one_zpow,one_pow,mul_one,mul_one,floor_million,Nat.floor_natCast]

/-- A negative exponent makes the delay too short, but where it is zero anyway. -/
theorem exact_late_iff (hm : 1 ≤ policy.factor) (h : policy.Unrounded attempt) (hlate : 2^31 ≤ attempt)
    (hword : attempt < 2^32) :
    policy.delayMs .none attempt = ⌊policy.exactMs attempt⌋₊ ↔ policy.exactMs attempt < 2^64 ∧
      (policy.factor = 1 ∨ Duration.asMillis policy.max ≤ policy.lateMs attempt ∨ policy.powerMs attempt < 1) := by
  have hpower := asMillis_le_powerMs hm attempt
  have hle := floor_lateMs_le hm hword
  rw [delayMs_late hm h hlate hword,floor_lt_word,floor_exactMs,← Nat.le_floor_iff zero_le,← Nat.floor_eq_zero]
  by_cases hone : policy.factor = 1
  · have hsame : ⌊policy.lateMs attempt⌋₊ = ⌊policy.powerMs attempt⌋₊ := floor_of_factor_one hone
    simp only [hone,true_or,and_true]
    omega
  · simp only [hone,false_or]
    by_cases hinitial : Duration.asMillis policy.initial = 0
    · omega
    · have hlt := floor_lateMs_lt hm hword hone hinitial
      omega

theorem delayMs_none_le (hm : 1 ≤ policy.factor) (h : policy.Unrounded attempt) (hword : attempt < 2^32) :
    policy.delayMs .none attempt ≤ Duration.asMillis policy.max := by
  obtain ⟨c,hc,hIs⟩ := exists_capped hm h hword
  rw [delayMs_none hIs]
  exact (min_le_right _ _).trans (Nat.floor_le_of_le hc)

/-- Where a delay is longer than the power says, the first one is less than a millisecond, and the power is
too large. -/
theorem delayMs_none_le_exactMs (hm : 1 ≤ policy.factor) (h : policy.Unrounded attempt) (hword : attempt < 2^32)
    (hnan : attempt < 2^31 → F.Overflows (policy.factor^attempt) → Duration.asMillis policy.initial ≠ 0) :
    policy.delayMs .none attempt ≤ ⌊policy.exactMs attempt⌋₊ := by
  rw [floor_exactMs]
  obtain hearly | hlate := Nat.lt_or_ge attempt (2^31)
  · have hle : ⌊policy.wholeMs attempt⌋₊ ≤ ⌊policy.powerMs attempt⌋₊ :=
      Nat.floor_mono (policy.wholeMs_le_powerMs attempt)
    rw [delayMs_early hm h hearly,if_neg fun hboth => hnan hearly hboth.1 hboth.2]
    omega
  · have hpower := asMillis_le_powerMs hm attempt
    have hle := floor_lateMs_le hm hword
    rw [delayMs_late hm h hlate hword]
    omega

/-- In range the cap is reached behind a power that was too large. -/
theorem InRange.max_le_of_overflows (hin : policy.InRange attempt) (h : policy.Unrounded attempt)
    (hm : 1 ≤ policy.factor) (hword : attempt < 2^32) (hle : earlier ≤ attempt) (hearlier : earlier < 2^31)
    (hover : F.Overflows (policy.factor^earlier)) : ⌊policy.exactMs attempt⌋₊ = Duration.asMillis policy.max := by
  have hword' := floor_lt_word.mp hin.word
  rw [floor_exactMs] at hword' ⊢
  rw [min_eq_right_iff]
  obtain hearly | hlate := Nat.lt_or_ge attempt (2^31)
  · have hover' := hover.of_le (pow_le_pow_right₀ hm hle)
    have hpower : ⌊policy.wholeMs attempt⌋₊ ≤ ⌊policy.powerMs attempt⌋₊ :=
      Nat.floor_mono (policy.wholeMs_le_powerMs attempt)
    obtain hmax | hsame | hinitial := hin.early hearly
    · exact (Nat.le_floor hmax).trans hpower
    · exact absurd hover' hsame.1
    · have hlarge : 2^64 ≤ ⌊policy.powerMs attempt⌋₊ :=
        Nat.le_floor (by exact_mod_cast word_le_powerMs h hover' hinitial.2)
      omega
  · obtain hone | hmax | hsmall := hin.late hlate
    · rw [hone,one_pow] at hover
      exact absurd hover F.has_one.not_overflows
    · exact (Nat.le_floor hmax).trans ((floor_lateMs_le hm hword).trans (asMillis_le_powerMs hm attempt))
    · exact absurd (hover.of_le (pow_le_pow_right₀ hm (by omega))) hsmall.2

theorem exact_of_inRange (hm : 1 ≤ policy.factor) (h : policy.Unrounded attempt) (hword : attempt < 2^32)
    (hin : policy.InRange attempt) : policy.delayMs .none attempt = ⌊policy.exactMs attempt⌋₊ := by
  obtain hearly | hlate := Nat.lt_or_ge attempt (2^31)
  · exact (exact_early_iff hm h hearly).mpr ⟨hin.word,hin.early hearly⟩
  · refine (exact_late_iff hm h hlate hword).mpr ⟨hin.word,?_⟩
    exact (hin.late hlate).imp_right fun hrest => hrest.imp_right And.left

/-- A power that was too large has given the cap, although the first delay is zero. -/
theorem delayMs_of_overflows (hm : 1 ≤ policy.factor) (h : policy.Unrounded attempt) (hearly : attempt < 2^31)
    (hover : F.Overflows (policy.factor^attempt)) (hinitial : Duration.asMillis policy.initial = 0) :
    policy.delayMs .none attempt = Min.min (2^64-1) (Duration.asMillis policy.max) := by
  rw [delayMs_early hm h hearly,if_pos ⟨hover,hinitial⟩]

theorem inRange_of_law (hm : 1 ≤ policy.factor) (h : policy.Unrounded attempt) (hword : attempt < 2^32)
    (hlaw : BackoffLaw policy attempt) : policy.InRange attempt := by
  obtain hearly | hlate := Nat.lt_or_ge attempt (2^31)
  · obtain ⟨hfits,hreached⟩ := (exact_early_iff hm h hearly).mp hlaw.exact
    exact ⟨hfits,fun _ => hreached,fun hlate => absurd hearly (Nat.not_lt_of_ge hlate)⟩
  · obtain ⟨hfits,hreached⟩ := (exact_late_iff hm h hlate hword).mp hlaw.exact
    refine ⟨hfits,fun hearly => absurd hearly (Nat.not_lt_of_ge hlate),fun _ => ?_⟩
    obtain hone | hmax | hsmall := hreached
    · exact .inl hone
    · exact .inr (.inl hmax)
    by_cases hmax : Duration.asMillis policy.max = 0
    · rw [hmax,Nat.cast_zero]
      exact .inr (.inl zero_le)
    refine .inr (.inr ⟨hsmall,fun hover => ?_⟩)
    -- the delay falls back to zero behind the cap
    have hpower : ⌊policy.powerMs attempt⌋₊ = 0 := Nat.floor_eq_zero.mpr hsmall
    have hinitial : Duration.asMillis policy.initial = 0 := Nat.le_zero.mp (hpower ▸ asMillis_le_powerMs hm attempt)
    have hcap := delayMs_of_overflows hm (h.of_le (by omega)) (by decide) hover hinitial
    have hgrows := hlaw.grows (2^31-1) (by omega)
    rw [hlaw.exact,floor_exactMs,hpower,hcap] at hgrows
    omega

theorem law_of_inRange (hm : 1 ≤ policy.factor) (h : policy.Unrounded attempt) (hword : attempt < 2^32)
    (hin : policy.InRange attempt) : BackoffLaw policy attempt := by
  have hexact := exact_of_inRange hm h hword hin
  obtain ⟨c,-,hc⟩ := exists_capped hm h hword
  obtain ⟨r,hr,hrandom⟩ := pseudoRandom01_le_one h.random attempt
  have hnone := delayMs_none hc
  have hequal := delayMs_equal hc hrandom hr
  have hfull := delayMs_full_le hc hrandom hr
  rw [← hnone] at hequal hfull
  have hcap := delayMs_none_le hm h hword
  constructor
  case whole => exact fun jitter => (congrArg Duration.fromMillis (asMillis_fromMillis _)).symm
  case capped =>
    intro jitter
    cases jitter with
    | none => exact hcap
    | equal => exact hequal.2.trans hcap
    | full => exact hfull.trans hcap
  case exact => exact hexact
  case grows =>
    intro earlier hle
    have hearlier := h.of_le hle
    have hword' : earlier < 2^32 := hle.trans_lt hword
    rw [hexact]
    by_cases hnan : earlier < 2^31 ∧ F.Overflows (policy.factor^earlier)
    · rw [hin.max_le_of_overflows h hm hword hle hnan.1 hnan.2]
      exact delayMs_none_le hm hearlier hword'
    · refine le_trans (delayMs_none_le_exactMs hm hearlier hword' ?_) (floor_exactMs_mono hm hle)
      exact fun hearly hover => absurd ⟨hearly,hover⟩ hnan
  case equal => exact hequal
  case full => exact hfull

end BackoffPolicy

open BackoffPolicy

/-- The law holds of the attempts in range: for every policy over the rationals, and over any other format as far as
its numbers are not rounded. -/
theorem backoff_law_iff (attempt : UInt32) :
    (∀ policy : BackoffPolicy .rationals, 1 ≤ policy.factor →
      (BackoffLaw policy attempt.toNat ↔ policy.InRange attempt.toNat)) ∧
    ∀ (F : FloatFormat) (policy : BackoffPolicy F), 1 ≤ policy.factor → policy.Unrounded attempt.toNat →
      (BackoffLaw policy attempt.toNat ↔ policy.InRange attempt.toNat) := by
  have hall (F : FloatFormat) (policy : BackoffPolicy F) (hm : 1 ≤ policy.factor)
      (h : policy.Unrounded attempt.toNat) : BackoffLaw policy attempt.toNat ↔ policy.InRange attempt.toNat :=
    ⟨inRange_of_law hm h attempt.toNat_lt,law_of_inRange hm h attempt.toNat_lt⟩
  refine ⟨fun policy hm => hall .rationals policy hm ?_,hall⟩
  exact unrounded_exact policy (WithTop.coe_lt_top _) (WithTop.coe_lt_top _) (WithTop.coe_lt_top _) attempt.toNat

/-- Two seconds at most, from a tenth of a second on. -/
def doublingPolicy : BackoffPolicy := ⟨Duration.fromMillis 100,Duration.fromMillis 2000,2,.none⟩

/-- A tenth more each time. -/
def tenthsPolicy : BackoffPolicy .rationals := ⟨Duration.fromMillis 100,Duration.fromMillis 2000,1.1,.equal⟩

theorem backoff_law_iff_first : BackoffLaw tenthsPolicy 3 ∧ BackoffLaw doublingPolicy 10 := by
  constructor
  · refine ((backoff_law_iff 3).1 tenthsPolicy (by decide +kernel)).mpr ?_
    exact ⟨by decide +kernel,fun _ => .inr (.inl (by decide +kernel)),fun h => absurd h (by decide)⟩
  · refine ((backoff_law_iff 10).2 .binary64 doublingPolicy (by decide +kernel) ?_).mpr ?_
    · exact ⟨by decide +kernel,by decide +kernel,by decide +kernel,by decide +kernel,by decide +kernel,
        by decide +kernel,by decide +kernel⟩
    · exact ⟨by decide +kernel,fun _ => .inl (by decide +kernel),fun h => absurd h (by decide)⟩

/-- Behind the delay of two seconds there is one of none. -/
theorem backoff_law_fails_late :
    doublingPolicy.delayMs .none (2147483648 : UInt32).toNat = 0 ∧
      ¬ BackoffLaw doublingPolicy (2147483648 : UInt32).toNat := by
  have hnone : doublingPolicy.delayMs .none (2147483648 : UInt32).toNat = 0 := by decide +kernel
  refine ⟨hnone,?_⟩
  intro h
  have hgrows := h.grows 0 (Nat.zero_le _)
  have hfirst : doublingPolicy.delayMs .none 0 = 100 := by decide +kernel
  omega

end RakkaInference
