import Mathlib.Data.Nat.Digits.Lemmas
import Mathlib.Tactic.Ring

/-! Numbers written with the most significant digit first, and digits of one width regrouped into
digits of another one. -/
namespace Machine

/-- The number with these digits. -/
def numeral (b : ℕ) (ds : List ℕ) : ℕ := Nat.ofDigits b ds.reverse

section Numerals
variable {b d : ℕ} {ds es : List ℕ}

theorem numeral_append : numeral b (ds++es) = numeral b ds*b^es.length+numeral b es := by
  rw [numeral,List.reverse_append,Nat.ofDigits_append,List.length_reverse,numeral,numeral,mul_comm,add_comm]

theorem numeral_snoc : numeral b (ds++[d]) = numeral b ds*b+d := by
  rw [numeral_append]
  simp [numeral]

/-- Digits of one number are the same when there are as many. -/
theorem numeral_inj (hb : 1 < b) (hd : ∀ d ∈ ds, d < b) (he : ∀ d ∈ es, d < b) (hlen : ds.length = es.length)
    (h : numeral b ds = numeral b es) : ds = es := by
  apply List.reverse_injective
  apply Nat.ofDigits_inj_of_len_eq hb (by simpa using hlen)
  · exact fun d hmem => hd d (List.mem_reverse.mp hmem)
  · exact fun d hmem => he d (List.mem_reverse.mp hmem)
  · exact h

end Numerals

/-- The digits `ds` of `v` bits are the digits `es` of `w` bits and `r` further bits. -/
structure Regrouped (v w : ℕ) (ds es : List ℕ) (rest r : ℕ) : Prop where
  numeral_eq : numeral (2^v) ds = numeral (2^w) es*2^r+rest
  rest_lt : rest < 2^r
  bits_eq : v*ds.length = w*es.length+r

namespace Regrouped
variable {v w d rest rest' r r' : ℕ} {ds ds' es es' : List ℕ}

theorem nil (v w : ℕ) : Regrouped v w [] [] 0 0 := ⟨rfl,Nat.one_pos,rfl⟩

/-- Whole groups of digits come first. -/
theorem append (h : Regrouped v w ds es 0 0) (h' : Regrouped v w ds' es' rest r) :
    Regrouped v w (ds++ds') (es++es') rest r where
  numeral_eq := by
    have hbits := h'.bits_eq
    have hhead := h.numeral_eq
    rw [pow_zero,mul_one,Nat.add_zero] at hhead
    rw [numeral_append,numeral_append,hhead,h'.numeral_eq,← pow_mul,← pow_mul,hbits,pow_add]
    ring
  rest_lt := h'.rest_lt
  bits_eq := by
    have hbits := h.bits_eq
    have hbits' := h'.bits_eq
    rw [List.length_append,List.length_append,Nat.mul_add,Nat.mul_add]
    omega

/-- The next digit comes in. -/
theorem push (h : Regrouped v w ds es rest r) (hd : d < 2^v) :
    Regrouped v w (ds++[d]) es (rest*2^v+d) (r+v) where
  numeral_eq := by
    rw [numeral_snoc,h.numeral_eq,pow_add]
    ring
  rest_lt := by
    have hrest : (rest+1)*2^v ≤ 2^r*2^v := Nat.mul_le_mul_right _ h.rest_lt
    rw [pow_add]
    rw [Nat.add_mul,one_mul] at hrest
    omega
  bits_eq := by
    have hbits := h.bits_eq
    rw [List.length_append,List.length_singleton,Nat.mul_add,hbits]
    omega

/-- The upper bits of the rest go out as a digit. -/
theorem take (h : Regrouped v w ds es rest (r+w)) : Regrouped v w ds (es++[rest/2^r]) (rest%2^r) r where
  numeral_eq := by
    have hsplit := Nat.div_add_mod rest (2^r)
    rw [numeral_snoc,h.numeral_eq,pow_add]
    nth_rewrite 1 [← hsplit]
    ring
  rest_lt := Nat.mod_lt _ (Nat.two_pow_pos r)
  bits_eq := by
    have hbits := h.bits_eq
    rw [List.length_append,List.length_singleton,Nat.mul_add,hbits]
    omega

/-- The digits that come out are those, when less than one digit is left. -/
theorem unique (h : Regrouped v w ds es rest r) (h' : Regrouped v w ds es' rest' r') (hr : r < w) (hr' : r' < w)
    (hes : ∀ e ∈ es, e < 2^w) (hes' : ∀ e ∈ es', e < 2^w) : es = es' ∧ rest = rest' ∧ r = r' := by
  have hbits := h.bits_eq.symm.trans h'.bits_eq
  have hlen : es.length = es'.length := by
    by_contra hne
    obtain hlt | hlt := Nat.lt_or_gt_of_ne hne
    · have := Nat.mul_le_mul_left w (Nat.succ_le_of_lt hlt)
      rw [Nat.mul_succ] at this
      omega
    · have := Nat.mul_le_mul_left w (Nat.succ_le_of_lt hlt)
      rw [Nat.mul_succ] at this
      omega
  rw [hlen] at hbits
  obtain rfl : r = r' := by omega
  have hnumeral := h.numeral_eq.symm.trans h'.numeral_eq
  have hpos := Nat.two_pow_pos r
  have hdiv := congrArg (·/2^r) hnumeral
  have hmod := congrArg (·%2^r) hnumeral
  simp only [Nat.mul_add_mod_self_right,Nat.mod_eq_of_lt h.rest_lt,Nat.mod_eq_of_lt h'.rest_lt] at hmod
  simp only [Nat.mul_comm _ (2^r),Nat.mul_add_div hpos,Nat.div_eq_of_lt h.rest_lt,Nat.div_eq_of_lt h'.rest_lt,
    Nat.add_zero] at hdiv
  refine ⟨numeral_inj (Nat.one_lt_two_pow (by omega)) hes hes' hlen hdiv,hmod,rfl⟩

/-- The digits that go in are determined by what comes out. -/
theorem unique_digits (h : Regrouped v w ds es rest r) (h' : Regrouped v w ds' es rest r) (hv : 0 < v)
    (hds : ∀ d ∈ ds, d < 2^v) (hds' : ∀ d ∈ ds', d < 2^v) : ds = ds' := by
  apply numeral_inj (Nat.one_lt_two_pow hv.ne') hds hds'
  · exact Nat.eq_of_mul_eq_mul_left hv (h.bits_eq.trans h'.bits_eq.symm)
  · exact h.numeral_eq.trans h'.numeral_eq.symm

end Regrouped
end Machine
