import Mathlib.Algebra.Order.Field.Basic
import Mathlib.Algebra.Order.BigOperators.Group.List
import Mathlib.Data.List.GetD
import Mathlib.Data.List.Induction
import Mathlib.Data.List.Sort
import Mathlib.Order.Bounds.Basic
import Mathlib.Order.WithBot

/-! Sampling of the next token from the logits: a temperature, the tokens with the largest logits, those of
the largest probabilities, and a weighted draw. -/
namespace RakkaInference.Ort
variable {K Rng : Type*} [Field K] [LinearOrder K]

/-- What sampling reads of the parameters. -/
structure SampleParams (K : Type*) where
  temperature : Option K := none
  topK : Option UInt32 := none
  topP : Option K := none

/-- The order in which larger values come first. -/
def descending (a b : UInt32 × K) : Ordering := compare b.2 a.2

/-- The code that sampling calls. A selection leaves nothing before the item at the index that belongs behind
it, and a weighted draw gives the index of a positive weight. -/
structure SamplingOutside (K Rng : Type*) [Field K] [LinearOrder K] where
  exp : K → K
  exp_pos : ∀ x, 0 < exp x
  exp_strictMono : StrictMono exp
  selectNthUnstableBy : (UInt32 × K → UInt32 × K → Ordering) → ℕ → List (UInt32 × K) → List (UInt32 × K)
  select_perm : ∀ index xs, (selectNthUnstableBy descending index xs).Perm xs
  select_place : ∀ index xs, index < xs.length → ∀ a ∈ (selectNthUnstableBy descending index xs).take (index+1),
    ∀ b ∈ (selectNthUnstableBy descending index xs).drop (index+1), descending a b ≠ .gt
  weightedIndex : List K → Option (Rng → ℕ × Rng)
  weighted_pos : ∀ weights dist rng, weightedIndex weights = some dist → ∃ w, weights[(dist rng).1]? = some w ∧ 0 < w

/-- The index of the best logit so far, with the logit. -/
def keepBest (best : ℕ × WithBot K) (vi : K × ℕ) : ℕ × WithBot K :=
  if (vi.1 : WithBot K) > best.2 then (vi.2,vi.1) else best

def argmaxIndex (logits : List K) : ℕ := (logits.zipIdx.foldl keepBest (0,⊥)).1

def argmax (logits : List K) : UInt32 := UInt32.ofNat (argmaxIndex logits)

variable (o : SamplingOutside K Rng)

def softmax (scored : List (UInt32 × K)) : List (UInt32 × K) :=
  let max := (scored.map (·.2)).foldl (fun (m : WithBot K) (l : K) => max m l) ⊥
  let exps : List (UInt32 × K) := scored.map fun (t,l) => (t,o.exp (l-max.unbotD l))
  let sum : K := (exps.map (·.2)).sum
  if 0 < sum then exps.map fun (t,e) => (t,e/sum) else exps

/-- The temperature scale. -/
def scale (logits : List K) (temperature : K) : List (UInt32 × K) :=
  logits.zipIdx.map fun (l,i) => (UInt32.ofNat i,l/temperature)

def truncateTopK (topK : Option UInt32) (scored : List (UInt32 × K)) : List (UInt32 × K) :=
  match topK with
  | some k =>
    if k.toNat < scored.length ∧ 0 < k then (o.selectNthUnstableBy descending (k.toNat-1) scored).take k.toNat
    else scored
  | none => scored

/-- How many items it takes until the sum reaches the bound. -/
def cutoff (p : K) : K → ℕ → List (UInt32 × K) → Option ℕ
  | _,_,[] => none
  | acc,i,(_,prob)::rest => if p ≤ acc+prob then some (i+1) else cutoff p (acc+prob) (i+1) rest

def renormalise (probs : List (UInt32 × K)) : List (UInt32 × K) :=
  let s := (probs.map (·.2)).sum
  if 0 < s then probs.map fun (t,w) => (t,w/s) else probs

def truncateTopP (topP : Option K) (probs : List (UInt32 × K)) : List (UInt32 × K) :=
  match topP with
  | some p =>
    if 0 ≤ p ∧ p < 1 then
      let probs := probs.mergeSort fun a b => descending a b ≠ .gt
      renormalise (probs.take ((cutoff p 0 0 probs).getD probs.length))
    else probs
  | none => probs

/-- A token and what is left of the generator. There is none where the draw is out of range. -/
def sampleNext (logits : List K) (params : SampleParams K) (rng : Rng) : Option (UInt32 × Rng) :=
  let temperature := params.temperature.getD 1
  if temperature ≤ 0 then some (argmax logits,rng)
  else
    let probs := truncateTopP params.topP (softmax o (truncateTopK o params.topK (scale logits temperature)))
    match o.weightedIndex (probs.map (·.2)) with
    | some dist => probs[(dist rng).1]?.map fun e => (e.1,(dist rng).2)
    | none => some ((probs.head?.map (·.1)).getD (argmax logits),rng)

section Spec

def logit (logits : List K) (i : ℕ) : K := logits.getD i 0

/-- The first index of a largest logit. -/
structure FirstMax (logits : List K) (i : ℕ) : Prop where
  valid : i < logits.length
  largest : ∀ j < logits.length, logit logits j ≤ logit logits i
  first : ∀ j < i, logit logits j < logit logits i

/-- Indices with logits that are as large as all others. -/
structure TopSet (logits : List K) (k : ℕ) (S : List ℕ) : Prop where
  nodup : S.Nodup
  length : S.length = k
  valid : ∀ a ∈ S, a < logits.length
  top : ∀ a ∈ S, ∀ b < logits.length, b ∉ S → logit logits b ≤ logit logits a

/-- The softmax of some values, taken relative to one of them. -/
def probOf (value : ℕ → K) (m : K) (S : List ℕ) (a : ℕ) : K :=
  o.exp (value a-m)/(S.map fun b => o.exp (value b-m)).sum

/-- The shortest prefix, but not the empty one, in descending order of probability that has the mass. -/
structure Nucleus (prob : ℕ → K) (p : K) (order : List ℕ) (c : ℕ) : Prop where
  sorted : order.Pairwise fun a b => prob b ≤ prob a
  pos : 0 < c
  reaches : p ≤ ((order.take c).map prob).sum
  shortest : ∀ c', 0 < c' → c' < c → ((order.take c').map prob).sum < p

/-- How many tokens are kept. -/
def keptCount (params : SampleParams K) (n : ℕ) : ℕ :=
  match params.topK with
  | some k => if k.toNat < n ∧ 0 < k then k.toNat else n
  | none => n

/-- What a sampled token is promised to be. -/
structure SampleLaw (logits : List K) (params : SampleParams K) (token : UInt32) : Prop where
  valid : token.toNat < logits.length
  greedy : params.temperature.getD 1 ≤ 0 → FirstMax logits token.toNat
  kept : 0 < params.temperature.getD 1 → ∃ S, TopSet logits (keptCount params logits.length) S ∧ token.toNat ∈ S ∧
    ∀ p, params.topP = some p → 0 ≤ p → p < 1 →
      ∃ m order c, IsGreatest ((fun a => logit logits a/params.temperature.getD 1) '' {a | a ∈ S}) m ∧ order.Perm S ∧
        Nucleus (probOf o (fun a => logit logits a/params.temperature.getD 1) m S) p order c ∧
          token.toNat ∈ order.take c
  single : params.topK = some 1 → logits.Nodup → token = argmax logits

end Spec

section Argmax
variable {logits : List K} {i j : ℕ}

omit [LinearOrder K] in
theorem logit_append_of_lt (l : K) (h : i < logits.length) : logit (logits++[l]) i = logit logits i :=
  List.getD_append _ _ _ _ h

omit [LinearOrder K] in
theorem logit_append_length (logits : List K) (l : K) : logit (logits++[l]) logits.length = l := by
  unfold logit
  rw [List.getD_append_right _ _ _ _ le_rfl,Nat.sub_self]
  rfl

theorem FirstMax.unique (hi : FirstMax logits i) (hj : FirstMax logits j) : i = j := by
  obtain hlt | heq | hgt := Nat.lt_trichotomy i j
  · exact absurd (hj.first i hlt) (hi.largest j hj.valid).not_gt
  · exact heq
  · exact absurd (hi.first j hgt) (hj.largest i hi.valid).not_gt

/-- A last logit that is larger than the largest is the new one. -/
theorem FirstMax.snoc_gt {l : K} (h : FirstMax logits i) (hgt : logit logits i < l) :
    FirstMax (logits++[l]) logits.length := by
  have hbelow : ∀ j < logits.length, logit (logits++[l]) j < logit (logits++[l]) logits.length := by
    intro j hj
    rw [logit_append_of_lt l hj,logit_append_length]
    exact (h.largest j hj).trans_lt hgt
  refine ⟨?_,?_,hbelow⟩
  · rw [List.length_append]
    exact Nat.lt_succ_self _
  · intro j hj
    rw [List.length_append,List.length_singleton] at hj
    obtain hlt | rfl := Nat.lt_succ_iff_lt_or_eq.mp hj
    · exact (hbelow j hlt).le
    · exact le_rfl

theorem FirstMax.snoc_le {l : K} (h : FirstMax logits i) (hle : l ≤ logit logits i) : FirstMax (logits++[l]) i := by
  refine ⟨?_,?_,?_⟩
  · rw [List.length_append]
    exact Nat.lt_add_right _ h.valid
  · intro j hj
    rw [List.length_append,List.length_singleton] at hj
    rw [logit_append_of_lt l h.valid]
    obtain hlt | rfl := Nat.lt_succ_iff_lt_or_eq.mp hj
    · rw [logit_append_of_lt l hlt]
      exact h.largest j hlt
    · rw [logit_append_length]
      exact hle
  · intro j hj
    rw [logit_append_of_lt l h.valid,logit_append_of_lt l (hj.trans h.valid)]
    exact h.first j hj

/-- The fold holds the first index of a largest logit so far. -/
theorem foldl_keepBest (logits : List K) (hne : logits ≠ []) :
    FirstMax logits (logits.zipIdx.foldl keepBest (0,⊥)).1 ∧
    (logits.zipIdx.foldl keepBest (0,⊥)).2 = logit logits (logits.zipIdx.foldl keepBest (0,⊥)).1 := by
  induction logits using List.reverseRecOn with
  | nil => exact absurd rfl hne
  | append_singleton logits l ih =>
    rw [List.zipIdx_append,List.foldl_append]
    simp only [List.zipIdx_cons,List.zipIdx_nil,List.foldl_cons,List.foldl_nil,Nat.zero_add]
    by_cases hnil : logits = []
    · subst hnil
      exact ⟨⟨Nat.one_pos,fun j hj => (congrArg _ (Nat.lt_one_iff.mp hj)).le,nofun⟩,rfl⟩
    · obtain ⟨hfirst,hvalue⟩ := ih hnil
      rw [keepBest]
      dsimp only
      rw [hvalue]
      split
      case isTrue hgt =>
        refine ⟨hfirst.snoc_gt (WithBot.coe_lt_coe.mp hgt),?_⟩
        rw [logit_append_length]
      case isFalse hle =>
        refine ⟨hfirst.snoc_le (WithBot.coe_le_coe.mp (not_lt.mp hle)),?_⟩
        rw [hvalue,logit_append_of_lt l hfirst.valid]

theorem argmaxIndex_firstMax (hne : logits ≠ []) : FirstMax logits (argmaxIndex logits) :=
  (foldl_keepBest logits hne).1

theorem argmax_firstMax (hne : logits ≠ []) (hlen : logits.length ≤ 2^32) :
    FirstMax logits (argmax logits).toNat := by
  have hfirst := argmaxIndex_firstMax hne
  unfold argmax
  rwa [UInt32.toNat_ofNat_of_lt' (hfirst.valid.trans_le hlen)]

end Argmax

end RakkaInference.Ort
