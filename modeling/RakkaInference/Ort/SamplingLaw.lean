import Mathlib.Algebra.BigOperators.Ring.List
import Mathlib.Algebra.Order.Ring.Rat
import Mathlib.Tactic.Linarith
import RakkaInference.Ort.Sampling

/-! Each stage of sampling reorders or drops pairs of a token and a weight, and every token keeps its own weight. -/
namespace RakkaInference.Ort

section Pairs
variable {V : Type*} {f : ℕ → V} {xs ys : List (UInt32 × V)}

/-- The tokens of a list of pairs, as indices. -/
def ids (xs : List (UInt32 × V)) : List ℕ := xs.map fun e => e.1.toNat

/-- Each token is with its own weight. -/
def Tagged (f : ℕ → V) (xs : List (UInt32 × V)) : Prop := ∀ e ∈ xs, e.2 = f e.1.toNat

theorem mem_ids_iff {a : ℕ} : a ∈ ids xs ↔ ∃ e ∈ xs, e.1.toNat = a := List.mem_map

theorem ids_take (c : ℕ) (xs : List (UInt32 × V)) : ids (xs.take c) = (ids xs).take c := List.map_take

theorem ids_map (w : V → V) (xs : List (UInt32 × V)) : ids (xs.map fun e => (e.1,w e.2)) = ids xs := by
  unfold ids
  rw [List.map_map]
  rfl

theorem Tagged.weights (h : Tagged f xs) : xs.map (·.2) = (ids xs).map f := by
  unfold ids
  rw [List.map_map]
  exact List.map_congr_left h

theorem Tagged.subset (h : Tagged f xs) (hsub : ys ⊆ xs) : Tagged f ys := fun e he => h e (hsub he)

theorem Tagged.map (h : Tagged f xs) (w : V → V) : Tagged (fun a => w (f a)) (xs.map fun e => (e.1,w e.2)) := by
  intro e he
  obtain ⟨e',he',rfl⟩ := List.mem_map.mp he
  exact congrArg w (h e' he')

end Pairs

variable {K Rng : Type*}

section Scale
variable [Field K]

theorem length_scale (logits : List K) (temperature : K) : (scale logits temperature).length = logits.length := by
  unfold scale
  rw [List.length_map,List.length_zipIdx]

theorem ids_scale (logits : List K) (temperature : K) (hlen : logits.length ≤ 2^32) :
    ids (scale logits temperature) = List.range logits.length := by
  unfold ids scale
  rw [List.map_map,List.range_eq_range',← List.zipIdx_map_snd 0 logits]
  apply List.map_congr_left
  rintro ⟨l,i⟩ hli
  exact UInt32.toNat_ofNat_of_lt' ((List.mem_zipIdx' hli).1.trans_le hlen)

theorem tagged_scale (logits : List K) (temperature : K) (hlen : logits.length ≤ 2^32) :
    Tagged (fun a => logit logits a/temperature) (scale logits temperature) := by
  intro e he
  obtain ⟨⟨l,i⟩,hli,rfl⟩ := List.mem_map.mp he
  have hi : (UInt32.ofNat i).toNat = i := UInt32.toNat_ofNat_of_lt' ((List.mem_zipIdx' hli).1.trans_le hlen)
  have hl : logit logits i = l := by
    unfold logit
    rw [List.getD_eq_getElem?_getD,List.mem_zipIdx_iff_getElem?.mp hli]
    rfl
  dsimp only
  rw [hi,hl]

end Scale

theorem descending_ne_gt_iff [LinearOrder K] {a b : UInt32 × K} : descending a b ≠ .gt ↔ b.2 ≤ a.2 := by
  unfold descending
  rw [ne_eq,compare_gt_iff_gt,not_lt]

theorem pairwise_mergeSort_descending [LinearOrder K] (xs : List (UInt32 × K)) :
    (xs.mergeSort fun a b => descending a b ≠ .gt).Pairwise fun a b => b.2 ≤ a.2 := by
  refine (List.pairwise_mergeSort ?_ ?_ xs).imp fun hab => descending_ne_gt_iff.mp (of_decide_eq_true hab)
  · intro a b c hab hbc
    rw [decide_eq_true_iff,descending_ne_gt_iff] at hab hbc ⊢
    exact hbc.trans hab
  · intro a b
    rw [Bool.or_eq_true,decide_eq_true_iff,decide_eq_true_iff,descending_ne_gt_iff,descending_ne_gt_iff]
    exact le_total _ _

theorem keptCount_pos (params : SampleParams K) {n : ℕ} (hn : 0 < n) : 0 < keptCount params n := by
  unfold keptCount
  split
  case h_1 k _ =>
    split
    case isTrue hk => exact UInt32.lt_iff_toNat_lt.mp hk.2
    case isFalse => exact hn
  case h_2 => exact hn

theorem keptCount_one {params : SampleParams K} (h : params.topK = some 1) {n : ℕ} (hn : 0 < n) :
    keptCount params n = 1 := by
  unfold keptCount
  rw [h]
  dsimp only
  split
  case isTrue => rfl
  case isFalse hsmall =>
    have hle : ¬(1 : UInt32).toNat < n := fun hlt => hsmall ⟨hlt,by decide⟩
    exact Nat.le_antisymm (not_lt.mp hle) hn

variable [Field K] [LinearOrder K]

section TopK
variable {logits : List K} {temperature : K}

theorem topSet_range (logits : List K) : TopSet logits logits.length (List.range logits.length) where
  nodup := List.nodup_range
  length := List.length_range
  valid _ := List.mem_range.mp
  top _ _ _ hb hnot := absurd (List.mem_range.mpr hb) hnot

variable [IsStrictOrderedRing K]

/-- The tokens before the index of the selection have the largest logits. -/
theorem topSet_select (o : SamplingOutside K Rng) (hlen : logits.length ≤ 2^32) (htemp : 0 < temperature) {k : ℕ}
    (hk : 0 < k) (hlt : k < logits.length) :
    TopSet logits k (ids ((o.selectNthUnstableBy descending (k-1) (scale logits temperature)).take k)) := by
  have hperm := o.select_perm (k-1) (scale logits temperature)
  have hids : (ids (o.selectNthUnstableBy descending (k-1) (scale logits temperature))).Perm
      (List.range logits.length) :=
    ids_scale logits temperature hlen ▸ hperm.map _
  have htagged : Tagged (fun a => logit logits a/temperature)
      (o.selectNthUnstableBy descending (k-1) (scale logits temperature)) :=
    (tagged_scale logits temperature hlen).subset hperm.subset
  have hk' : k-1 < (scale logits temperature).length := by
    rw [length_scale]
    exact (Nat.sub_le k 1).trans_lt hlt
  have hplace := o.select_place (k-1) (scale logits temperature) hk'
  rw [Nat.sub_add_cancel hk] at hplace
  rw [ids_take]
  constructor
  case nodup => exact (hids.nodup_iff.mpr List.nodup_range).sublist (List.take_sublist _ _)
  case length =>
    rw [List.length_take,hids.length_eq,List.length_range]
    exact Nat.min_eq_left hlt.le
  case valid => exact fun a ha => List.mem_range.mp (hids.subset (List.mem_of_mem_take ha))
  case top =>
    intro a ha b hb hnot
    rw [← ids_take] at ha hnot
    have hb' := hids.symm.subset (List.mem_range.mpr hb)
    obtain ⟨ea,hea,rfl⟩ := mem_ids_iff.mp ha
    obtain ⟨eb,heb,rfl⟩ := mem_ids_iff.mp hb'
    rw [← List.take_append_drop k (o.selectNthUnstableBy descending (k-1) (scale logits temperature)),
      List.mem_append] at heb
    obtain hbefore | hbehind := heb
    · exact absurd (mem_ids_iff.mpr ⟨eb,hbefore,rfl⟩) hnot
    · have hle := descending_ne_gt_iff.mp (hplace ea hea eb hbehind)
      rw [htagged ea (List.mem_of_mem_take hea),htagged eb (List.mem_of_mem_drop hbehind)] at hle
      exact (div_le_div_iff_of_pos_right htemp).mp hle

/-- The tokens that are kept have the largest logits. -/
theorem topSet_truncateTopK (o : SamplingOutside K Rng) (params : SampleParams K) (hlen : logits.length ≤ 2^32)
    (htemp : 0 < temperature) :
    TopSet logits (keptCount params logits.length) (ids (truncateTopK o params.topK (scale logits temperature))) ∧
    Tagged (fun a => logit logits a/temperature) (truncateTopK o params.topK (scale logits temperature)) := by
  have hall : TopSet logits logits.length (ids (scale logits temperature)) := by
    rw [ids_scale logits temperature hlen]
    exact topSet_range logits
  unfold truncateTopK keptCount
  cases params.topK with
  | none => exact ⟨hall,tagged_scale logits temperature hlen⟩
  | some k =>
    dsimp only
    rw [length_scale]
    split
    case isTrue hk =>
      refine ⟨topSet_select o hlen htemp (UInt32.lt_iff_toNat_lt.mp hk.2) hk.1,?_⟩
      exact (tagged_scale logits temperature hlen).subset fun e he =>
        (o.select_perm _ _).subset (List.mem_of_mem_take he)
    case isFalse => exact ⟨hall,tagged_scale logits temperature hlen⟩

end TopK

section Softmax
variable [IsStrictOrderedRing K] {f : ℕ → K} {xs : List (UInt32 × K)}

omit [Field K] [IsStrictOrderedRing K] in
theorem foldl_max (xs : List K) (hne : xs ≠ []) :
    ∃ m : K, xs.foldl (fun (m : WithBot K) (l : K) => max m l) ⊥ = m ∧ IsGreatest {x | x ∈ xs} m := by
  induction xs using List.reverseRecOn with
  | nil => exact absurd rfl hne
  | append_singleton xs x ih =>
    rw [List.foldl_append,List.foldl_cons,List.foldl_nil]
    by_cases hnil : xs = []
    · subst hnil
      refine ⟨x,rfl,List.mem_singleton_self x,?_⟩
      intro y hy
      exact (List.mem_singleton.mp hy).le
    · obtain ⟨m,hm,hmem,hle⟩ := ih hnil
      refine ⟨max m x,?_,?_,?_⟩
      · rw [hm]
        rfl
      · rw [Set.mem_ofPred_eq,List.mem_append,List.mem_singleton]
        cases max_choice m x with
        | inl hleft =>
          rw [hleft]
          exact .inl hmem
        | inr hright => exact .inr hright
      · intro y hy
        rw [Set.mem_ofPred_eq,List.mem_append,List.mem_singleton] at hy
        cases hy with
        | inl hbefore => exact le_max_of_le_left (hle hbefore)
        | inr hlast => exact hlast.le.trans (le_max_right m x)

theorem sum_exp_pos (o : SamplingOutside K Rng) (f : ℕ → K) (m : K) {S : List ℕ} (hne : S ≠ []) :
    0 < (S.map fun b => o.exp (f b-m)).sum := by
  apply List.sum_pos
  · intro x hx
    obtain ⟨b,-,rfl⟩ := List.mem_map.mp hx
    exact o.exp_pos _
  · rwa [ne_eq,List.map_eq_nil_iff]

/-- The probabilities of a set that is not empty have the sum one. -/
theorem sum_probOf (o : SamplingOutside K Rng) (f : ℕ → K) (m : K) {S : List ℕ} (hne : S ≠ []) :
    (S.map (probOf o f m S)).sum = 1 := by
  unfold probOf
  simp only [div_eq_mul_inv]
  rw [List.sum_map_mul_right]
  exact mul_inv_cancel₀ (sum_exp_pos o f m hne).ne'

/-- Each token gets its probability among those that are kept. -/
theorem softmax_tagged (o : SamplingOutside K Rng) (h : Tagged f xs) (hne : xs ≠ []) :
    ∃ m, IsGreatest (f '' {a | a ∈ ids xs}) m ∧ ids (softmax o xs) = ids xs ∧
      Tagged (probOf o f m (ids xs)) (softmax o xs) := by
  have hweights : xs.map (·.2) ≠ [] := by rwa [ne_eq,List.map_eq_nil_iff]
  obtain ⟨m,hm,hgreatest⟩ := foldl_max _ hweights
  have hids : ids xs ≠ [] := by
    unfold ids
    rwa [ne_eq,List.map_eq_nil_iff]
  have hexps := h.map fun l => o.exp (l-m)
  have hexpIds := ids_map (fun l => o.exp (l-m)) xs
  have hsum : ((xs.map fun e => (e.1,o.exp (e.2-m))).map (·.2)).sum = ((ids xs).map fun b => o.exp (f b-m)).sum := by
    rw [hexps.weights,hexpIds]
  have hsoftmax : softmax o xs = (xs.map fun e => (e.1,o.exp (e.2-m))).map fun e =>
      (e.1,e.2/((ids xs).map fun b => o.exp (f b-m)).sum) := by
    unfold softmax
    rw [hm,← hsum]
    exact if_pos (hsum ▸ sum_exp_pos o f m hids)
  refine ⟨m,?_,?_,?_⟩
  · rw [h.weights] at hgreatest
    convert hgreatest using 1
    ext x
    simp
  · rw [hsoftmax]
    exact (ids_map (fun w => w/((ids xs).map fun b => o.exp (f b-m)).sum) _).trans hexpIds
  · rw [hsoftmax]
    exact hexps.map fun w => w/((ids xs).map fun b => o.exp (f b-m)).sum

end Softmax

section TopP
variable {p : K} {xs : List (UInt32 × K)}

/-- Where a cutoff is found the mass is reached there for the first time. -/
theorem cutoff_eq_some (xs : List (UInt32 × K)) : ∀ acc i c, cutoff p acc i xs = some c →
    ∃ d, c = i+d ∧ 0 < d ∧ p ≤ acc+((xs.take d).map (·.2)).sum ∧
      ∀ d', 0 < d' → d' < d → acc+((xs.take d').map (·.2)).sum < p := by
  induction xs with
  | nil => exact nofun
  | cons e xs ih =>
    obtain ⟨t,prob⟩ := e
    intro acc i c h
    unfold cutoff at h
    split at h
    case isTrue hle =>
      refine ⟨1,(Option.some.inj h).symm,Nat.one_pos,?_,fun d' hpos hlt => absurd hpos (by omega)⟩
      simpa using hle
    case isFalse hlt =>
      obtain ⟨d,rfl,hd,hreaches,hshort⟩ := ih _ _ _ h
      refine ⟨d+1,by omega,Nat.succ_pos d,?_,?_⟩
      · rw [List.take_succ_cons,List.map_cons,List.sum_cons,← add_assoc]
        exact hreaches
      · intro d' hpos hd'
        obtain ⟨d',rfl⟩ := Nat.exists_eq_succ_of_ne_zero hpos.ne'
        rw [Nat.succ_eq_add_one,List.take_succ_cons,List.map_cons,List.sum_cons,← add_assoc]
        by_cases hzero : d' = 0
        · subst hzero
          simpa using hlt
        · exact hshort d' (Nat.pos_of_ne_zero hzero) (by omega)

theorem cutoff_eq_none (xs : List (UInt32 × K)) : ∀ acc i, xs ≠ [] → cutoff p acc i xs = none →
    acc+(xs.map (·.2)).sum < p := by
  induction xs with
  | nil => exact fun _ _ hne => absurd rfl hne
  | cons e xs ih =>
    obtain ⟨t,prob⟩ := e
    intro acc i _ h
    unfold cutoff at h
    split at h
    case isTrue => exact nomatch h
    case isFalse hlt =>
      rw [List.map_cons,List.sum_cons,← add_assoc]
      by_cases hnil : xs = []
      · subst hnil
        simpa using hlt
      · exact ih _ _ hnil h

theorem ids_renormalise (xs : List (UInt32 × K)) : ids (renormalise xs) = ids xs := by
  unfold renormalise
  dsimp only
  split
  · exact ids_map (fun w => w/(xs.map (·.2)).sum) xs
  · rfl

/-- The tokens that are left are the shortest prefix that has the mass. -/
theorem truncateTopP_nucleus {prob : ℕ → K} (h : Tagged prob xs) (hsum : ((ids xs).map prob).sum = 1) (hne : xs ≠ [])
    (hp : 0 ≤ p) (hp' : p < 1) :
    ∃ order c, order.Perm (ids xs) ∧ Nucleus prob p order c ∧ ids (truncateTopP (some p) xs) = order.take c := by
  have hperm := List.mergeSort_perm xs fun a b => descending a b ≠ .gt
  have hsorted := pairwise_mergeSort_descending xs
  have htrunc : truncateTopP (some p) xs = renormalise ((xs.mergeSort fun a b => descending a b ≠ .gt).take
      ((cutoff p 0 0 (xs.mergeSort fun a b => descending a b ≠ .gt)).getD
        (xs.mergeSort fun a b => descending a b ≠ .gt).length)) := if_pos ⟨hp,hp'⟩
  generalize (xs.mergeSort fun a b => descending a b ≠ .gt) = ys at hperm hsorted htrunc
  have htagged : Tagged prob ys := h.subset hperm.subset
  have hids : (ids ys).Perm (ids xs) := hperm.map _
  have hne' : ys ≠ [] := fun hnil => hne (hnil ▸ hperm).nil_eq.symm
  cases hcut : cutoff p 0 0 ys with
  | none =>
    have hlt := cutoff_eq_none ys 0 0 hne' hcut
    rw [zero_add,htagged.weights,(hids.map prob).sum_eq,hsum] at hlt
    exact absurd hlt hp'.not_gt
  | some c =>
    obtain ⟨d,hd,hpos,hreaches,hshort⟩ := cutoff_eq_some ys 0 0 c hcut
    rw [zero_add] at hd
    subst hd
    have hmass : ∀ n, ((ys.take n).map (·.2)).sum = (((ids ys).take n).map prob).sum := by
      intro n
      rw [(htagged.subset (List.take_subset n ys)).weights,ids_take]
    refine ⟨ids ys,c,hids,⟨?_,hpos,?_,?_⟩,?_⟩
    · unfold ids
      rw [List.pairwise_map]
      apply hsorted.imp_of_mem
      intro a b ha hb hab
      rwa [htagged a ha,htagged b hb] at hab
    · rw [← hmass,← zero_add (List.sum _)]
      exact hreaches
    · intro c' hpos' hlt
      rw [← hmass,← zero_add (List.sum _)]
      exact hshort c' hpos' hlt
    · rw [htrunc,hcut,Option.getD_some,ids_renormalise,ids_take]

/-- The shortest prefix is not empty. -/
theorem truncateTopP_ne_nil {prob : ℕ → K} (topP : Option K) (h : Tagged prob xs)
    (hsum : ((ids xs).map prob).sum = 1) (hne : xs ≠ []) : truncateTopP topP xs ≠ [] := by
  cases topP with
  | none => exact hne
  | some p =>
    by_cases hp : 0 ≤ p ∧ p < 1
    · obtain ⟨order,c,hperm,hnucleus,hids⟩ := truncateTopP_nucleus h hsum hne hp.1 hp.2
      intro hnil
      rw [hnil] at hids
      cases List.take_eq_nil_iff.mp hids.symm with
      | inl hzero => exact absurd hzero hnucleus.pos.ne'
      | inr horder =>
        rw [horder] at hperm
        exact hne (List.map_eq_nil_iff.mp hperm.nil_eq.symm)
    · rw [truncateTopP,if_neg hp]
      exact hne

/-- No stage brings a token back. -/
theorem ids_truncateTopP_subset (topP : Option K) (xs : List (UInt32 × K)) :
    ids (truncateTopP topP xs) ⊆ ids xs := by
  unfold truncateTopP
  split
  case h_1 p =>
    split
    case isTrue =>
      dsimp only
      rw [ids_renormalise,ids_take]
      intro a ha
      exact ((List.mergeSort_perm xs _).map _).subset (List.mem_of_mem_take ha)
    case isFalse => exact fun _ ha => ha
  case h_2 => exact fun _ ha => ha

end TopP

section Sample
variable {logits : List K}

theorem sampleNext_of_cold (o : SamplingOutside K Rng) (logits : List K) (params : SampleParams K) (rng : Rng)
    (h : params.temperature.getD 1 ≤ 0) : sampleNext o logits params rng = some (argmax logits,rng) := if_pos h

/-- The draw gives one of the tokens that are left. -/
theorem draw_mem (o : SamplingOutside K Rng) (logits : List K) (rng : Rng) {probs : List (UInt32 × K)}
    (hne : probs ≠ []) :
    ∃ e ∈ probs, ∃ rng', (match o.weightedIndex (probs.map (·.2)) with
      | some dist => probs[(dist rng).1]?.map fun e => (e.1,(dist rng).2)
      | none => some ((probs.head?.map (·.1)).getD (argmax logits),rng)) = some (e.1,rng') := by
  cases hdist : o.weightedIndex (probs.map (·.2)) with
  | none =>
    cases probs with
    | nil => exact absurd rfl hne
    | cons e probs => exact ⟨e,List.mem_cons_self,rng,rfl⟩
  | some dist =>
    obtain ⟨w,hw,-⟩ := o.weighted_pos _ dist rng hdist
    rw [List.getElem?_map,Option.map_eq_some_iff] at hw
    obtain ⟨e,he,-⟩ := hw
    refine ⟨e,List.mem_of_getElem? he,(dist rng).2,?_⟩
    dsimp only
    rw [he]
    rfl

/-- A single token with the largest logit is the greedy one, where no logit comes twice. -/
theorem TopSet.argmax {S : List ℕ} (h : TopSet logits 1 S) (hlen : logits.length ≤ 2^32) (hdistinct : logits.Nodup)
    {token : UInt32} (htoken : token.toNat ∈ S) : token = argmax logits := by
  obtain ⟨a,rfl⟩ := List.length_eq_one_iff.mp h.length
  have ha := List.mem_singleton.mp htoken
  have hvalid : token.toNat < logits.length := ha ▸ h.valid a List.mem_cons_self
  have hlogit : ∀ {j} (hj : j < logits.length), logit logits j = logits[j] := fun hj => List.getD_eq_getElem _ _ hj
  have hlt : ∀ j < logits.length, j ≠ token.toNat → logit logits j < logit logits token.toNat := by
    intro j hj hne
    have hle := h.top a List.mem_cons_self j hj fun hmem => hne ((List.mem_singleton.mp hmem).trans ha.symm)
    rw [← ha] at hle
    refine hle.lt_of_ne ?_
    rw [hlogit hj,hlogit hvalid]
    exact fun heq => hne (hdistinct.getElem_inj_iff.mp heq)
  have hfirst : FirstMax logits token.toNat := by
    refine ⟨hvalid,?_,fun j hj => hlt j (hj.trans hvalid) hj.ne⟩
    intro j hj
    by_cases heq : j = token.toNat
    · exact (congrArg _ heq).le
    · exact (hlt j hj heq).le
  have hne : logits ≠ [] := List.ne_nil_of_length_pos (Nat.zero_lt_of_lt hvalid)
  exact UInt32.toNat_inj.mp (hfirst.unique (argmax_firstMax hne hlen))

variable [IsStrictOrderedRing K]

/-- A token is always sampled, and it is one that the parameters allow. -/
theorem sample_next_law (o : SamplingOutside K Rng) (logits : List K) (params : SampleParams K) (rng : Rng)
    (hne : logits ≠ []) (hlen : logits.length ≤ 2^32) :
    ∃ token rng', sampleNext o logits params rng = some (token,rng') ∧ SampleLaw o logits params token := by
  by_cases htemp : params.temperature.getD 1 ≤ 0
  · have hfirst := argmax_firstMax hne hlen
    refine ⟨argmax logits,rng,sampleNext_of_cold o logits params rng htemp,hfirst.valid,fun _ => hfirst,?_,
      fun _ _ => rfl⟩
    exact fun hpos => absurd htemp hpos.not_ge
  · have hpos := not_le.mp htemp
    have hlength := List.length_pos_iff.mpr hne
    obtain ⟨htop,htagged⟩ := topSet_truncateTopK o params hlen hpos
    have hsample : sampleNext o logits params rng = _ := if_neg htemp
    generalize truncateTopK o params.topK (scale logits (params.temperature.getD 1)) = kept at htop htagged hsample
    have hids : ids kept ≠ [] := by
      rw [← List.length_pos_iff,htop.length]
      exact keptCount_pos params hlength
    have hkept : kept ≠ [] := fun hnil => hids (congrArg ids hnil)
    obtain ⟨m,hm,hsoft,hprob⟩ := softmax_tagged o htagged hkept
    have hsum : ((ids (softmax o kept)).map
        (probOf o (fun a => logit logits a/params.temperature.getD 1) m (ids kept))).sum = 1 := by
      rw [hsoft]
      exact sum_probOf o _ m hids
    have hsoftne : softmax o kept ≠ [] := fun hnil => hids (hsoft ▸ congrArg ids hnil)
    obtain ⟨e,he,rng',hdraw⟩ := draw_mem o logits rng (truncateTopP_ne_nil params.topP hprob hsum hsoftne)
    have hmem : e.1.toNat ∈ ids (truncateTopP params.topP (softmax o kept)) := mem_ids_iff.mpr ⟨e,he,rfl⟩
    have hS : e.1.toNat ∈ ids kept := hsoft ▸ ids_truncateTopP_subset _ _ hmem
    refine ⟨e.1,rng',hsample.trans hdraw,htop.valid _ hS,fun hle => absurd hle htemp,?_,?_⟩
    · refine fun _ => ⟨ids kept,htop,hS,?_⟩
      intro p hp hzero hone
      obtain ⟨order,c,hperm,hnucleus,hleft⟩ := truncateTopP_nucleus hprob hsum hsoftne hzero hone
      rw [hp,hleft] at hmem
      rw [hsoft] at hperm
      exact ⟨m,order,c,hm,hperm,hnucleus,hmem⟩
    · intro htopK hdistinct
      rw [keptCount_one htopK hlength] at htop
      exact htop.argmax hlen hdistinct hS

end Sample

section Rational

/-- A function on the rationals that rises and is positive, and is one at zero. -/
def risingExp (x : ℚ) : ℚ := if x ≤ 0 then 1/(1-x) else 1+x

theorem risingExp_pos (x : ℚ) : 0 < risingExp x := by
  unfold risingExp
  split
  case isTrue h => exact one_div_pos.mpr (by linarith)
  case isFalse h => linarith

theorem risingExp_strictMono : StrictMono risingExp := by
  intro x y hlt
  unfold risingExp
  split
  case isTrue hx =>
    split
    case isTrue hy => exact one_div_lt_one_div_of_lt (by linarith) (by linarith)
    case isFalse hy =>
      have hle : 1/(1-x) ≤ 1 := (div_le_one (by linarith)).mpr (by linarith)
      linarith
  case isFalse hx =>
    rw [if_neg (by linarith)]
    linarith

/-- A selection that sorts, and a draw that takes the first weight that is positive. -/
def rationalOutside : SamplingOutside ℚ Unit where
  exp := risingExp
  exp_pos := risingExp_pos
  exp_strictMono := risingExp_strictMono
  selectNthUnstableBy cmp _ xs := xs.mergeSort fun a b => cmp a b ≠ .gt
  select_perm _ xs := List.mergeSort_perm xs _
  select_place index xs _ a ha b hb := by
    have hsorted := pairwise_mergeSort_descending xs
    rw [← List.take_append_drop (index+1) (xs.mergeSort _),List.pairwise_append] at hsorted
    exact descending_ne_gt_iff.mpr (hsorted.2.2 a ha b hb)
  weightedIndex weights := (weights.findIdx? (0 < ·)).map fun i rng => (i,rng)
  weighted_pos weights dist rng h := by
    obtain ⟨i,hi,rfl⟩ := Option.map_eq_some_iff.mp h
    obtain ⟨hlt,hpos,-⟩ := List.findIdx?_eq_some_iff_getElem.mp hi
    exact ⟨weights[i],List.getElem?_eq_getElem hlt,of_decide_eq_true hpos⟩

theorem sample_next_law_single :
    ∃ token rng', sampleNext rationalOutside [1,3] { topK := some 1 } () = some (token,rng') ∧
    SampleLaw rationalOutside [1,3] { topK := some 1 } token :=
  sample_next_law rationalOutside [1,3] { topK := some 1 } () (List.cons_ne_nil _ _) (by decide)

/-- The index of the only largest logit is no token. -/
theorem argmaxIndex_replicate {n : ℕ} (hn : 0 < n) : argmaxIndex (List.replicate n (0 : ℚ)++[1]) = n := by
  have hlogit : ∀ j < n, logit (List.replicate n (0 : ℚ)++[1]) j = 0 := by
    intro j hj
    rw [logit_append_of_lt 1 (by rwa [List.length_replicate])]
    unfold logit
    rw [List.getD_eq_getElem _ _ (by rwa [List.length_replicate]),List.getElem_replicate]
  have hlast : logit (List.replicate n (0 : ℚ)++[1]) n = 1 := by
    have h := logit_append_length (List.replicate n (0 : ℚ)) 1
    rwa [List.length_replicate] at h
  have hlength : (List.replicate n (0 : ℚ)++[1]).length = n+1 := by
    rw [List.length_append,List.length_replicate,List.length_singleton]
  have hfirst : FirstMax (List.replicate n (0 : ℚ)++[1]) n := by
    refine ⟨by omega,?_,?_⟩
    · intro j hj
      rw [hlast]
      obtain hlt | rfl := Nat.lt_succ_iff_lt_or_eq.mp (hj.trans_eq hlength)
      · rw [hlogit j hlt]
        exact zero_le_one
      · exact hlast.le
    · intro j hj
      rw [hlogit j hj,hlast]
      exact zero_lt_one
  exact (argmaxIndex_firstMax (by simp)).unique hfirst

theorem not_greedy_of_wraps {n : ℕ} (hn : 0 < n) (hwraps : n % 2^32 = 0) :
    ¬∃ token rng', sampleNext rationalOutside (List.replicate n 0++[1]) { temperature := some 0 } () =
      some (token,rng') ∧
      SampleLaw rationalOutside (List.replicate n 0++[1]) { temperature := some 0 } token := by
  rintro ⟨token,rng',hsample,hlaw⟩
  have htoken : argmax (List.replicate n (0 : ℚ)++[1]) = token := by
    have h := sampleNext_of_cold rationalOutside (List.replicate n (0 : ℚ)++[1]) { temperature := some 0 } () le_rfl
    exact (Prod.mk.inj (Option.some.inj (h.symm.trans hsample))).1
  have hmax := hlaw.greedy le_rfl
  have hindex := hmax.unique (argmaxIndex_firstMax (by simp))
  rw [argmaxIndex_replicate hn,← htoken,argmax,argmaxIndex_replicate hn,UInt32.toNat_ofNat',hwraps] at hindex
  exact hn.ne hindex

/-- The index of the largest of more than `2^32` logits is cut to 32 bits. -/
theorem sample_next_law_fails_above_u32 :
    ¬∃ token rng', sampleNext rationalOutside (List.replicate (2^32) 0++[1]) { temperature := some 0 } () =
        some (token,rng') ∧
      SampleLaw rationalOutside (List.replicate (2^32) 0++[1]) { temperature := some 0 } token :=
  not_greedy_of_wraps (by decide) (by decide)

end Rational

end RakkaInference.Ort
