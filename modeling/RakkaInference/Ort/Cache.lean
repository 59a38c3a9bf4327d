import RakkaInference.Machine.Results
import RakkaInference.Ort.Generate

/-! The cache of keys and values against the tokens that have been fed. -/
namespace RakkaInference.Ort
open Machine
variable {Rng : Type} {out : Outside Rng} {args : Args} {s t u v : State Rng} {id : UInt32} {rng : Rng}
  {cur : List ℤ} {inputs : StepInputs}

def fedIds (fed : List StepInputs) : List ℤ := fed.flatMap (·.inputIds.data)

def fedPositions (fed : List StepInputs) : List ℤ := fed.flatMap fun f => (f.positionIds.map Tensor.data).getD []

def asIds (ids : List UInt32) : List ℤ := ids.map fun t => (t.toNat : ℤ)

/-- The buffers of a layer are those of so many positions. -/
def Holds (args : Args) (positions : ℕ) (kv : List Float32 × List Float32) : Prop :=
  kv.1.length = args.kvHeads*positions*args.headDim ∧ kv.2.length = args.kvHeads*positions*args.headDim

/-- A mask of ones for so many positions, for a model that has one. -/
def onesFor (args : Args) (positions : ℕ) : Option (Tensor ℤ) :=
  if args.topo.attentionMaskName.isSome then some ⟨[1,(positions : ℤ)],List.replicate positions 1⟩ else none

/-- The cache has every position that has been fed, once. -/
structure Cached (args : Args) (s : State Rng) : Prop where
  pastLen : s.pastLen = (fedIds s.fed).length
  layers : s.pastKv.length = args.topo.kvLayers.length
  buffers : ∀ kv ∈ s.pastKv, Holds args s.pastLen kv
  masks : ∀ before f after, s.fed = before++f::after →
    f.attentionMask = onesFor args ((fedIds before).length+f.inputIds.data.length)
  positions : args.topo.positionIdsName.isSome →
    fedPositions s.fed = (List.range s.pastLen).map fun (i : ℕ) => (i : ℤ)

/-- What has been fed are the ids of the prompt and all sampled ones but the last. -/
def FedAll (args : Args) (s : State Rng) : Prop :=
  s.generated args ≠ [] ∧ fedIds s.fed = asIds (args.promptIds++(s.generated args).dropLast)

/-- Every call of the session returns keys and values of the positions in the cache and those of the call. -/
def PresentForAll (out : Outside Rng) (args : Args) (rng : Rng) : Prop :=
  ∀ s cur inputs outputs, Rounds (round out args) (start args rng) s → curInput args s = some cur →
    stepInputs out args s cur = .ok inputs → out.run s.step (entries args.topo inputs) = .ok outputs →
    ∀ layer ∈ args.topo.kvLayers, ∀ name ∈ [layer.presentKeyOutput,layer.presentValueOutput], ∀ shape data,
      outputs name = some (.ok (shape,data)) → data.length = args.kvHeads*(s.pastLen+cur.length)*args.headDim

theorem tensor_eq {α : Type} {shape : List ℤ} {data : List α} {x : Tensor α} (h : tensor out shape data = .ok x) :
    x = ⟨shape,data⟩ := by
  unfold tensor at h
  split at h
  · exact (Except.ok.inj h).symm
  · exact nomatch h

theorem tensorIf_eq {name : Option String} {shape data : List ℤ} {x : Option (Tensor ℤ)}
    (h : tensorIf out name shape data = .ok x) : x = if name.isSome then some ⟨shape,data⟩ else none := by
  unfold tensorIf at h
  split at h
  case isTrue hname =>
    rw [if_pos hname]
    cases ht : tensor out shape data with
    | error e =>
      rw [ht] at h
      exact nomatch h
    | ok t =>
      rw [ht] at h
      rw [← Except.ok.inj h,tensor_eq ht]
  case isFalse hname =>
    rw [if_neg hname]
    exact (Except.ok.inj h).symm

/-- What a step feeds. -/
theorem stepInputs_eq (h : stepInputs out args s cur = .ok inputs) :
    inputs.inputIds.data = cur ∧ inputs.attentionMask = onesFor args (s.pastLen+cur.length) ∧
      (args.topo.positionIdsName.isSome →
        inputs.positionIds = some ⟨[1,(cur.length : ℤ)],
          (List.range' s.pastLen cur.length).map fun (i : ℕ) => (i : ℤ)⟩) := by
  unfold stepInputs at h
  obtain ⟨inputIds,hids,h⟩ := bind_eq_ok h
  obtain ⟨attentionMask,hmask,h⟩ := bind_eq_ok h
  obtain ⟨positionIds,hpositions,h⟩ := bind_eq_ok h
  obtain ⟨kvTensors,-,h⟩ := bind_eq_ok h
  obtain rfl := Except.ok.inj h
  refine ⟨congrArg Tensor.data (tensor_eq hids),tensorIf_eq hmask,?_⟩
  intro hname
  exact (tensorIf_eq hpositions).trans (if_pos hname)

theorem extract_eq {outputs : Outputs} {name : String} {x : List ℤ × List Float32}
    (h : extract outputs name = .ok x) : outputs name = some (.ok x) := by
  unfold extract at h
  split at h
  · exact nomatch h
  · exact nomatch h
  case h_3 y hy => rw [hy,Except.ok.inj h]

/-- The present tensors are the cache of the next step. -/
theorem presentKv_holds (hpresent : PresentForAll out args rng) (hs : Rounds (round out args) (start args rng) s)
    (hcur : curInput args s = some cur) (hinputs : stepInputs out args s cur = .ok inputs) {outputs : Outputs}
    (houtputs : out.run s.step (entries args.topo inputs) = .ok outputs)
    {newPast : List (List Float32 × List Float32)} (hkv : presentKv args outputs = .ok newPast) :
    newPast.length = args.topo.kvLayers.length ∧ ∀ kv ∈ newPast, Holds args (s.pastLen+cur.length) kv := by
  have hall := mapM_eq_ok hkv
  refine ⟨hall.length_eq.symm,?_⟩
  intro kv hmem
  obtain ⟨i,hi,rfl⟩ := List.mem_iff_getElem.mp hmem
  have hi' : i < args.topo.kvLayers.length := hall.length_eq ▸ hi
  obtain ⟨k,hk,hrest⟩ := bind_eq_ok (hall.get hi' hi)
  obtain ⟨v,hv,hsame⟩ := bind_eq_ok hrest
  have hlayer := hpresent s cur inputs outputs hs hcur hinputs houtputs _ (List.getElem_mem hi')
  have heq : (k.2,v.2) = newPast[i] := Except.ok.inj hsame
  rw [← heq]
  exact ⟨hlayer _ (by simp) _ _ (extract_eq hk),hlayer _ (by simp) _ _ (extract_eq hv)⟩

theorem sampleOutputs_ok {outputs : Outputs} {r : Sampled Rng}
    (h : sampleOutputs out args s outputs = some (.ok r)) : presentKv args outputs = .ok r.newPast := by
  unfold sampleOutputs at h
  split at h
  · exact nomatch h
  · split at h
    · exact nomatch h
    · split at h
      · exact nomatch h
      · exact nomatch h
      · cases hkv : presentKv args outputs with
        | error e =>
          rw [hkv] at h
          exact nomatch h
        | ok newPast =>
          rw [hkv] at h
          rw [← Except.ok.inj (Option.some.inj h)]

theorem fedIds_concat (fed : List StepInputs) (f : StepInputs) :
    fedIds (fed++[f]) = fedIds fed++f.inputIds.data := by
  rw [fedIds,List.flatMap_append,List.flatMap_singleton,fedIds]

/-- A step that samples keeps the cache in line with what is fed. -/
theorem Cached.forward (hc : Cached args s) (hpresent : PresentForAll out args rng)
    (hs : Rounds (round out args) (start args rng) s) (h : forward out args s = some (t,.ok id)) :
    Cached args t := by
  obtain ⟨cur,inputs,outputs,r,hcur,hinputs,houtputs,hr,-,rfl⟩ := forward_ok h
  obtain ⟨hids,hmask,hpositions⟩ := stepInputs_eq hinputs
  obtain ⟨hlayers,hholds⟩ := presentKv_holds hpresent hs hcur hinputs houtputs (sampleOutputs_ok hr)
  have hfed : (fedIds (s.fed++[inputs])).length = s.pastLen+cur.length := by
    rw [fedIds_concat,List.length_append,← hc.pastLen,hids]
  constructor
  case pastLen => exact hfed.symm
  case layers => exact hlayers
  case buffers => exact hholds
  case masks =>
    intro before f after hsplit
    change s.fed++[inputs] = _ at hsplit
    obtain rfl | ⟨after,last,rfl⟩ := List.eq_nil_or_concat' after
    · obtain ⟨rfl,hlast⟩ := List.append_inj' hsplit rfl
      obtain rfl : inputs = f := by simpa using hlast
      rw [hmask,hids,hc.pastLen]
    · rw [← List.cons_append,← List.append_assoc] at hsplit
      exact hc.masks before f after (List.append_inj' hsplit rfl).1
  case positions =>
    intro hname
    change fedPositions (s.fed++[inputs]) = (List.range (s.pastLen+cur.length)).map _
    have hold := hc.positions hname
    unfold fedPositions at hold ⊢
    rw [List.flatMap_append,hold,List.flatMap_singleton,hpositions hname,List.range_add,List.map_append,
      List.range'_eq_map_range]
    rfl

/-- At the start of a step nothing has been fed, or all but the last token. -/
def FedSoFar (args : Args) (s : State Rng) : Prop :=
  (s.step = 0 ∧ s.fed = [] ∧ s.generated args = []) ∨ (0 < s.step ∧ FedAll args s)

theorem FedSoFar.forward (hfed : FedSoFar args s) (hs : Going args s) (h : forward out args s = some (t,.ok id)) :
    FedAll args t := by
  obtain ⟨cur,inputs,outputs,r,hcur,hinputs,-,-,rfl,rfl⟩ := forward_ok h
  have hids := (stepInputs_eq hinputs).1
  have hgenerated : (({ s with fed := s.fed++[inputs] } : State Rng).push cur.length r).generated args =
      s.generated args++[r.nextId] := by
    change (s.allIds++[r.nextId]).drop _ = _
    rw [hs.ids,List.append_assoc,List.drop_left]
  unfold FedAll
  rw [hgenerated,List.dropLast_concat]
  refine ⟨List.append_ne_nil_of_right_ne_nil _ (List.cons_ne_nil _ _),?_⟩
  change fedIds (s.fed++[inputs]) = _
  rw [fedIds_concat,hids]
  unfold curInput at hcur
  obtain ⟨hstep,hnone,hnil⟩ | ⟨hstep,hne,hall⟩ := hfed
  · rw [if_pos hstep] at hcur
    rw [← Option.some.inj hcur,hnone,hnil,List.append_nil]
    rfl
  · rw [if_neg hstep.ne',hs.ids,List.getLast?_append_of_ne_nil _ hne,List.getLast?_eq_some_getLast hne] at hcur
    have hlast : asIds [(s.generated args).getLast hne] = cur := Option.some.inj hcur
    rw [hall,← hlast,asIds,asIds,← List.map_append,List.append_assoc,List.dropLast_append_getLast]
    rfl

/-- The cache and what has been fed are those of a state with the same tokens and buffers. -/
theorem Cached.congr (hc : Cached args s) (hfed : t.fed = s.fed) (hkv : t.pastKv = s.pastKv)
    (hlen : t.pastLen = s.pastLen) : Cached args t := by
  constructor
  case pastLen => rw [hlen,hfed,hc.pastLen]
  case layers => rw [hkv,hc.layers]
  case buffers =>
    rw [hkv,hlen]
    exact hc.buffers
  case masks =>
    rw [hfed]
    exact hc.masks
  case positions =>
    rw [hfed,hlen]
    exact hc.positions

theorem FedAll.congr (h : FedAll args s) (hfed : t.fed = s.fed) (hids : t.allIds = s.allIds) : FedAll args t := by
  unfold FedAll State.generated at h ⊢
  rwa [hfed,hids]

end RakkaInference.Ort
