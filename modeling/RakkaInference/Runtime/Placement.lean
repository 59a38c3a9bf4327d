import Mathlib.Data.Int.CardIntervalMod
import RakkaInference.Machine.Text
import RakkaInference.Runtime.Catalog

/-! Where the replicas of a deployment go: the backend it is for, the class of nodes that such a backend needs,
and the nodes of that class in turn. -/
namespace RakkaInference
open Machine
variable {V : Type}

namespace RuntimeConfig

def runtimeKind : RuntimeConfig V → RuntimeKind
  | vllm _ => .vllm
  | tensorRt _ => .tensorRt
  | ort _ => .ort
  | candle _ => .candle
  | cudarc _ => .cudarc
  | mistralRs _ => .mistralRs
  | openAi _ => .openAi
  | anthropic _ => .anthropic
  | gemini _ => .gemini
  | liteLlm _ => .liteLlm
  | speechToText _ => .speechToText
  | textToSpeech _ => .textToSpeech
  | realtimeSpeech _ => .realtimeSpeech
  | audio2Face _ => .audio2Face
  | custom kind _ => .custom kind

end RuntimeConfig

inductive TransportKind
  | localGpu
  | localCpu
  | remoteNetwork (provider : ProviderKind)
  | unknownTransport
  deriving DecidableEq

/-- Audio and third-party backends are left to their runners. -/
def TransportKind.ofRuntime : RuntimeKind → TransportKind
  | .openAi => .remoteNetwork .openAi
  | .anthropic => .remoteNetwork .anthropic
  | .gemini => .remoteNetwork .gemini
  | .liteLlm => .remoteNetwork .liteLlm
  | .vllm | .tensorRt | .ort | .candle | .cudarc | .mistralRs | .python _ => .localGpu
  | .speechToText | .textToSpeech | .realtimeSpeech | .audio2Face | .custom _ => .unknownTransport

/-- The backend that the name of a model speaks for. -/
def inferRuntime (model : String) : RuntimeKind :=
  let m := model.toList.map Char.toLower
  let starts (p : String) := p.toList.isPrefixOf m
  let has (p : String) := (find p.toList m).isSome
  if ["gpt-4","gpt-4o","gpt-4-turbo","gpt-3.5","o1-","o3-","chatgpt-"].any starts then .openAi
  else if starts "claude-" || starts "anthropic/" then .anthropic
  else if starts "gemini-" || starts "google/gemini" then .gemini
  else if has "via-litellm" || starts "litellm/" then .liteLlm
  else if has "mistral" then .mistralRs
  else .vllm

/-- An explicit runtime wins over the configuration, and that over the name. -/
def Deployment.effectiveRuntime (d : Deployment V) : RuntimeKind :=
  (d.runtime.or (d.runtimeConfig.map RuntimeConfig.runtimeKind)).getD (inferRuntime d.model)

structure PlacementConstraints where
  gpuNodes : List String
  cpuNodes : List String
  egressNodes : List String

structure NodeAssignment where
  replicaIndex : ℕ
  node : String
  gpus : List ℕ

structure PlacementResult where
  deployment : String
  assignments : List NodeAssignment

inductive PlacementError
  | noGpuNodes
  | noCpuNodes
  | noEgressNodes (provider : ProviderKind)
  | unknownTransport
  deriving DecidableEq

/-- One replica after the other, on the nodes in turn. -/
def assign (nodes : List String) (hn : nodes ≠ []) (gpus : List ℕ) (replicas : ℕ) : List NodeAssignment :=
  (List.range replicas).map fun i =>
    ⟨i,nodes.get ⟨i%nodes.length,Nat.mod_lt _ (List.length_pos_iff.mpr hn)⟩,gpus⟩

def place (d : Deployment V) (constraints : PlacementConstraints) : Except PlacementError PlacementResult :=
  let on (nodes : List String) (none : PlacementError) (gpus : List ℕ) : Except PlacementError PlacementResult :=
    if hn : nodes ≠ [] then .ok ⟨d.name,assign nodes hn gpus d.replicas.toNat⟩ else .error none
  match TransportKind.ofRuntime d.effectiveRuntime with
  | .localGpu => on constraints.gpuNodes .noGpuNodes (List.range (d.gpus.getD 1).toNat)
  | .remoteNetwork provider => on constraints.egressNodes (.noEgressNodes provider) []
  | .localCpu => on constraints.cpuNodes .noCpuNodes []
  | .unknownTransport => .error .unknownTransport

/-- The replicas that stand on a node of the list. -/
theorem countP_assign {nodes : List String} (hn : nodes ≠ []) (hdup : nodes.Nodup) (gpus : List ℕ) (replicas : ℕ)
    {k : ℕ} (hk : k < nodes.length) : (assign nodes hn gpus replicas).countP (fun a => a.node = nodes.get ⟨k,hk⟩) =
      replicas/nodes.length+if k < replicas%nodes.length then 1 else 0 := by
  have hpos : 0 < nodes.length := List.length_pos_iff.mpr hn
  have hturn : ∀ i, (nodes.get ⟨i%nodes.length,Nat.mod_lt _ hpos⟩ = nodes.get ⟨k,hk⟩) ↔
      i ≡ k [MOD nodes.length] := by
    intro i
    rw [hdup.get_inj_iff,Fin.mk.injEq,Nat.ModEq,Nat.mod_eq_of_lt hk]
  have hcount := Nat.count_modEq_card replicas hpos k
  rw [Nat.mod_eq_of_lt hk] at hcount
  rw [← hcount,assign,List.countP_map,Nat.count]
  apply List.countP_congr
  intro i _
  simp only [Function.comp_apply,decide_eq_true_eq]
  exact hturn i

/-- What holds of every placement. -/
structure Placed (d : Deployment V) (nodes : List String) (gpus : List ℕ) (res : PlacementResult) : Prop where
  deployment : res.deployment = d.name
  indices : res.assignments.map NodeAssignment.replicaIndex = List.range d.replicas.toNat
  ordinals : ∀ a ∈ res.assignments, a.gpus = gpus
  spread : nodes.Nodup → ∀ (k : ℕ) (hk : k < nodes.length),
    res.assignments.countP (fun a => a.node = nodes.get ⟨k,hk⟩) =
      d.replicas.toNat/nodes.length+if k < d.replicas.toNat%nodes.length then 1 else 0

theorem placed_assign (d : Deployment V) {nodes : List String} (hn : nodes ≠ []) (gpus : List ℕ) :
    Placed d nodes gpus ⟨d.name,assign nodes hn gpus d.replicas.toNat⟩ := by
  refine ⟨rfl,?_,?_,fun hdup k hk => countP_assign hn hdup gpus _ hk⟩
  · rw [assign,List.map_map]
    exact List.map_id _
  · intro a ha
    obtain ⟨i,-,rfl⟩ := List.mem_map.mp ha
    rfl

/-- The nodes that a transport can be placed on, and the ordinals each replica gets. -/
def poolOf (d : Deployment V) (constraints : PlacementConstraints) : TransportKind → Option (List String × List ℕ)
  | .localGpu => some (constraints.gpuNodes,List.range (d.gpus.getD 1).toNat)
  | .remoteNetwork _ => some (constraints.egressNodes,[])
  | .localCpu => some (constraints.cpuNodes,[])
  | .unknownTransport => none

theorem ofRuntime_ne_localCpu (k : RuntimeKind) : TransportKind.ofRuntime k ≠ .localCpu := by
  cases k <;> simp [TransportKind.ofRuntime]

/-- A name alone speaks for a backend that can be placed. -/
theorem ofRuntime_inferRuntime (model : String) :
    TransportKind.ofRuntime (inferRuntime model) ≠ .unknownTransport := by
  unfold inferRuntime
  simp only
  split
  · simp [TransportKind.ofRuntime]
  split
  · simp [TransportKind.ofRuntime]
  split
  · simp [TransportKind.ofRuntime]
  split
  · simp [TransportKind.ofRuntime]
  split <;> simp [TransportKind.ofRuntime]

/-- What holds of placing a deployment among nodes. -/
structure PlaceLaw (d : Deployment V) (constraints : PlacementConstraints) : Prop where
  placed : ∀ res, place d constraints = .ok res → ∃ nodes gpus,
    poolOf d constraints (.ofRuntime d.effectiveRuntime) = some (nodes,gpus) ∧ nodes ≠ [] ∧ Placed d nodes gpus res
  possible : ∀ nodes gpus, poolOf d constraints (.ofRuntime d.effectiveRuntime) = some (nodes,gpus) → nodes ≠ [] →
    ∃ res, place d constraints = .ok res
  byName : d.runtime = none → d.runtimeConfig = none → constraints.gpuNodes ≠ [] → constraints.egressNodes ≠ [] →
    ∃ res, place d constraints = .ok res
  noCpu : place d constraints ≠ .error .noCpuNodes

theorem place_of_pool {d : Deployment V} {constraints : PlacementConstraints} {nodes : List String} {gpus : List ℕ}
    (h : poolOf d constraints (.ofRuntime d.effectiveRuntime) = some (nodes,gpus)) (hn : nodes ≠ []) :
    place d constraints = .ok ⟨d.name,assign nodes hn gpus d.replicas.toNat⟩ := by
  unfold place
  cases ht : TransportKind.ofRuntime d.effectiveRuntime <;> rw [ht] at h <;> simp only [poolOf] at h <;> cases h
  all_goals simp only [dif_pos hn]

/-- A deployment is placed exactly when its transport is known and there are nodes for it. Its replicas are
then numbered in order and spread over the nodes in turn, so that no two nodes differ by more than one; each
gets the ordinals of its transport. No backend asks for a node without a GPU, and the name of a model alone is
always enough. -/
theorem place_law (d : Deployment V) (constraints : PlacementConstraints) : PlaceLaw d constraints := by
  have hpool : ∀ res, place d constraints = .ok res → ∃ nodes gpus,
      poolOf d constraints (.ofRuntime d.effectiveRuntime) = some (nodes,gpus) ∧ nodes ≠ [] := by
    intro res h
    unfold place at h
    cases ht : TransportKind.ofRuntime d.effectiveRuntime with
    | unknownTransport =>
      rw [ht] at h
      cases h
    | localGpu | localCpu | remoteNetwork provider =>
      rw [ht] at h
      simp only at h
      split at h
      · rename_i hn
        exact ⟨_,_,rfl,hn⟩
      · cases h
  refine ⟨?_,fun nodes gpus h hn => ⟨_,place_of_pool h hn⟩,?_,?_⟩
  · intro res h
    obtain ⟨nodes,gpus,hsome,hn⟩ := hpool res h
    rw [place_of_pool hsome hn] at h
    cases h
    exact ⟨nodes,gpus,hsome,hn,placed_assign d hn gpus⟩
  · intro hr hc hgpu hegress
    have heff : d.effectiveRuntime = inferRuntime d.model := by
      rw [Deployment.effectiveRuntime,hr,hc]
      rfl
    have hknown := ofRuntime_inferRuntime d.model
    rw [← heff] at hknown
    have hcpu := ofRuntime_ne_localCpu d.effectiveRuntime
    cases ht : TransportKind.ofRuntime d.effectiveRuntime with
    | localGpu => exact ⟨_,place_of_pool (by rw [ht]; rfl) hgpu⟩
    | remoteNetwork provider => exact ⟨_,place_of_pool (by rw [ht]; rfl) hegress⟩
    | localCpu => exact absurd ht hcpu
    | unknownTransport => exact absurd ht hknown
  · intro h
    have hcpu := ofRuntime_ne_localCpu d.effectiveRuntime
    unfold place at h
    cases ht : TransportKind.ofRuntime d.effectiveRuntime with
    | localCpu => exact hcpu ht
    | unknownTransport =>
      rw [ht] at h
      cases h
    | localGpu | remoteNetwork provider =>
      rw [ht] at h
      simp only at h
      split at h <;> cases h

/-- Five replicas on three nodes. -/
example : (place (V := Unit) ⟨"d","mistral-7b",none,none,some 2,5,{},none,true⟩ ⟨["a","b","c"],[],[]⟩).map
    (fun res => res.assignments.map fun a => (a.node,a.gpus)) =
      .ok [("a",[0,1]),("b",[0,1]),("c",[0,1]),("a",[0,1]),("b",[0,1])] := by decide

end RakkaInference
