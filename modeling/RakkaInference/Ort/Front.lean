import Mathlib.Data.List.Nodup
import RakkaInference.Ort.Cache
import RakkaInference.Ort.KvPairing

/-! What comes before the generation loop: the session is probed, the request is checked, and the prompt is made.
What gets through runs without a panic. -/
namespace RakkaInference.Ort
open Machine

inductive ValueType
  | tensor (ty : TensorElementType) (shape : List ℤ)
  | other

/-- An input or an output as the session declares it. -/
structure Outlet where
  name : String
  dtype : ValueType

inductive ModelKind
  | textGenWithKv
  | textGenStateless
  | encoderOnly
  | unknown
  deriving DecidableEq

def ModelKind.debug : ModelKind → String
  | textGenWithKv => "TextGenWithKv"
  | textGenStateless => "TextGenStateless"
  | encoderOnly => "EncoderOnly"
  | unknown => "Unknown"

/-- What the loop reads of the probed topology, and the rest. -/
structure Probed extends Topology where
  kind : ModelKind
  allInputNames : List String
  allOutputNames : List String

def lowered (s : String) : List Char := s.toList.map Char.toLower

def pickFirst (haystack needles : List String) : Option String :=
  needles.findSome? fun n => haystack.find? fun h => lowered h = lowered n

def inputIdsNames : List String := ["input_ids","inputs","tokens"]
def attentionMaskNames : List String := ["attention_mask","mask"]
def positionIdsNames : List String := ["position_ids","positions"]
def logitsNames : List String := ["logits","output","last_hidden_state"]

def elementType : ValueType → Option TensorElementType
  | .tensor ty _ => some ty
  | .other => none

def probe (D : RegexCrate) (inputs outputs : List Outlet) : Probed :=
  let inputNames := inputs.map Outlet.name
  let outputNames := outputs.map Outlet.name
  let inputIdsName := pickFirst inputNames inputIdsNames
  let logitsName := pickFirst outputNames logitsNames
  let kvLayers := pairKvLayers inputNames outputNames (pastRe D) (presentRe D)
  { inputIdsName
    attentionMaskName := pickFirst inputNames attentionMaskNames
    positionIdsName := pickFirst inputNames positionIdsNames
    logitsName
    logitsDtype := logitsName.bind fun name =>
      (outputs.find? fun o => o.name = name).bind fun o => elementType o.dtype
    kvLayers
    kind :=
      if !kvLayers.isEmpty then .textGenWithKv
      else if inputIdsName.isSome && logitsName = some "logits" then .textGenStateless
      else if inputIdsName.isSome && logitsName.isSome then .encoderOnly
      else .unknown
    allInputNames := inputNames
    allOutputNames := outputNames }

def roleWord : Role → String
  | .system => "system"
  | .user => "user"
  | .assistant => "assistant"
  | .tool => "tool"

def messageText (m : Message) : String :=
  match m.content with
  | .text s => s
  | .parts parts => "\n".intercalate <| parts.filterMap fun
    | .text text => some text
    | .imageBase64 _ _ | .imageUrl _ => none

def renderChat (messages : List Message) : Except InferenceError String :=
  if messages.isEmpty then .error (.badRequest "ort: empty messages list")
  else
    .ok (messages.foldl (fun out m => out++"<|"++roleWord m.role++"|>\n"++messageText m++"\n") ""++
      "<|assistant|>\n")

/-- The heads and the size of a head, as the first layer's keys are declared. -/
def inferKvDims (inputs : List Outlet) (topo : Topology) : Except InferenceError (ℕ × ℕ) :=
  match topo.kvLayers.head? with
  | none => .error (.internal "ort: kv_layers empty after probe — bug in topology::probe")
  | some layer =>
    match inputs.find? fun i => i.name = layer.pastKeyInput with
    | none => .error (.internal s!"ort: declared kv input '{layer.pastKeyInput}' not found on session")
    | some input =>
      match input.dtype with
      | .other => .error (.badRequest s!"ort: kv input '{layer.pastKeyInput}' is not a tensor")
      | .tensor _ [_,kvHeads,_,headDim] =>
        if kvHeads ≤ 0 ∨ headDim ≤ 0 then
          .error (.badRequest
            (s!"ort: kv input '{layer.pastKeyInput}' declares dynamic heads ({kvHeads}) or head_dim ({headDim}); "++
              "export with concrete shape on dim 1 and dim 3"))
        else .ok (kvHeads.toNat,headDim.toNat)
      | .tensor _ shape =>
        .error (.badRequest
          (s!"ort: kv input '{layer.pastKeyInput}' has rank {shape.length}, "++
            "expected 4 ([batch, kv_heads, past, head_dim])"))

/-- What the tokenizer is asked before the loop. -/
structure Tokenizer where
  encode : String → Except String (List UInt32)
  tokenToId : String → Option UInt32

/-- A session that has been loaded. The `Debug` text of a list of names is the library's. -/
structure OrtState where
  inputs : List Outlet
  outputs : List Outlet
  tokenizer : Option Tokenizer
  debugNames : List String → String

/-- The checks before the loop, and its arguments. -/
def runGeneration (D : RegexCrate) (state : OrtState) (defaultMaxNewTokens : UInt32) (batch : ExecuteBatch) :
    Except InferenceError Args :=
  let topology := probe D state.inputs state.outputs
  if topology.kind ≠ .textGenWithKv then
    .error (.badRequest
      ("ort: chat-style execute() requires a causal LM with KV cache; "++
        s!"probed kind = {topology.kind.debug}, inputs = {state.debugNames topology.allInputNames}, "++
        s!"outputs = {state.debugNames topology.allOutputNames}. "++
        "Use OrtRunner::infer for embedding / encoder / vision models."))
  else
    match state.tokenizer with
    | none =>
      .error (.badRequest
        ("ort: chat-style execute() requires a tokenizer.json — set OrtConfig::tokenizer_path or "++
          "place tokenizer.json next to the ONNX file (or enable ort-hf-hub + set hf_repo)"))
    | some tokenizer => do
      let prompt ← renderChat batch.messages
      let promptIds ← (tokenizer.encode prompt).mapError (internal "tokenizer.encode")
      if promptIds.isEmpty then .error (.badRequest "ort: tokenizer produced empty id sequence")
      else
        let (kvHeads,headDim) ← inferKvDims state.inputs topology.toTopology
        .ok (.ofBatch topology.toTopology batch promptIds kvHeads headDim defaultMaxNewTokens tokenizer.tokenToId)

section Names
variable {D : RegexCrate} {inputs outputs : List String} {layers : List KvLayer} {layer : KvLayer} {name : String}
  {i : ℕ}

theorem pickFirst_some {haystack needles : List String} (h : pickFirst haystack needles = some name) :
    name ∈ haystack ∧ ∃ n ∈ needles, lowered name = lowered n := by
  obtain ⟨n,hn,hfind⟩ := List.exists_of_findSome?_eq_some h
  have hlowered := List.find?_some hfind
  exact ⟨List.mem_of_find?_eq_some hfind,n,hn,of_decide_eq_true hlowered⟩

/-- The first two letters, in small letters. -/
def initial (name : String) : List Char := (lowered name).take 2

theorem initial_of_pickFirst {haystack needles : List String} (h : pickFirst haystack needles = some name) :
    initial name ∈ needles.map initial := by
  obtain ⟨-,n,hn,heq⟩ := pickFirst_some h
  rw [initial,heq]
  exact List.mem_map_of_mem hn

/-- A cache input starts as its pattern does. -/
theorem initial_of_readIndex {part : List Char} (h : readIndex (pastRe D) part name = some i) :
    initial name = ['p','a'] := by
  obtain ⟨digits,hcaptures⟩ : ∃ digits, captures (pastRe D) name = some (digits,part) := by
    unfold readIndex at h
    split at h
    case h_1 digits p hcaptures =>
      split at h
      case isTrue hpart =>
        rw [hpart] at hcaptures
        exact ⟨digits,hcaptures⟩
      case isFalse => cases h
    case h_2 => cases h
  have hwords : Digitless ["past_key_values","past"] := digitless_of_all _ (by decide)
  obtain ⟨word,a,b,hspells⟩ := (captures_kvRe_iff hwords).mp hcaptures
  obtain ⟨_,_,_,_,_,heq,hword,-,-,-,-,hname⟩ := spells_kvRe_iff.mp hspells
  cases heq
  unfold initial lowered
  rw [← hname,List.append_assoc]
  have hstart : ∃ rest, word = ['p','a']++rest := by
    rcases List.mem_pair.mp hword with rfl | rfl
    · exact ⟨_,rfl⟩
    · exact ⟨_,rfl⟩
  obtain ⟨rest,rfl⟩ := hstart
  rfl

/-- A name is read in one way only. -/
theorem readIndex_unique {re : Regex} {part part' : List Char} {j : ℕ} (h : readIndex re part name = some i)
    (h' : readIndex re part' name = some j) : part = part' ∧ i = j := by
  unfold readIndex at h h'
  split at h
  case h_1 digits p hcaptures =>
    rw [hcaptures] at h'
    simp only at h'
    split at h
    case isTrue hp =>
      split at h'
      case isTrue hp' =>
        cases h
        cases h'
        exact ⟨hp.symm.trans hp',rfl⟩
      case isFalse => cases h'
    case isFalse => cases h
  case h_2 => cases h

/-- The names under which a layer is fed. -/
def KvLayer.fedNames (layer : KvLayer) : List String := [layer.pastKeyInput,layer.pastValueInput]

theorem read_fedNames (h : layerAt (pastRe D) (presentRe D) inputs outputs i = some layer) :
    (layer.pastKeyInput ∈ inputs ∧ readIndex (pastRe D) "key".toList layer.pastKeyInput = some i) ∧
      layer.pastValueInput ∈ inputs ∧ readIndex (pastRe D) "value".toList layer.pastValueInput = some i :=
  ⟨mem_of_lastAs (layerAt_eq_some_iff.mp h .pastKey),mem_of_lastAs (layerAt_eq_some_iff.mp h .pastValue)⟩

theorem exists_read_of_mem (h : layerAt (pastRe D) (presentRe D) inputs outputs i = some layer)
    (hname : name ∈ layer.fedNames) : name ∈ inputs ∧ ∃ part, readIndex (pastRe D) part name = some i := by
  obtain ⟨⟨hkey,hkeyRead⟩,hvalue,hvalueRead⟩ := read_fedNames h
  rcases List.mem_pair.mp hname with rfl | rfl
  · exact ⟨hkey,_,hkeyRead⟩
  · exact ⟨hvalue,_,hvalueRead⟩

/-- No two cache inputs of the layers are the same. -/
theorem nodup_fedNames (D : RegexCrate) (inputs outputs : List String) :
    ((pairKvLayers inputs outputs (pastRe D) (presentRe D)).flatMap KvLayer.fedNames).Nodup := by
  rw [List.nodup_flatMap]
  constructor
  · intro layer hlayer
    obtain ⟨i,hi⟩ := mem_pairKvLayers_iff.mp hlayer
    obtain ⟨⟨-,hkey⟩,-,hvalue⟩ := read_fedNames hi
    have hne : layer.pastKeyInput ≠ layer.pastValueInput := by
      intro heq
      rw [heq] at hkey
      exact absurd (readIndex_unique hkey hvalue).1 (by decide)
    simpa [KvLayer.fedNames] using hne
  · rw [pairwise_pairKvLayers_iff]
    intro i j a b hij ha hb name hname hname'
    obtain ⟨-,part,hread⟩ := exists_read_of_mem ha hname
    obtain ⟨-,part',hread'⟩ := exists_read_of_mem hb hname'
    exact absurd (readIndex_unique hread hread').2 hij.ne

end Names

section Fed
variable {Rng : Type} {out : Outside Rng} {args : Args} {s : State Rng} {cur : List ℤ} {stepIn : StepInputs}
  {D : RegexCrate} {inputs outputs : List Outlet} {name : String}

theorem map_fst_zip {α β : Type} {xs : List α} {ys : List β} (h : xs.length = ys.length) :
    (xs.zip ys).map Prod.fst = xs := by
  rw [List.map_fst_zip]
  exact h.le

/-- The cache tensors go under the names of the first layers. -/
theorem kvTensors_names {tensors : List (String × Tensor Float32)} (h : kvTensors out args s = .ok tensors) :
    tensors.map Prod.fst = ((args.topo.kvLayers.zip s.pastKv).map Prod.fst).flatMap KvLayer.fedNames := by
  unfold kvTensors at h
  obtain ⟨pairs,hpairs,hflat⟩ := bind_eq_ok h
  obtain rfl := Except.ok.inj hflat
  have hall := mapM_eq_ok hpairs
  clear h hpairs hflat
  generalize args.topo.kvLayers.zip s.pastKv = zs at hall
  induction hall with
  | nil => rfl
  | @cons z pair zs pairs hpair _ ih =>
    obtain ⟨layer,k,v⟩ := z
    obtain ⟨key,-,hrest⟩ := bind_eq_ok hpair
    obtain ⟨value,-,hsame⟩ := bind_eq_ok hrest
    obtain rfl := Except.ok.inj hsame
    rw [List.flatten_cons,List.map_append,ih]
    rfl

/-- All names a call can have. -/
def callNames (topo : Topology) : List String :=
  topo.inputIdsName.getD "input_ids"::topo.attentionMaskName.toList++topo.positionIdsName.toList++
    topo.kvLayers.flatMap KvLayer.fedNames

theorem named_names {name : Option String} {shape data : List ℤ} {t : Option (Tensor ℤ)}
    (h : tensorIf out name shape data = .ok t) :
    (match name,t with
      | some name,some t => [(name,Value.i64 t)]
      | _,_ => []).map Prod.fst = name.toList := by
  rw [tensorIf_eq h]
  cases name with
  | none => rfl
  | some name => rfl

/-- A call has them all, in this order. -/
theorem entries_names (hlayers : s.pastKv.length = args.topo.kvLayers.length)
    (h : stepInputs out args s cur = .ok stepIn) :
    (entries args.topo stepIn).map Prod.fst = callNames args.topo := by
  unfold stepInputs at h
  obtain ⟨inputIds,-,h⟩ := bind_eq_ok h
  obtain ⟨attentionMask,hmask,h⟩ := bind_eq_ok h
  obtain ⟨positionIds,hpositions,h⟩ := bind_eq_ok h
  obtain ⟨tensors,htensors,h⟩ := bind_eq_ok h
  obtain rfl := Except.ok.inj h
  have hkv := kvTensors_names htensors
  rw [map_fst_zip hlayers.symm] at hkv
  unfold entries callNames
  rw [List.map_append,List.map_append,List.map_cons,List.map_map]
  have hids := congrArg (List.cons (args.topo.inputIdsName.getD "input_ids")) (named_names hmask)
  exact congrArg₂ _ (congrArg₂ _ hids (named_names hpositions)) hkv

/-- Wherever the loop comes, it has a cache for every layer. -/
theorem rounds_layers {rng : Rng} (h : Rounds (round out args) (start args rng) s) :
    s.pastKv.length = args.topo.kvLayers.length := by
  refine h.invariant (fun s t _ hround => ?_) (I := fun s => s.pastKv.length = args.topo.kvLayers.length) ?_
  case refine_2 => exact List.length_map ..
  obtain ⟨id,full,u,⟨t,hforward,-,hstream⟩,-,rfl⟩ := round_inl hround
  obtain rfl := stream_some hstream
  obtain ⟨_,_,outputs,r,-,-,-,hr,-,rfl⟩ := forward_ok hforward
  exact (mapM_eq_ok (sampleOutputs_ok hr)).length_eq.symm

/-- Lists whose members have images apart have no member in common. -/
theorem nodup_append_of_images {α β : Type} {xs ys : List α} {us vs : List β} {f : α → β} (hxs : xs.Nodup)
    (hys : ys.Nodup) (hus : ∀ x ∈ xs, f x ∈ us) (hvs : ∀ y ∈ ys, f y ∈ vs) (hapart : ∀ u ∈ us, u ∉ vs) :
    (xs++ys).Nodup := by
  rw [List.nodup_append]
  refine ⟨hxs,hys,?_⟩
  rintro x hx y hy rfl
  exact hapart _ (hus x hx) (hvs x hy)

theorem nodup_toList {α : Type} (o : Option α) : o.toList.Nodup := by
  cases o with
  | none => exact List.nodup_nil
  | some a => exact List.nodup_singleton a

theorem initial_of_mem_pick {haystack needles : List String} (h : name ∈ (pickFirst haystack needles).toList) :
    initial name ∈ needles.map initial :=
  initial_of_pickFirst (Option.mem_toList.mp h)

theorem mem_of_mem_pick {haystack needles : List String} (h : name ∈ (pickFirst haystack needles).toList) :
    name ∈ haystack :=
  (pickFirst_some (Option.mem_toList.mp h)).1

theorem initial_inputIds (D : RegexCrate) (inputs outputs : List Outlet) :
    initial ((probe D inputs outputs).inputIdsName.getD "input_ids") ∈ inputIdsNames.map initial := by
  cases h : (probe D inputs outputs).inputIdsName with
  | none => exact List.mem_cons_self
  | some name => exact initial_of_pickFirst h

theorem read_of_mem_fedNames
    (h : name ∈ (probe D inputs outputs).kvLayers.flatMap KvLayer.fedNames) :
    name ∈ inputs.map Outlet.name ∧ initial name = ['p','a'] := by
  obtain ⟨layer,hlayer,hname⟩ := List.mem_flatMap.mp h
  obtain ⟨i,hi⟩ := mem_pairKvLayers_iff.mp hlayer
  obtain ⟨hmem,part,hread⟩ := exists_read_of_mem hi hname
  exact ⟨hmem,initial_of_readIndex hread⟩

/-- No two of the names are the same. -/
theorem nodup_callNames (D : RegexCrate) (inputs outputs : List Outlet) :
    (callNames (probe D inputs outputs).toTopology).Nodup := by
  have hmask : ∀ name ∈ (probe D inputs outputs).attentionMaskName.toList,
      initial name ∈ attentionMaskNames.map initial :=
    fun _ => initial_of_mem_pick
  have hpositions : ∀ name ∈ (probe D inputs outputs).positionIdsName.toList,
      initial name ∈ positionIdsNames.map initial :=
    fun _ => initial_of_mem_pick
  have hkv : ∀ name ∈ (probe D inputs outputs).kvLayers.flatMap KvLayer.fedNames, initial name ∈ [['p','a']] :=
    fun _ hname => List.mem_singleton.mpr (read_of_mem_fedNames hname).2
  have hids : ∀ name ∈ [(probe D inputs outputs).inputIdsName.getD "input_ids"],
      initial name ∈ inputIdsNames.map initial := by
    intro name hname
    rw [List.mem_singleton.mp hname]
    exact initial_inputIds D inputs outputs
  have hfirst := nodup_append_of_images (List.nodup_singleton _) (nodup_toList _) hids hmask (by decide)
  have hfirst' : ∀ name ∈ [(probe D inputs outputs).inputIdsName.getD "input_ids"]++
      (probe D inputs outputs).attentionMaskName.toList,
      initial name ∈ inputIdsNames.map initial++attentionMaskNames.map initial := by
    intro name hname
    exact List.mem_append.mpr ((List.mem_append.mp hname).imp (hids name) (hmask name))
  have hsecond := nodup_append_of_images hfirst (nodup_toList _) hfirst' hpositions (by decide)
  have hsecond' : ∀ name ∈ [(probe D inputs outputs).inputIdsName.getD "input_ids"]++
      (probe D inputs outputs).attentionMaskName.toList++(probe D inputs outputs).positionIdsName.toList,
      initial name ∈ inputIdsNames.map initial++attentionMaskNames.map initial++positionIdsNames.map initial := by
    intro name hname
    exact List.mem_append.mpr ((List.mem_append.mp hname).imp (hfirst' name) (hpositions name))
  exact nodup_append_of_images hsecond (nodup_fedNames D _ _) hsecond' hkv (by decide)

/-- They are the names of inputs, if the ids have one. -/
theorem mem_inputs_of_callNames (hids : (probe D inputs outputs).inputIdsName.isSome)
    (h : name ∈ callNames (probe D inputs outputs).toTopology) : name ∈ inputs.map Outlet.name := by
  unfold callNames at h
  rw [List.cons_append,List.cons_append,List.mem_cons,List.mem_append,List.mem_append] at h
  obtain h | (h | h) | h := h
  · obtain ⟨picked,hpicked⟩ := Option.isSome_iff_exists.mp hids
    rw [hpicked,Option.getD_some] at h
    rw [h]
    exact (pickFirst_some hpicked).1
  · exact mem_of_mem_pick h
  · exact mem_of_mem_pick h
  · exact (read_of_mem_fedNames h).1

end Fed

section Panics
variable {Rng : Type} {out : Outside Rng} {args : Args} {s : State Rng} {rng : Rng}

/-- A session gives no empty tensor, and as many values as the dimensions say. -/
def Sized (out : Outside Rng) : Prop :=
  ∀ step entries outputs name shape data, out.run step entries = .ok outputs →
    outputs name = some (.ok (shape,data)) → (∀ d ∈ shape, 0 < d ∧ d < 2^63) ∧ (data.length : ℤ) = shape.prod

theorem one_le_prod {shape : List ℤ} (h : ∀ d ∈ shape, 0 < d) : 1 ≤ shape.prod := by
  induction shape with
  | nil => exact le_rfl
  | cons d shape ih =>
    obtain ⟨hd,hrest⟩ := List.forall_mem_cons.mp h
    rw [List.prod_cons]
    exact Int.mul_pos hd (ih hrest)

theorem lastLogits_ne_none {shape : List ℤ} {data : List Float32} (hdims : ∀ d ∈ shape, 0 < d ∧ d < 2^63)
    (hdata : (data.length : ℤ) = shape.prod) : lastLogits shape data ≠ none := by
  unfold lastLogits
  split
  · exact nofun
  case isFalse hrank =>
    obtain rfl | ⟨init,vocab,rfl⟩ := List.eq_nil_or_concat' shape
    · exact absurd (Nat.zero_lt_succ _) hrank
    obtain rfl | ⟨front,seq,rfl⟩ := List.eq_nil_or_concat' init
    · exact absurd (Nat.succ_lt_succ (Nat.zero_lt_succ _)) hrank
    have hvocab := hdims vocab (by simp)
    have hseq := hdims seq (by simp)
    have hfront : 1 ≤ front.prod := one_le_prod fun d hd => (hdims d (by simp [hd])).1
    have hlast : (front++[seq]++[vocab]).getD ((front++[seq]++[vocab]).length-1) 0 = vocab := by simp
    have hbefore : (front++[seq]++[vocab]).getD ((front++[seq]++[vocab]).length-2) 0 = seq := by simp
    rw [hlast,hbefore]
    have hasU64 : ∀ d : ℤ, 0 < d ∧ d < 2^63 → (asU64OfInt d : ℤ) = d := by
      intro d hd
      unfold asU64OfInt
      omega
    have hle : seq*vocab ≤ data.length := by
      rw [hdata,List.prod_append,List.prod_append,List.prod_singleton,List.prod_singleton,mul_assoc]
      exact le_mul_of_one_le_left (Int.mul_pos hseq.1 hvocab.1).le hfront
    rw [if_pos]
    · exact nofun
    · have hseq' := hasU64 seq hseq
      have hvocab' := hasU64 vocab hvocab
      generalize asU64OfInt seq = n at *
      generalize asU64OfInt vocab = v at *
      subst hseq' hvocab'
      have hn : 1 ≤ n := by exact_mod_cast hseq.1
      have hle' : n*v ≤ data.length := by exact_mod_cast hle
      refine ⟨hn,?_⟩
      rwa [← Nat.succ_mul,Nat.succ_eq_add_one,Nat.sub_add_cancel hn]

theorem sampleOutputs_ne_none (hsized : Sized out) (hlogits : args.topo.logitsName.isSome) {outputs : Outputs}
    {entries : List (String × Value)} (houtputs : out.run s.step entries = .ok outputs) :
    sampleOutputs out args s outputs ≠ none := by
  obtain ⟨name,hname⟩ := Option.isSome_iff_exists.mp hlogits
  unfold sampleOutputs
  rw [hname]
  dsimp only
  split
  · exact nofun
  case h_2 shape data hextract =>
    obtain ⟨hdims,hdata⟩ := hsized _ _ _ _ _ _ houtputs (extract_eq hextract)
    have hlast := lastLogits_ne_none hdims hdata
    split
    case h_1 hnone => exact absurd hnone hlast
    · exact nofun
    · exact nofun

theorem curInput_ne_none (hs : Going args s) (hprompt : args.promptIds ≠ []) : curInput args s ≠ none := by
  unfold curInput
  split
  · exact nofun
  · rw [hs.ids,ne_eq,Option.map_eq_none_iff,List.getLast?_eq_none_iff]
    exact List.append_ne_nil_of_left_ne_nil hprompt _

theorem round_ne_none (hsized : Sized out) (hlogits : args.topo.logitsName.isSome) (hprompt : args.promptIds ≠ [])
    (hs : Going args s) : round out args s ≠ none := by
  have hforward : forward out args s ≠ none := by
    obtain ⟨cur,hcur⟩ := Option.ne_none_iff_exists'.mp (curInput_ne_none hs hprompt)
    unfold forward
    rw [hcur]
    dsimp only
    split
    · exact nofun
    · split
      · exact nofun
      case h_2 outputs houtputs =>
        have hsample := sampleOutputs_ne_none hsized hlogits houtputs
        split
        case h_1 hnone => exact absurd hnone hsample
        · exact nofun
        · exact nofun
  unfold round
  split
  case h_1 hnone => exact absurd hnone hforward
  · exact nofun
  · split
    · exact nofun
    · split
      · exact nofun
      · split
        · exact nofun
        · exact nofun

theorem flush_returns (out : Outside Rng) (args : Args) (s : State Rng) (reason : FinishReason) :
    ∃ r, flush out args s reason = .returned r := by
  unfold flush
  split
  · exact ⟨_,rfl⟩
  case h_2 full _ =>
    dsimp only
    split
    case isTrue h =>
      obtain ⟨rest,hrest⟩ := exists_of_prefix h.2
      have hslice : sliceFrom full (byteLen s.prevFullDecoded) = some rest := by
        rw [hrest]
        exact sliceFrom_append _ _
      rw [hslice]
      exact ⟨_,rfl⟩
    case isFalse => exact ⟨_,rfl⟩

theorem leave_returns (out : Outside Rng) (args : Args) (x : State Rng × Exit) :
    ∃ r, leave out args x = .returned r := by
  obtain ⟨s,exit⟩ := x
  cases exit with
  | stopped reason => exact flush_returns out args s reason
  | dropped => exact ⟨_,rfl⟩
  | failed e => exact ⟨_,rfl⟩

/-- The loop neither panics nor goes on for ever. -/
theorem runLoop_returns (hsized : Sized out) (hlogits : args.topo.logitsDtype.isSome → args.topo.logitsName.isSome)
    (hprompt : args.promptIds ≠ []) (rng : Rng) :
    ∃ r, ∀ fuel, args.maxNew.toNat < fuel → runLoop out args fuel rng = .returned r := by
  by_cases hdtype : args.topo.logitsDtype = some .float32
  case neg => exact ⟨_,fun fuel _ => if_pos hdtype⟩
  case pos =>
    have hname := hlogits (Option.isSome_iff_exists.mpr ⟨_,hdtype⟩)
    obtain ⟨s,-,hs,⟨hnone,-⟩ | ⟨x,-,hend⟩⟩ := runLoop_ends out hdtype rng
    · exact absurd hnone (round_ne_none hsized hname hprompt hs)
    · obtain ⟨r,hr⟩ := leave_returns out args x
      exact ⟨r,fun fuel hfuel => (hend fuel hfuel).trans hr⟩

end Panics

section Started
variable {D : RegexCrate} {state : OrtState} {batch : ExecuteBatch} {args : Args} {e : InferenceError}
  {defaultMaxNewTokens : UInt32} {inputs outputs : List Outlet} {kvHeads headDim : ℕ}

/-- The keys of the first layer are declared with so many heads of this size. -/
def DeclaresHeads (inputs : List Outlet) (topo : Topology) (kvHeads headDim : ℕ) : Prop :=
  ∃ layer rest input ty batchDim pastDim, topo.kvLayers = layer::rest ∧ input ∈ inputs ∧
    input.name = layer.pastKeyInput ∧ input.dtype = .tensor ty [batchDim,(kvHeads : ℤ),pastDim,(headDim : ℤ)] ∧
      0 < kvHeads ∧ 0 < headDim

theorem inferKvDims_ok {topo : Topology} (h : inferKvDims inputs topo = .ok (kvHeads,headDim)) :
    DeclaresHeads inputs topo kvHeads headDim := by
  unfold inferKvDims at h
  split at h
  · cases h
  case h_2 layer hlayer =>
    split at h
    · cases h
    case h_2 input hinput =>
      split at h
      · cases h
      case h_2 ty b heads p dim hdtype =>
        split at h
        · cases h
        case isFalse hpos =>
          cases h
          obtain ⟨rest,hrest⟩ := List.head?_eq_some_iff.mp hlayer
          have hname : input.name = layer.pastKeyInput := of_decide_eq_true (List.find?_some hinput :)
          refine ⟨layer,rest,input,ty,b,p,hrest,List.mem_of_find?_eq_some hinput,hname,?_,by omega,by omega⟩
          rw [hdtype,Int.toNat_of_nonneg (by omega),Int.toNat_of_nonneg (by omega)]
      · cases h

/-- The layers of a probed session have the first layer's keys among the inputs. -/
theorem inferKvDims_error (hlayers : (probe D inputs outputs).kvLayers ≠ [])
    (h : inferKvDims inputs (probe D inputs outputs).toTopology = .error e) :
    ∃ message, e = .badRequest message := by
  obtain ⟨layer,rest,hrest⟩ := List.exists_cons_of_ne_nil hlayers
  have hmem : layer.pastKeyInput ∈ inputs.map Outlet.name := by
    obtain ⟨i,hi⟩ := mem_pairKvLayers_iff.mp (hrest ▸ List.mem_cons_self : layer ∈ (probe D inputs outputs).kvLayers)
    exact (read_fedNames hi).1.1
  unfold inferKvDims at h
  rw [hrest] at h
  dsimp only [List.head?_cons] at h
  split at h
  case h_1 hnone =>
    obtain ⟨input,hinput,hname⟩ := List.mem_map.mp hmem
    exact absurd (decide_eq_true hname) (List.find?_eq_none.mp hnone input hinput)
  case h_2 =>
    split at h
    · cases h
      exact ⟨_,rfl⟩
    · split at h
      · cases h
        exact ⟨_,rfl⟩
      · cases h
    · cases h
      exact ⟨_,rfl⟩

/-- The error is one of the request and the model, or of the tokenizer. -/
def Refused (state : OrtState) (batch : ExecuteBatch) (e : InferenceError) : Prop :=
  (∃ message, e = .badRequest message) ∨ ∃ tokenizer prompt err, state.tokenizer = some tokenizer ∧
    renderChat batch.messages = .ok prompt ∧ tokenizer.encode prompt = .error err ∧
      e = internal "tokenizer.encode" err

/-- The names of a call are different, are those of inputs if the ids have one, and have those of every
layer's cache. -/
structure NamesInputs (inputs : List Outlet) (topo : Topology) (names : List String) : Prop where
  nodup : names.Nodup
  declared : topo.inputIdsName.isSome → ∀ name ∈ names, name ∈ inputs.map Outlet.name
  caches : ∀ layer ∈ topo.kvLayers, layer.pastKeyInput ∈ names ∧ layer.pastValueInput ∈ names

theorem namesInputs_probe (D : RegexCrate) (inputs outputs : List Outlet) :
    NamesInputs inputs (probe D inputs outputs).toTopology (callNames (probe D inputs outputs).toTopology) := by
  constructor
  case nodup => exact nodup_callNames D inputs outputs
  case declared => exact fun hids name => mem_inputs_of_callNames hids
  case caches =>
    intro layer hlayer
    have hsub : ∀ name ∈ layer.fedNames, name ∈ callNames (probe D inputs outputs).toTopology :=
      fun name hname => List.mem_append_right _ (List.mem_flatMap.mpr ⟨layer,hlayer,hname⟩)
    exact ⟨hsub _ List.mem_cons_self,hsub _ (List.mem_cons_of_mem _ List.mem_cons_self)⟩

/-- The arguments are of a session that has been probed and a prompt that is not empty. -/
structure Started (D : RegexCrate) (state : OrtState) (batch : ExecuteBatch) (args : Args) : Prop where
  topo : args.topo = (probe D state.inputs state.outputs).toTopology
  heads : DeclaresHeads state.inputs args.topo args.kvHeads args.headDim
  prompt : args.promptIds ≠ []

theorem renderChat_error {messages : List Message} (h : renderChat messages = .error e) :
    ∃ message, e = .badRequest message := by
  unfold renderChat at h
  split at h
  · cases h
    exact ⟨_,rfl⟩
  · cases h

theorem kvLayers_of_kind (h : (probe D inputs outputs).kind = .textGenWithKv) :
    (probe D inputs outputs).kvLayers ≠ [] := by
  intro hnil
  unfold probe at h hnil
  dsimp only at h hnil
  rw [hnil] at h
  rw [if_neg (by decide)] at h
  split at h
  · cases h
  · split at h
    · cases h
    · cases h

theorem logitsName_of_dtype (h : (probe D inputs outputs).logitsDtype.isSome) :
    (probe D inputs outputs).logitsName.isSome := by
  obtain ⟨ty,hty⟩ := Option.isSome_iff_exists.mp h
  obtain ⟨name,hname,-⟩ := Option.bind_eq_some_iff.mp hty
  exact Option.isSome_iff_exists.mpr ⟨name,hname⟩

/-- What the front of a request comes to. -/
theorem runGeneration_cases (D : RegexCrate) (state : OrtState) (defaultMaxNewTokens : UInt32)
    (batch : ExecuteBatch) :
    (∃ e, runGeneration D state defaultMaxNewTokens batch = .error e ∧ Refused state batch e) ∨
      ∃ args, runGeneration D state defaultMaxNewTokens batch = .ok args ∧ Started D state batch args := by
  unfold runGeneration
  dsimp only
  split
  · exact .inl ⟨_,rfl,.inl ⟨_,rfl⟩⟩
  case isFalse hkind =>
    cases htokenizer : state.tokenizer with
    | none => exact .inl ⟨_,rfl,.inl ⟨_,rfl⟩⟩
    | some tokenizer =>
      cases hprompt : renderChat batch.messages with
      | error e =>
        obtain ⟨message,rfl⟩ := renderChat_error hprompt
        exact .inl ⟨_,rfl,.inl ⟨message,rfl⟩⟩
      | ok prompt =>
        cases hencode : tokenizer.encode prompt with
        | error err =>
          refine .inl ⟨internal "tokenizer.encode" err,?_,.inr ⟨tokenizer,prompt,err,htokenizer,hprompt,hencode,rfl⟩⟩
          simp [hencode,bind,Except.bind,Except.mapError]
        | ok promptIds =>
          cases hids : promptIds with
          | nil =>
            refine .inl ⟨.badRequest "ort: tokenizer produced empty id sequence",?_,.inl ⟨_,rfl⟩⟩
            simp [hencode,hids,bind,Except.bind,Except.mapError]
          | cons id ids =>
            have hlayers := kvLayers_of_kind (not_not.mp hkind)
            cases hdims : inferKvDims state.inputs (probe D state.inputs state.outputs).toTopology with
            | error e =>
              obtain ⟨message,rfl⟩ := inferKvDims_error hlayers hdims
              refine .inl ⟨.badRequest message,?_,.inl ⟨message,rfl⟩⟩
              simp [hencode,hids,bind,Except.bind,Except.mapError]
            | ok dims =>
              obtain ⟨kvHeads,headDim⟩ := dims
              refine .inr ⟨.ofBatch (probe D state.inputs state.outputs).toTopology batch (id::ids) kvHeads headDim
                defaultMaxNewTokens tokenizer.tokenToId,?_,rfl,inferKvDims_ok hdims,List.cons_ne_nil id ids⟩
              simp [hencode,hids,bind,Except.bind,Except.mapError]

end Started

section Law
variable {Rng : Type}

/-- A request is refused for what it is, or for what the tokenizer says of it. One that is not refused is run on the
names that the model has, with the heads that it declares, and the run comes to its end: where arrays are checked as
the library does, in its first step, before the session is called. -/
theorem front_law (D : RegexCrate) (state : OrtState) (defaultMaxNewTokens : UInt32) (batch : ExecuteBatch)
    (out : Outside Rng) (hsized : Sized out) (rng : Rng) :
    (∃ e, runGeneration D state defaultMaxNewTokens batch = .error e ∧ Refused state batch e) ∨
      ∃ args, runGeneration D state defaultMaxNewTokens batch = .ok args ∧ Started D state batch args ∧
        (∀ s cur stepIn, Rounds (round out args) (start args rng) s → stepInputs out args s cur = .ok stepIn →
          NamesInputs state.inputs args.topo ((entries args.topo stepIn).map Prod.fst)) ∧
        (∃ r, ∀ fuel, args.maxNew.toNat < fuel → runLoop out args fuel rng = .returned r) ∧
        (ChecksShape out.fromArray → ∃ message, ∀ fuel, 0 < fuel →
          runLoop out args fuel rng = .returned (start args rng,.error (.badRequest message))) := by
  obtain hrefused | ⟨args,hok,hstarted⟩ := runGeneration_cases D state defaultMaxNewTokens batch
  · exact .inl hrefused
  · have hlogits : args.topo.logitsDtype.isSome → args.topo.logitsName.isSome := by
      rw [hstarted.topo]
      exact logitsName_of_dtype
    obtain ⟨layer,rest,-,-,-,-,hlayers,-⟩ := hstarted.heads
    have hkv : args.topo.kvLayers ≠ [] := hlayers ▸ List.cons_ne_nil layer rest
    refine .inr ⟨args,hok,hstarted,?_,runLoop_returns hsized hlogits hstarted.prompt rng,
      fun hchecks => runLoop_refused hchecks hkv rng⟩
    intro s cur stepIn hs hstepIn
    rw [entries_names (rounds_layers hs) hstepIn,hstarted.topo]
    exact namesInputs_probe D state.inputs state.outputs

def toyState : OrtState where
  inputs := [⟨"input_ids",.tensor (.other "Int64") [-1,-1]⟩,⟨"attention_mask",.tensor (.other "Int64") [-1,-1]⟩,
    ⟨"position_ids",.tensor (.other "Int64") [-1,-1]⟩,⟨"past.0.key",.tensor .float32 [-1,1,-1,1]⟩,
    ⟨"past.0.value",.tensor .float32 [-1,1,-1,1]⟩]
  outputs := [⟨"logits",.tensor .float32 [-1,-1,2]⟩,⟨"present.0.key",.tensor .float32 [-1,1,-1,1]⟩,
    ⟨"present.0.value",.tensor .float32 [-1,1,-1,1]⟩]
  tokenizer := some ⟨fun _ => .ok [0,1],fun _ => none⟩
  debugNames := fun names => ", ".intercalate names

theorem sized_toy : Sized toy := by
  intro step entries outputs name shape data hrun hname
  unfold toy at hrun
  dsimp only at hrun
  split at hrun
  case h_1 ids _ =>
    split at hrun
    case isTrue hshort =>
      obtain rfl := Except.ok.inj hrun
      obtain ⟨-,hdata⟩ := Option.ite_none_right_eq_some.mp hname
      cases hdata
      refine ⟨?_,?_⟩
      · simp
        omega
      · simp [Nat.mul_comm]
    case isFalse => cases hrun
  · cases hrun

theorem front_law_toy : ∃ args, runGeneration asciiRegex toyState 256 (toyBatch 2) = .ok args ∧
    ∃ message, runLoop toy args 1 () = .returned (start args (),.error (.badRequest message)) := by
  obtain ⟨e,herror,-⟩ | ⟨args,hok,-,-,-,hchecked⟩ := front_law asciiRegex toyState 256 (toyBatch 2) toy sized_toy ()
  · have hgood : (runGeneration asciiRegex toyState 256 (toyBatch 2)).isOk := by decide +kernel
    rw [herror] at hgood
    cases hgood
  · obtain ⟨message,hrefused⟩ := hchecked checksShape_checkedArray
    exact ⟨args,hok,message,hrefused 1 Nat.one_pos⟩

end Law
end RakkaInference.Ort
