import Mathlib.Data.List.Infix
import RakkaInference.Core.Request
import RakkaInference.Machine.Loops
import RakkaInference.Machine.Slices
import RakkaInference.Machine.Words
import RakkaInference.Ort.Tensors

/-! The generation loop of a causal language model with a cache of keys and values. The whole prompt
is fed first, and then one sampled token at a time. -/
namespace RakkaInference.Ort
open Machine

/-- The types of the elements, those other than `f32` by their `Debug` text. -/
inductive TensorElementType
  | float32
  | other (debug : String)
  deriving DecidableEq

def TensorElementType.debug : TensorElementType → String
  | .float32 => "Float32"
  | .other debug => debug

structure KvLayer where
  pastKeyInput : String
  pastValueInput : String
  presentKeyOutput : String
  presentValueOutput : String

structure Topology where
  inputIdsName : Option String
  attentionMaskName : Option String
  positionIdsName : Option String
  logitsName : Option String
  logitsDtype : Option TensorElementType
  kvLayers : List KvLayer

structure Tensor (α : Type) where
  shape : List ℤ
  data : List α

inductive Value
  | i64 (t : Tensor ℤ)
  | f32 (t : Tensor Float32)

/-- What a session puts out under a name: an error of the extraction, or a shape and the values. -/
abbrev Outputs : Type := String → Option (Except String (List ℤ × List Float32))

/-- The code that is called and the one that reads the chunks. A session may answer differently in every
step, and the reader may go away before any chunk. -/
structure Outside (Rng : Type) where
  fromArray : FromArray
  run : ℕ → List (String × Value) → Except String Outputs
  sampleNext : List Float32 → SamplingParams → Rng → UInt32 × Rng
  decode : List UInt32 → Except String String
  reads : ℕ → Bool

/-- The arguments of the loop. -/
structure Args where
  topo : Topology
  requestId : String
  sampling : SamplingParams
  promptIds : List UInt32
  kvHeads : ℕ
  headDim : ℕ
  maxNew : UInt32
  eosId : Option UInt32

/-- The arguments of one call of the session. -/
structure StepInputs where
  inputIds : Tensor ℤ
  attentionMask : Option (Tensor ℤ)
  positionIds : Option (Tensor ℤ)
  kvTensors : List (String × Tensor Float32)

/-- The local variables of the loop, and what it has fed and sent. -/
structure State (Rng : Type) where
  allIds : List UInt32
  prevFullDecoded : String := ""
  outputTokens : UInt32 := 0
  pastKv : List (List Float32 × List Float32)
  pastLen : ℕ := 0
  step : ℕ := 0
  rng : Rng
  fed : List StepInputs := []
  sent : List TokenChunk := []

/-- How the loop is left. -/
inductive Exit
  | stopped (reason : FinishReason)
  | dropped
  | failed (e : InferenceError)
  deriving DecidableEq

def contains (text part : String) : Bool := decide (part.toList <:+: text.toList)

def mapOrtErr (msg : String) : InferenceError :=
  let lower := msg.map Char.toLower
  if contains lower "invalid" || contains lower "shape" || contains lower "missing" || contains lower "expected" then
    .badRequest s!"ort: {msg}"
  else .internal s!"ort: {msg}"

def internal (pre e : String) : InferenceError := .internal s!"ort: {pre}: {e}"

def endsIncomplete (s : String) : Bool := s.toList.getLast? = some (Char.ofNat 0xfffd)

/-- The new text and whether to go on from it. Text that ends within a character is kept back. -/
def decodeDelta (prev full : String) : String × Bool :=
  if prev.toList <+: full.toList then
    let suffix := String.ofList (full.toList.drop prev.toList.length)
    if endsIncomplete suffix then ("",false) else (suffix,true)
  else (full,true)

section Loop
variable {Rng : Type} (out : Outside Rng) (args : Args)

def tensor {α : Type} (shape : List ℤ) (data : List α) : Except InferenceError (Tensor α) :=
  match out.fromArray shape data.length with
  | none => .ok ⟨shape,data⟩
  | some e => .error (mapOrtErr e)

/-- A tensor for a model that has an input of this name. -/
def tensorIf (name : Option String) (shape data : List ℤ) : Except InferenceError (Option (Tensor ℤ)) :=
  if name.isSome then (tensor out shape data).map some else .ok none

def State.generated (s : State Rng) : List UInt32 := s.allIds.drop args.promptIds.length

/-- The ids for this step. There is none when there is no token at all. -/
def curInput (s : State Rng) : Option (List ℤ) :=
  if s.step = 0 then some (args.promptIds.map fun t => (t.toNat : ℤ))
  else s.allIds.getLast?.map fun t => [(t.toNat : ℤ)]

def kvTensors (s : State Rng) : Except InferenceError (List (String × Tensor Float32)) := do
  let pairs ← (args.topo.kvLayers.zip s.pastKv).mapM fun (layer,k,v) => do
    let shape := [1,(args.kvHeads : ℤ),(s.pastLen : ℤ),(args.headDim : ℤ)]
    let key ← tensor out shape k
    let value ← tensor out shape v
    return [(layer.pastKeyInput,key),(layer.pastValueInput,value)]
  return pairs.flatten

def stepInputs (s : State Rng) (cur : List ℤ) : Except InferenceError StepInputs := do
  let curLen := cur.length
  let totalAttnLen := s.pastLen+curLen
  let inputIds ← tensor out [1,(curLen : ℤ)] cur
  let attentionMask ←
    tensorIf out args.topo.attentionMaskName [1,(totalAttnLen : ℤ)] (List.replicate totalAttnLen 1)
  let positionIds ←
    tensorIf out args.topo.positionIdsName [1,(curLen : ℤ)]
      ((List.range' s.pastLen curLen).map fun (i : ℕ) => (i : ℤ))
  let kvTensors ← kvTensors out args s
  return { inputIds, attentionMask, positionIds, kvTensors }

/-- The entries of a call, by the names of the model. -/
def entries (topo : Topology) (inputs : StepInputs) : List (String × Value) :=
  let named (name : Option String) (t : Option (Tensor ℤ)) : List (String × Value) :=
    match name,t with
    | some name,some t => [(name,.i64 t)]
    | _,_ => []
  (topo.inputIdsName.getD "input_ids",.i64 inputs.inputIds)::named topo.attentionMaskName inputs.attentionMask++
    named topo.positionIdsName inputs.positionIds++inputs.kvTensors.map fun (name,t) => (name,.f32 t)

/-- The values under a name. -/
def extract (outputs : Outputs) (name : String) : Except InferenceError (List ℤ × List Float32) :=
  match outputs name with
  | none => .error (.internal s!"ort: missing output '{name}'")
  | some (.error e) => .error (mapOrtErr e)
  | some (.ok v) => .ok v

/-- The logits at the last position. There is none where they are out of range. -/
def lastLogits (shape : List ℤ) (data : List Float32) : Option (Except InferenceError (List Float32)) :=
  if shape.length < 3 then
    some (.error (.internal s!"ort: logits has rank {shape.length}, expected 3 ([batch, seq, vocab])"))
  else
    let vocab := asU64OfInt (shape.getD (shape.length-1) 0)
    let seq := asU64OfInt (shape.getD (shape.length-2) 0)
    let lastOffset := (seq-1)*vocab
    if 1 ≤ seq ∧ lastOffset+vocab ≤ data.length then some (.ok ((data.drop lastOffset).take vocab))
    else none

def presentKv (outputs : Outputs) : Except InferenceError (List (List Float32 × List Float32)) :=
  args.topo.kvLayers.mapM fun layer => do
    let k ← extract outputs layer.presentKeyOutput
    let v ← extract outputs layer.presentValueOutput
    return (k.2,v.2)

/-- What a call of the session gives. -/
structure Sampled (Rng : Type) where
  nextId : UInt32
  rng : Rng
  newPast : List (List Float32 × List Float32)

/-- The part of a step behind the call. -/
def sampleOutputs (s : State Rng) (outputs : Outputs) : Option (Except InferenceError (Sampled Rng)) :=
  match args.topo.logitsName with
  | none => none
  | some name =>
    match extract outputs name with
    | .error e => some (.error e)
    | .ok (shape,data) =>
      match lastLogits shape data with
      | none => none
      | some (.error e) => some (.error e)
      | some (.ok logits) =>
        let (nextId,rng) := out.sampleNext logits args.sampling s.rng
        some ((presentKv args outputs).map fun newPast => { nextId, rng, newPast })

def State.push (s : State Rng) (curLen : ℕ) (r : Sampled Rng) : State Rng :=
  { s with
    pastKv := r.newPast, pastLen := s.pastLen+curLen, rng := r.rng
    allIds := s.allIds++[r.nextId], outputTokens := s.outputTokens+1 }

/-- Feed the session and sample. -/
def forward (s : State Rng) : Option (State Rng × Except InferenceError UInt32) :=
  match curInput args s with
  | none => none
  | some cur =>
    match stepInputs out args s cur with
    | .error e => some (s,.error e)
    | .ok inputs =>
      let fed := { s with fed := s.fed++[inputs] }
      match out.run s.step (entries args.topo inputs) with
      | .error e => some (fed,.error (mapOrtErr e))
      | .ok outputs =>
        match sampleOutputs out args s outputs with
        | none => none
        | some (.error e) => some (fed,.error e)
        | some (.ok r) => some (fed.push cur.length r,.ok r.nextId)

/-- A chunk is sent, if it is still read. -/
def State.send (s : State Rng) (c : TokenChunk) : Option (State Rng) :=
  if out.reads s.sent.length then some { s with sent := s.sent++[c] } else none

/-- The text of the step is sent. There is no state when it is not read any more. -/
def State.stream (s : State Rng) (full : String) : Option (State Rng) :=
  let (delta,advance) := decodeDelta s.prevFullDecoded full
  let sent := if delta.isEmpty then some s else s.send out { requestId := args.requestId, textDelta := delta }
  sent.map fun s => if advance then { s with prevFullDecoded := full } else s

def stopReason (outputTokens : UInt32) (nextId : UInt32) (full : String) : Option FinishReason :=
  if some nextId = args.eosId then some .stop
  else if outputTokens ≥ args.maxNew then some .length
  else if args.sampling.stop.any fun stop => contains full stop then some .stop
  else none

/-- One round. -/
def round (s : State Rng) : Option (State Rng ⊕ (State Rng × Exit)) :=
  match forward out args s with
  | none => none
  | some (s,.error e) => some (.inr (s,.failed e))
  | some (s,.ok nextId) =>
    match out.decode (s.generated args) with
    | .error e => some (.inr (s,.failed (internal "tokenizer.decode" e)))
    | .ok full =>
      match s.stream out args full with
      | none => some (.inr (s,.dropped))
      | some s =>
        match stopReason args s.outputTokens nextId full with
        | some reason => some (.inr (s,.stopped reason))
        | none => some (.inl { s with step := s.step+1 })

/-- What is left of the text, and the usage. -/
def flush (s : State Rng) (reason : FinishReason) : Ended (State Rng × Except InferenceError Unit) :=
  match out.decode (s.generated args) with
  | .error e => .returned (s,.error (internal "tokenizer.decode" e))
  | .ok full =>
    let last (tail : String) : State Rng × Except InferenceError Unit :=
      let chunk :=
        { requestId := args.requestId
          textDelta := tail
          usage := some { inputTokens := .ofNat args.promptIds.length, outputTokens := s.outputTokens }
          finishReason := some reason }
      ((s.send out chunk).getD s,.ok ())
    if byteLen s.prevFullDecoded < byteLen full ∧ s.prevFullDecoded.toList <+: full.toList then
      match sliceFrom full (byteLen s.prevFullDecoded) with
      | none => .panicked
      | some tail => .returned (last tail)
    else .returned (last "")

def leave : State Rng × Exit → Ended (State Rng × Except InferenceError Unit)
  | (s,.stopped reason) => flush out args s reason
  | (s,.dropped) => .returned (s,.ok ())
  | (s,.failed e) => .returned (s,.error e)

def start (rng : Rng) : State Rng where
  allIds := args.promptIds
  pastKv := args.topo.kvLayers.map fun _ => ([],[])
  rng

def debugDtype : Option TensorElementType → String
  | none => "None"
  | some ty => s!"Some({ty.debug})"

def runLoop (fuel : ℕ) (rng : Rng) : Ended (State Rng × Except InferenceError Unit) :=
  if args.topo.logitsDtype ≠ some .float32 then
    .returned (start args rng,.error (.badRequest
      ("ort: chat-style execute() only supports f32 logits in this build "++
        s!"(probed: {debugDtype args.topo.logitsDtype}). Re-export with FP32 logits or use infer().")))
  else (loop (round out args) fuel (start args rng)).bind (leave out args)

end Loop

/-- What the loop asks the tokenizer for before it starts. -/
def eosIdOf (tokenToId : String → Option UInt32) : Option UInt32 :=
  (tokenToId "</s>").or ((tokenToId "<|endoftext|>").or (tokenToId "<|im_end|>"))

/-- The arguments that a request gives the loop. -/
def Args.ofBatch (topo : Topology) (batch : ExecuteBatch) (promptIds : List UInt32) (kvHeads headDim : ℕ)
    (defaultMaxNewTokens : UInt32) (tokenToId : String → Option UInt32) : Args where
  topo
  requestId := batch.requestId
  sampling := batch.sampling
  promptIds
  kvHeads
  headDim
  maxNew := (batch.sampling.maxTokens.map UInt32.ofNat).getD defaultMaxNewTokens
  eosId := eosIdOf tokenToId

section Steps
variable {Rng : Type} {out : Outside Rng} {args : Args} {s t u : State Rng} {id : UInt32} {full : String}

/-- A step of the loop that puts out its text. -/
def Emits (out : Outside Rng) (args : Args) (s : State Rng) (id : UInt32) (full : String) (u : State Rng) : Prop :=
  ∃ t, forward out args s = some (t,.ok id) ∧ out.decode (t.generated args) = .ok full ∧
    t.stream out args full = some u

/-- Whatever a round does. -/
theorem round_cases {x : State Rng ⊕ (State Rng × Exit)} (h : round out args s = some x) :
    (∃ t e, x = .inr (t,.failed e)) ∨
    (∃ t id full, forward out args s = some (t,.ok id) ∧ t.stream out args full = none ∧ x = .inr (t,.dropped)) ∨
    (∃ id full u reason, Emits out args s id full u ∧ stopReason args u.outputTokens id full = some reason ∧
      x = .inr (u,.stopped reason)) ∨
    ∃ id full u, Emits out args s id full u ∧ stopReason args u.outputTokens id full = none ∧
      x = .inl { u with step := u.step+1 } := by
  unfold round at h
  split at h
  · exact nomatch h
  · exact .inl ⟨_,_,(Option.some.inj h).symm⟩
  case h_3 t id hforward =>
    split at h
    · exact .inl ⟨_,_,(Option.some.inj h).symm⟩
    case h_2 full hdecode =>
      split at h
      case h_1 hstream => exact .inr (.inl ⟨t,id,full,hforward,hstream,(Option.some.inj h).symm⟩)
      case h_2 u hstream =>
        have hemits : Emits out args s id full u := ⟨t,hforward,hdecode,hstream⟩
        split at h
        case h_1 reason hstop => exact .inr (.inr (.inl ⟨id,full,u,reason,hemits,hstop,(Option.some.inj h).symm⟩))
        case h_2 hstop => exact .inr (.inr (.inr ⟨id,full,u,hemits,hstop,(Option.some.inj h).symm⟩))

theorem forward_ok (h : forward out args s = some (t,.ok id)) :
    ∃ cur inputs outputs r, curInput args s = some cur ∧ stepInputs out args s cur = .ok inputs ∧
      out.run s.step (entries args.topo inputs) = .ok outputs ∧ sampleOutputs out args s outputs = some (.ok r) ∧
      id = r.nextId ∧ t = ({ s with fed := s.fed++[inputs] } : State Rng).push cur.length r := by
  unfold forward at h
  split at h
  · exact nomatch h
  case h_2 cur hcur =>
    split at h
    · exact nomatch h
    case h_2 inputs hinputs =>
      dsimp only at h
      split at h
      · exact nomatch h
      case h_2 outputs houtputs =>
        split at h
        · exact nomatch h
        · exact nomatch h
        case h_3 r hr =>
          obtain ⟨rfl,hid⟩ := Prod.mk.inj (Option.some.inj h)
          exact ⟨cur,inputs,outputs,r,hcur,hinputs,houtputs,hr,(Except.ok.inj hid).symm,rfl⟩

/-- The chunk of a step, if there is text to send. -/
def deltaChunks (args : Args) (prev full : String) : List TokenChunk :=
  if (decodeDelta prev full).1.isEmpty then []
  else [{ requestId := args.requestId, textDelta := (decodeDelta prev full).1 }]

theorem stream_some (h : t.stream out args full = some u) :
    u = { t with
      sent := t.sent++deltaChunks args t.prevFullDecoded full
      prevFullDecoded := if (decodeDelta t.prevFullDecoded full).2 then full else t.prevFullDecoded } := by
  unfold State.stream at h
  unfold deltaChunks
  generalize decodeDelta t.prevFullDecoded full = d at h ⊢
  obtain ⟨delta,advance⟩ := d
  obtain ⟨v,hv,rfl⟩ := Option.map_eq_some_iff.mp h
  dsimp only at hv ⊢
  by_cases hempty : delta.isEmpty
  · rw [if_pos hempty] at hv
    obtain rfl := Option.some.inj hv
    rw [if_pos hempty,List.append_nil]
    split <;> rfl
  · rw [if_neg hempty] at hv
    rw [if_neg hempty]
    unfold State.send at hv
    split at hv
    · obtain rfl := Option.some.inj hv
      split <;> rfl
    · exact nomatch hv

/-- What is sent goes through as long as every chunk is read. -/
theorem stream_ne_none (hreads : ∀ n, out.reads n) (t : State Rng) (full : String) :
    t.stream out args full ≠ none := by
  simp only [State.stream,State.send,hreads,if_true,ne_eq,Option.map_eq_none_iff]
  split <;> exact nofun

/-- A step that puts out its text, but for the cache. -/
structure Emitted (out : Outside Rng) (args : Args) (s : State Rng) (id : UInt32) (full : String) (u : State Rng) :
    Prop where
  allIds : u.allIds = s.allIds++[id]
  outputTokens : u.outputTokens = s.outputTokens+1
  step : u.step = s.step
  decoded : out.decode (u.generated args) = .ok full
  sent : u.sent = s.sent++deltaChunks args s.prevFullDecoded full
  prevFullDecoded : u.prevFullDecoded = if (decodeDelta s.prevFullDecoded full).2 then full else s.prevFullDecoded

theorem Emits.emitted (h : Emits out args s id full u) : Emitted out args s id full u := by
  obtain ⟨t,hforward,hdecode,hstream⟩ := h
  obtain ⟨cur,inputs,outputs,r,-,-,-,-,rfl,rfl⟩ := forward_ok hforward
  obtain rfl := stream_some hstream
  exact ⟨rfl,rfl,rfl,hdecode,rfl,rfl⟩

/-- The ids are those of the prompt and the sampled ones, which are counted and not too many yet. -/
structure Going (args : Args) (s : State Rng) : Prop where
  ids : s.allIds = args.promptIds++s.generated args
  count : s.outputTokens.toNat = (s.generated args).length
  below : s.generated args = [] ∨ s.outputTokens < args.maxNew

theorem going_start (args : Args) (rng : Rng) : Going args (start args rng) := by
  have hnil : (start args rng).generated args = [] := List.drop_length
  constructor
  case ids => rw [hnil,List.append_nil]; rfl
  case count => rw [hnil]; rfl
  case below => exact .inl hnil

theorem Emitted.generated (h : Emitted out args s id full u) (hs : Going args s) :
    u.generated args = s.generated args++[id] := by
  rw [State.generated,h.allIds,hs.ids,List.append_assoc,List.drop_left]

theorem Emitted.prefix_generated (h : Emitted out args s id full u) (hs : Going args s) :
    s.generated args <+: u.generated args := by
  rw [h.generated hs]
  exact List.prefix_append _ _

theorem Emitted.toNat_outputTokens (h : Emitted out args s id full u) (hs : Going args s) :
    u.outputTokens.toNat = (u.generated args).length := by
  have hcount := hs.count
  have hlt := UInt32.toNat_lt args.maxNew
  rw [h.outputTokens,h.generated hs,List.length_append,List.length_singleton,UInt32.toNat_add,← hcount]
  apply Nat.mod_eq_of_lt
  obtain hnil | hbelow := hs.below
  · rw [hcount,hnil]
    decide
  · have hbelow' := UInt32.lt_iff_toNat_lt.mp hbelow
    change s.outputTokens.toNat+1 < 2^32
    omega

theorem Emitted.ids (h : Emitted out args s id full u) (hs : Going args s) :
    u.allIds = args.promptIds++u.generated args := by
  rw [h.generated hs,← List.append_assoc,← hs.ids,h.allIds]

theorem stopReason_none_iff : stopReason args t.outputTokens id full = none ↔
    some id ≠ args.eosId ∧ t.outputTokens < args.maxNew ∧ ∀ stop ∈ args.sampling.stop, ¬ contains full stop := by
  unfold stopReason
  constructor
  · intro h
    split at h
    · exact nomatch h
    case isFalse heos =>
      split at h
      · exact nomatch h
      case isFalse hmax =>
        split at h
        · exact nomatch h
        case isFalse hstop =>
          refine ⟨heos,UInt32.not_le.mp hmax,?_⟩
          simpa using hstop
  · rintro ⟨heos,hmax,hstop⟩
    rw [if_neg heos,if_neg (UInt32.not_le.mpr hmax),if_neg (by simpa using hstop)]

/-- A round that goes on has put out its text and met no reason to stop. -/
theorem round_inl (h : round out args s = some (.inl t)) :
    ∃ id full u, Emits out args s id full u ∧ stopReason args u.outputTokens id full = none ∧
      t = { u with step := u.step+1 } := by
  obtain ⟨_,_,hx⟩ | ⟨_,_,_,-,-,hx⟩ | ⟨_,_,_,_,-,-,hx⟩ | ⟨id,full,u,hemits,hstop,hx⟩ := round_cases h
  · exact nomatch hx
  · exact nomatch hx
  · exact nomatch hx
  · exact ⟨id,full,u,hemits,hstop,Sum.inl.inj hx⟩

/-- A round that goes on keeps the count. -/
theorem Going.next (hs : Going args s) (h : round out args s = some (.inl t)) : Going args t := by
  obtain ⟨id,full,u,hemits,hstop,rfl⟩ := round_inl h
  have hu := hemits.emitted
  exact ⟨hu.ids hs,hu.toNat_outputTokens hs,.inr (stopReason_none_iff.mp hstop).2.1⟩

/-- The loop ends before the tokens are more than allowed. -/
theorem runLoop_ends (out : Outside Rng) (hdtype : args.topo.logitsDtype = some .float32) (rng : Rng) :
    ∃ s, Rounds (round out args) (start args rng) s ∧ Going args s ∧
      ((round out args s = none ∧ ∀ fuel, args.maxNew.toNat < fuel → runLoop out args fuel rng = .panicked) ∨
        ∃ x, round out args s = some (.inr x) ∧
          ∀ fuel, args.maxNew.toNat < fuel → runLoop out args fuel rng = leave out args x) := by
  have hbody : ∀ s t, Going args s → round out args s = some (.inl t) →
      Going args t ∧ args.maxNew.toNat-t.outputTokens.toNat < args.maxNew.toNat-s.outputTokens.toNat := by
    intro s t hs hst
    refine ⟨hs.next hst,?_⟩
    obtain ⟨id,full,u,hemits,hstop,rfl⟩ := round_inl hst
    have hu := hemits.emitted
    have hbelow := UInt32.lt_iff_toNat_lt.mp (stopReason_none_iff.mp hstop).2.1
    have hcount := hu.toNat_outputTokens hs
    rw [hu.generated hs,List.length_append,List.length_singleton,← hs.count] at hcount
    dsimp only
    omega
  have hloop : ∀ fuel, runLoop out args fuel rng =
      (loop (round out args) fuel (start args rng)).bind (leave out args) :=
    fun fuel => if_neg (not_not.mpr hdtype)
  obtain ⟨s,hrounds,hs,⟨hnone,hend⟩ | ⟨x,hx,hend⟩⟩ := loop_ends _ hbody (going_start args rng)
  · refine ⟨s,hrounds,hs,.inl ⟨hnone,?_⟩⟩
    intro fuel hfuel
    rw [hloop,hend fuel hfuel]
    rfl
  · refine ⟨s,hrounds,hs,.inr ⟨x,hx,?_⟩⟩
    intro fuel hfuel
    rw [hloop,hend fuel hfuel]
    rfl

/-- What is left of the text behind a part of it. -/
def tail (prev full : String) : String :=
  if byteLen prev < byteLen full ∧ prev.toList <+: full.toList then (sliceFrom full (byteLen prev)).getD "" else ""

def lastChunk (args : Args) (u : State Rng) (full : String) (reason : FinishReason) : TokenChunk where
  requestId := args.requestId
  textDelta := tail u.prevFullDecoded full
  usage := some { inputTokens := .ofNat args.promptIds.length, outputTokens := u.outputTokens }
  finishReason := some reason

theorem exists_of_prefix {prev : String} (h : prev.toList <+: full.toList) : ∃ rest, full = prev++rest := by
  obtain ⟨cs,hcs⟩ := h
  refine ⟨String.ofList cs,?_⟩
  apply String.toList_inj.mp
  rw [String.toList_append,String.toList_ofList,hcs]

theorem flush_eq (hreads : ∀ n, out.reads n) (hdecode : out.decode (u.generated args) = .ok full)
    (reason : FinishReason) :
    flush out args u reason = .returned ({ u with sent := u.sent++[lastChunk args u full reason] },.ok ()) := by
  have hsend : ∀ c, (u.send out c).getD u = { u with sent := u.sent++[c] } := by
    intro c
    rw [State.send,if_pos (hreads _)]
    rfl
  unfold flush lastChunk tail
  rw [hdecode]
  dsimp only
  split
  case isTrue h =>
    obtain ⟨rest,hrest⟩ := exists_of_prefix h.2
    have hslice : sliceFrom full (byteLen u.prevFullDecoded) = some rest := by
      rw [hrest]
      exact sliceFrom_append _ _
    rw [hslice]
    dsimp only
    rw [hsend]
    rfl
  case isFalse h => rw [hsend]

/-- Every step of a run feeds the session, samples and decodes. -/
def NoStepFails (out : Outside Rng) (args : Args) (rng : Rng) : Prop :=
  args.topo.logitsDtype = some .float32 ∧ ∀ s, Rounds (round out args) (start args rng) s →
    ∃ t id full, forward out args s = some (t,.ok id) ∧ out.decode (t.generated args) = .ok full

/-- The states in which a run whose chunks are all read ends well: the last step has met a reason to stop, and
the rest of the text has been sent. -/
def Finishes (out : Outside Rng) (args : Args) (rng : Rng) (v : State Rng) : Prop :=
  ∃ s id full u reason, Rounds (round out args) (start args rng) s ∧ Going args s ∧ Emits out args s id full u ∧
    stopReason args u.outputTokens id full = some reason ∧
    v = { u with sent := u.sent++[lastChunk args u full reason] }

/-- A step that does not fail puts its text out, and then the round ends without a failure. -/
theorem round_of_ok (hreads : ∀ n, out.reads n) (hforward : forward out args s = some (t,.ok id))
    (hdecode : out.decode (t.generated args) = .ok full) :
    ∃ x, round out args s = some x ∧ ∀ u e, x ≠ .inr (u,.failed e) := by
  have hne : t.stream out args full ≠ none := stream_ne_none hreads t full
  obtain ⟨u,hu⟩ := Option.ne_none_iff_exists'.mp hne
  simp only [round,hforward,hdecode,hu]
  split
  · exact ⟨_,rfl,nofun⟩
  · exact ⟨_,rfl,nofun⟩

/-- The result of a run whose chunks are all read. -/
theorem runLoop_result (hreads : ∀ n, out.reads n) (rng : Rng) :
    ∃ e, (∀ fuel, args.maxNew.toNat < fuel → runLoop out args fuel rng = e) ∧ e ≠ .exhausted ∧
      (NoStepFails out args rng → ∃ v, e = .returned (v,.ok ())) ∧
      ∀ v, e = .returned (v,.ok ()) → Finishes out args rng v := by
  by_cases hdtype : args.topo.logitsDtype = some .float32
  case neg =>
    refine ⟨_,fun fuel _ => if_pos hdtype,nofun,fun h => absurd h.1 hdtype,?_⟩
    intro v hv
    exact nomatch (Prod.mk.inj (Ended.returned.inj hv)).2
  case pos =>
    obtain ⟨s,hrounds,hs,⟨hnone,hend⟩ | ⟨x,hx,hend⟩⟩ := runLoop_ends out hdtype rng
    · refine ⟨_,hend,nofun,?_,nofun⟩
      rintro ⟨-,hno⟩
      obtain ⟨t,id,full,hforward,hdecode⟩ := hno s hrounds
      obtain ⟨x,hx,-⟩ := round_of_ok hreads hforward hdecode
      exact nomatch hnone.symm.trans hx
    · obtain ⟨t,e,hfailed⟩ | ⟨t,id,full,-,hnone,-⟩ | ⟨id,full,u,reason,hemits,hstop,hstopped⟩ | ⟨_,_,_,-,-,hgoes⟩ :=
        round_cases hx
      · obtain rfl := Sum.inr.inj hfailed
        refine ⟨_,hend,nofun,?_,?_⟩
        · rintro ⟨-,hno⟩
          obtain ⟨t',id,full,hforward,hdecode⟩ := hno s hrounds
          obtain ⟨x,hx',hne⟩ := round_of_ok hreads hforward hdecode
          exact absurd (Option.some.inj (hx'.symm.trans hx)) (hne t e)
        · intro v hv
          exact nomatch (Prod.mk.inj (Ended.returned.inj hv)).2
      · exact absurd hnone (stream_ne_none hreads t full)
      · obtain rfl := Sum.inr.inj hstopped
        have hleave : leave out args (u,.stopped reason) =
            .returned ({ u with sent := u.sent++[lastChunk args u full reason] },.ok ()) :=
          flush_eq hreads hemits.emitted.decoded reason
        refine ⟨_,fun fuel hfuel => (hend fuel hfuel).trans hleave,nofun,fun _ => ⟨_,rfl⟩,?_⟩
        intro v hv
        have hsame := (Prod.mk.inj (Ended.returned.inj hv)).1
        exact ⟨s,id,full,u,reason,hrounds,hs,hemits,hstop,hsame.symm⟩
      · exact nomatch hgoes

/-- An array with an empty dimension is a bad request. -/
theorem tensor_refused (h : ChecksShape out.fromArray) {α : Type} {shape : List ℤ} (data : List α)
    (hempty : ∃ d ∈ shape, d < 1) : ∃ message, tensor out shape data = .error (.badRequest message) := by
  obtain ⟨e,he,hinvalid⟩ := h.refuses shape data.length hempty
  have hcontains : contains (e.map Char.toLower) "invalid" = true := decide_eq_true hinvalid
  have hbad : mapOrtErr e = .badRequest s!"ort: {e}" := if_pos (by rw [hcontains]; rfl)
  refine ⟨s!"ort: {e}",?_⟩
  unfold tensor
  rw [he]
  exact congrArg Except.error hbad

/-- A row with at least one element. -/
theorem tensor_row (h : ChecksShape out.fromArray) {α : Type} {data : List α} (hne : data ≠ []) :
    tensor out [1,(data.length : ℤ)] data = .ok ⟨[1,(data.length : ℤ)],data⟩ := by
  unfold tensor
  rw [h.row (List.length_pos_iff.mpr hne).ne']

theorem tensorIf_row (h : ChecksShape out.fromArray) (name : Option String) {data : List ℤ} (hne : data ≠ []) :
    ∃ t, tensorIf out name [1,(data.length : ℤ)] data = .ok t := by
  unfold tensorIf
  split
  · exact ⟨_,congrArg (Except.map some) (tensor_row h hne)⟩
  · exact ⟨none,rfl⟩

/-- Before the first step the cache of a layer has no position, and no array is made of it. -/
theorem kvTensors_refused (h : ChecksShape out.fromArray) (hkv : args.topo.kvLayers ≠ []) (rng : Rng) :
    ∃ message, kvTensors out args (start args rng) = .error (.badRequest message) := by
  obtain ⟨layer,layers,hlayers⟩ := List.exists_cons_of_ne_nil hkv
  obtain ⟨message,hrefused⟩ : ∃ message, tensor out [1,(args.kvHeads : ℤ),((0 : ℕ) : ℤ),(args.headDim : ℤ)]
      ([] : List Float32) = .error (.badRequest message) := tensor_refused h [] ⟨0,by simp,by decide⟩
  refine ⟨message,?_⟩
  simp only [kvTensors,start,hlayers,List.map_cons,List.zip_cons_cons,List.mapM_cons,hrefused]
  rfl

/-- The first step feeds nothing. -/
theorem stepInputs_refused (h : ChecksShape out.fromArray) (hkv : args.topo.kvLayers ≠ []) (rng : Rng)
    (cur : List ℤ) : ∃ message, stepInputs out args (start args rng) cur = .error (.badRequest message) := by
  obtain ⟨message,hkvTensors⟩ := kvTensors_refused h hkv rng
  by_cases hne : cur = []
  · subst hne
    obtain ⟨message,hrefused⟩ : ∃ message,
        tensor out [1,((0 : ℕ) : ℤ)] ([] : List ℤ) = .error (.badRequest message) :=
      tensor_refused h [] ⟨0,by simp,by decide⟩
    refine ⟨message,?_⟩
    unfold stepInputs
    dsimp only [List.length_nil]
    rw [hrefused]
    rfl
  · have hids := tensor_row h hne
    have hones : List.replicate cur.length (1 : ℤ) ≠ [] := by simpa using hne
    have hcounted : ((List.range' 0 cur.length).map fun (i : ℕ) => (i : ℤ)) ≠ [] := by simpa using hne
    obtain ⟨mask,hmask⟩ := tensorIf_row h args.topo.attentionMaskName hones
    obtain ⟨positions,hpositions⟩ := tensorIf_row h args.topo.positionIdsName hcounted
    rw [List.length_replicate] at hmask
    rw [List.length_map,List.length_range'] at hpositions
    refine ⟨message,?_⟩
    simp only [stepInputs,start,Nat.zero_add] at hkvTensors ⊢
    rw [hids,hmask,hpositions,hkvTensors]
    rfl

/-- A run on a model with layers ends in its first step, before the session is called: the empty cache is refused. -/
theorem runLoop_refused (h : ChecksShape out.fromArray) (hkv : args.topo.kvLayers ≠ []) (rng : Rng) :
    ∃ message, ∀ fuel, 0 < fuel →
      runLoop out args fuel rng = .returned (start args rng,.error (.badRequest message)) := by
  by_cases hdtype : args.topo.logitsDtype = some .float32
  case neg => exact ⟨_,fun fuel _ => if_pos hdtype⟩
  case pos =>
    obtain ⟨message,hinputs⟩ := stepInputs_refused h hkv rng (args.promptIds.map fun t => (t.toNat : ℤ))
    refine ⟨message,?_⟩
    have hforward : forward out args (start args rng) = some (start args rng,.error (.badRequest message)) := by
      have hcur : curInput args (start args rng) = some (args.promptIds.map fun t => (t.toNat : ℤ)) := if_pos rfl
      simp only [forward,hcur,hinputs]
    have hround : round out args (start args rng) = some (.inr (start args rng,.failed (.badRequest message))) := by
      simp only [round,hforward]
    intro fuel hfuel
    have hloop := loop_return hround fuel hfuel
    unfold runLoop
    rw [if_neg (not_not.mpr hdtype),hloop]
    rfl

end Steps

section Toy

def toyTopology : Topology where
  inputIdsName := some "input_ids"
  attentionMaskName := some "attention_mask"
  positionIdsName := some "position_ids"
  logitsName := some "logits"
  logitsDtype := some .float32
  kvLayers := [⟨"past.0.key","past.0.value","present.0.key","present.0.value"⟩]

/-- A session for at most eight ids in a call and two tokens, whose sampler takes the second one. -/
def toy : Outside Unit where
  fromArray := checkedArray
  run _ entries :=
    match entries with
    | (_,.i64 ids)::_ =>
      if 0 < ids.data.length ∧ ids.data.length ≤ 8 then .ok fun name =>
        if name = "logits" then some (.ok ([1,ids.data.length,2],List.replicate (2*ids.data.length) 0)) else none
      else .error "invalid shape"
    | _ => .error "missing input"
  sampleNext _ _ _ := (1,())
  decode ids := .ok (String.ofList (ids.map fun _ => 'a'))
  reads _ := true

/-- A request for at most so many tokens. -/
def toyBatch (maxTokens : ℕ) : ExecuteBatch where
  requestId := "r"
  model := "m"
  messages := [⟨.user,.text "b"⟩]
  sampling := { maxTokens := some maxTokens }
  stream := true
  estimatedTokensField := 1

def toyArgs (topo : Topology) (maxTokens : ℕ) : Args :=
  .ofBatch topo (toyBatch maxTokens) [0,1] 1 1 256 fun _ => none

/-- A model without layers, which is not one the loop is started on. -/
def bareTopology : Topology := { toyTopology with kvLayers := [] }

theorem toy_noStepFails : NoStepFails toy (toyArgs bareTopology 2) () := by
  refine ⟨rfl,?_⟩
  intro s hs
  obtain rfl | ⟨t,hst,ht⟩ := hs.cases_head
  · exact ⟨_,_,_,rfl,rfl⟩
  · obtain rfl := Sum.inl.inj (Option.some.inj hst)
    obtain rfl | ⟨u,htu,-⟩ := ht.cases_head
    · exact ⟨_,_,_,rfl,rfl⟩
    · exact nomatch htu

end Toy
end RakkaInference.Ort
