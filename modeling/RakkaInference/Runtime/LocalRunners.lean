import RakkaInference.Core.Tokens
import RakkaInference.Machine.Once
import RakkaInference.Remote.Session
import RakkaInference.Remote.Worker

/-! The runners of the engines on this host. An engine is launched when the first request needs it, and kept until a
rebuild of the session asks for another. -/
namespace RakkaInference
open Machine
variable {μ κ : Type}

def SessionRebuildCause.dropsEngine : SessionRebuildCause → Bool
  | .cudaContextPoisoned | .manual => true
  | .remoteAuthFailure | .remoteConfigChange => false

/-- A runner, by how a call launches its engine and what the engine makes of the call. -/
structure LocalRunner (μ κ : Type) where
  launch : κ → Except InferenceError μ
  generate : μ → κ → Execution

inductive RunnerCall (κ : Type)
  | execute (call : κ)
  | rebuildSession (cause : SessionRebuildCause)

inductive RunnerAnswer
  | ran (e : Execution)
  | rebuilt (res : Except InferenceError Unit)

namespace LocalRunner

def execute (r : LocalRunner μ κ) (engine : Option μ) (call : κ) : Option μ × Execution :=
  let got := getOrTryInit engine (r.launch call)
  (got.1,match got.2 with
    | .ok m => r.generate m call
    | .error e => .failed e)

def rebuildSession (engine : Option μ) (cause : SessionRebuildCause) : Option μ × Except InferenceError Unit :=
  (if cause.dropsEngine then none else engine,.ok ())

def step (r : LocalRunner μ κ) (engine : Option μ) : RunnerCall κ → Option μ × RunnerAnswer
  | .execute call => ((r.execute engine call).1,.ran (r.execute engine call).2)
  | .rebuildSession cause => ((rebuildSession engine cause).1,.rebuilt (rebuildSession engine cause).2)

def engineAfter (r : LocalRunner μ κ) (calls : List (RunnerCall κ)) : Option μ :=
  calls.foldl (fun engine call => (r.step engine call).1) none

/-- The cell of the engine under a call. -/
def use (r : LocalRunner μ κ) : RunnerCall κ → CellUse InferenceError μ
  | .execute call => .ask (r.launch call)
  | .rebuildSession cause => if cause.dropsEngine then .clear else .leave

/-- The engine that a call launches. -/
def launches (r : LocalRunner μ κ) (engine : Option μ) : RunnerCall κ → List μ
  | .execute call => if engine.isNone then (r.launch call).toOption.toList else []
  | .rebuildSession _ => []

/-- The engines that are launched in the course of some calls. -/
def launched (r : LocalRunner μ κ) : Option μ → List (RunnerCall κ) → List μ
  | _, [] => []
  | engine, call::calls => r.launches engine call++r.launched (r.step engine call).1 calls

variable (r : LocalRunner μ κ)

theorem step_fst (engine : Option μ) (call : RunnerCall κ) : (r.step engine call).1 = (r.use call).after engine := by
  cases call with
  | execute c => rfl
  | rebuildSession cause => cases cause <;> rfl

theorem engineAfter_eq (calls : List (RunnerCall κ)) : r.engineAfter calls = cellAfter (calls.map r.use) := by
  unfold engineAfter cellAfter
  rw [List.foldl_map]
  congr
  funext engine call
  exact r.step_fst engine call

theorem launches_eq (engine : Option μ) (call : RunnerCall κ) :
    r.launches engine call = (r.use call).builds engine := by
  cases call with
  | execute c =>
    simp only [launches,use,CellUse.builds,CellUse.offered]
    cases r.launch c <;> rfl
  | rebuildSession cause => cases engine <;> cases cause <;> rfl

theorem launched_eq (engine : Option μ) (calls : List (RunnerCall κ)) :
    r.launched engine calls = allBuilt engine (calls.map r.use) := by
  induction calls generalizing engine with
  | nil => rfl
  | cons call calls ih => rw [launched,List.map_cons,allBuilt,r.launches_eq,ih,r.step_fst]

/-- A request goes to the engine that the first successful launch has made since the last rebuild for a poisoned
context or by hand, and to its own launch where there is none. An engine is launched once for each such rebuild at
most, and once before. -/
structure LaunchLaw (r : LocalRunner μ κ) : Prop where
  answer : ∀ calls call, (r.step (r.engineAfter calls) (.execute call)).2 =
    .ran (match ((sinceClear (calls.map r.use)).findSome? CellUse.offered).elim (r.launch call) .ok with
      | .ok m => r.generate m call
      | .error e => .failed e)
  once : ∀ calls, (r.launched none calls).length ≤ 1+calls.countP fun
    | .execute _ => false
    | .rebuildSession cause => cause.dropsEngine

theorem launchLaw : LaunchLaw r := by
  constructor
  · intro calls call
    simp only [step,execute]
    rw [getOrTryInit_snd,r.engineAfter_eq,cellAfter_eq]
  · intro calls
    rw [launched_eq]
    refine (length_allBuilt_le _ _).trans (Nat.le_of_eq ?_)
    rw [List.countP_map]
    congr 2
    funext call
    cases call with
    | execute c => rfl
    | rebuildSession cause => cases cause <;> rfl

/-- A runner that never launches an engine has none. -/
theorem engineAfter_of_failing {r : LocalRunner μ κ} {e : InferenceError} (h : ∀ call, r.launch call = .error e)
    (calls : List (RunnerCall κ)) : r.engineAfter calls = none := by
  induction calls using List.reverseRecOn with
  | nil => rfl
  | append_singleton calls call ih =>
    rw [engineAfter,List.foldl_append]
    change (r.step (r.engineAfter calls) call).1 = none
    rw [ih,step_fst]
    cases call with
    | execute c => simp only [use,CellUse.after,h,getOrTryInit]
    | rebuildSession cause => cases cause <;> rfl

end LocalRunner

/-- What a call finds. The interpreter has launched an engine or not, and an engine generates. -/
structure VllmCall (μ : Type) where
  launched : Except InferenceError μ
  generated : μ → Execution

def vllmRunner : LocalRunner μ (VllmCall μ) where
  launch call := call.launched
  generate engine call := call.generated engine

namespace MistralRs

structure MistralRsConfig where
  modelId : String
  quant : Option String := none
  hfRevision : Option String := none
  forceCpu : Bool := false
  maxNumSeqs : Option ℕ := none

/-- The settings of the builder of the library. -/
structure TextModelBuilder (Isq : Type) where
  modelId : String
  forceCpu : Bool := false
  hfRevision : Option String := none
  maxNumSeqs : Option ℕ := none
  isq : Option Isq := none

structure ChunkChoice where
  content : Option String
  finishReason : Option String

inductive Response
  | chunk (choices : List ChunkChoice)
  | done (promptTokens completionTokens : ℕ) (finishReasons : List String)
  | modelError (msg : String)
  | internalError (e : String)
  | validationError (e : String)
  | other

/-- A request, with what the library does for it. After so many sends the receiver is gone. -/
structure Call (Isq μ : Type) where
  batch : ExecuteBatch
  build : TextModelBuilder Isq → Except String μ
  streamChatRequest : μ → List (Role × String) → Except String (List Response)
  gone : Option ℕ := none

def messageText (m : Message) : String :=
  match m.content with
  | .text s => s
  | .parts ps => "\n".intercalate <| ps.filterMap fun
    | .text s => some s
    | .imageBase64 _ _ | .imageUrl _ => none

def mapFinishReason : String → FinishReason
  | "stop" => .stop
  | "length" => .length
  | "tool_calls" => .toolCalls
  | "content_filter" => .contentFilter
  | _ => .stop

variable {Isq : Type} {requestId : String} {gone : Option ℕ}

/-- What `ensure_model` does where there is no model yet. -/
def MistralRsConfig.launch (config : MistralRsConfig) (parseIsqValue : String → Except String Isq)
    (call : Call Isq μ) : Except InferenceError μ := do
  let builder : TextModelBuilder Isq :=
    { modelId := config.modelId, forceCpu := config.forceCpu, hfRevision := config.hfRevision,
      maxNumSeqs := config.maxNumSeqs }
  let isq ← match config.quant with
    | none => .ok none
    | some q =>
      match parseIsqValue q with
      | .ok isq => .ok (some isq)
      | .error e => .error (.internal s!"mistralrs: bad quant '{q}': {e}")
  match call.build { builder with isq } with
  | .ok model => .ok model
  | .error e => .error (.internal s!"mistralrs: failed to build model '{config.modelId}': {e}")

def chunkOf (requestId : String) (choices : List ChunkChoice) : TokenChunk where
  requestId := requestId
  textDelta := (choices.head?.bind ChunkChoice.content).getD ""
  finishReason := (choices.head?.bind ChunkChoice.finishReason).map mapFinishReason

def doneOf (requestId : String) (promptTokens completionTokens : ℕ) (finishReasons : List String) : TokenChunk where
  requestId := requestId
  textDelta := ""
  usage := some { inputTokens := UInt32.ofNat promptTokens, outputTokens := UInt32.ofNat completionTokens }
  finishReason := (finishReasons.head?.map mapFinishReason).or (some .stop)

/-- A send, where so many have gone before. -/
def trySend (gone : Option ℕ) (n : ℕ) (item : Except InferenceError TokenChunk) :
    List (Except InferenceError TokenChunk) :=
  if gone.any (· ≤ n) then [] else [item]

/-- The loop over the responses: what it sends, and what it leaves in the stream. -/
def relay (requestId : String) (gone : Option ℕ) :
    ℕ → List Response → List (Except InferenceError TokenChunk) × List Response
  | _, [] => ([],[])
  | n, .chunk choices::rs =>
    match trySend gone n (.ok (chunkOf requestId choices)) with
    | [] => ([],rs)
    | sent => (sent++(relay requestId gone (n+1) rs).1,(relay requestId gone (n+1) rs).2)
  | n, .done promptTokens completionTokens finishReasons::rs =>
    (trySend gone n (.ok (doneOf requestId promptTokens completionTokens finishReasons)),rs)
  | n, .modelError msg::rs => (trySend gone n (.error (.internal s!"mistralrs model error: {msg}")),rs)
  | n, .internalError e::rs => (trySend gone n (.error (.internal s!"mistralrs error: {e}")),rs)
  | n, .validationError e::rs => (trySend gone n (.error (.internal s!"mistralrs error: {e}")),rs)
  | n, .other::rs => (trySend gone n (.error (.internal "mistralrs: unexpected response variant")),rs)

def generate (model : μ) (call : Call Isq μ) : Execution :=
  match call.streamChatRequest model (call.batch.messages.map fun m => (m.role,messageText m)) with
  | .error e => .streaming (trySend call.gone 0 (.error (.internal s!"mistralrs: stream_chat_request failed: {e}")))
  | .ok rs => .streaming (relay call.batch.requestId call.gone 0 rs).1

def runner (config : MistralRsConfig) (parseIsqValue : String → Except String Isq) : LocalRunner μ (Call Isq μ) where
  launch := config.launch parseIsqValue
  generate := generate

theorem launch_of_badQuant {config : MistralRsConfig} {parseIsqValue : String → Except String Isq} {q e : String}
    (hq : config.quant = some q) (he : parseIsqValue q = .error e) (call : Call Isq μ) :
    config.launch parseIsqValue call = .error (.internal s!"mistralrs: bad quant '{q}': {e}") := by
  simp only [MistralRsConfig.launch,hq,he]
  rfl

/-- Both kinds of runners keep their engine in this way, and with a quantisation that cannot be read there is
never one. -/
theorem engines_launch_once (config : MistralRsConfig) (parseIsqValue : String → Except String Isq) :
    LocalRunner.LaunchLaw (vllmRunner : LocalRunner μ (VllmCall μ)) ∧
      LocalRunner.LaunchLaw (runner config parseIsqValue : LocalRunner μ (Call Isq μ)) ∧
      ∀ q e, config.quant = some q → parseIsqValue q = .error e → ∀ (calls : List (RunnerCall (Call Isq μ))) call,
        ((runner config parseIsqValue).step ((runner config parseIsqValue).engineAfter calls) (.execute call)).2 =
          .ran (.failed (.internal s!"mistralrs: bad quant '{q}': {e}")) := by
  refine ⟨LocalRunner.launchLaw _,LocalRunner.launchLaw _,?_⟩
  intro q e hq he calls call
  have hlaunch : ∀ call : Call Isq μ, (runner config parseIsqValue).launch call =
      .error (.internal s!"mistralrs: bad quant '{q}': {e}") := launch_of_badQuant hq he
  rw [LocalRunner.engineAfter_of_failing hlaunch calls]
  simp only [LocalRunner.step,LocalRunner.execute]
  rw [getOrTryInit_snd,Option.elim_none,hlaunch]

/-- The item that a response ends the stream with. -/
def closing (requestId : String) : Response → Option (Except InferenceError TokenChunk)
  | .chunk _ => none
  | .done promptTokens completionTokens finishReasons =>
    some (.ok (doneOf requestId promptTokens completionTokens finishReasons))
  | .modelError msg => some (.error (.internal s!"mistralrs model error: {msg}"))
  | .internalError e | .validationError e => some (.error (.internal s!"mistralrs error: {e}"))
  | .other => some (.error (.internal "mistralrs: unexpected response variant"))

theorem relay_of_closing {n : ℕ} {r : Response} {rs : List Response} {item : Except InferenceError TokenChunk}
    (h : closing requestId r = some item) : relay requestId gone n (r::rs) = (trySend gone n item,rs) := by
  cases r with
  | chunk choices => cases h
  | _ =>
    obtain rfl := Option.some.inj h
    rfl

/-- What the loop has to send. -/
def itemsOf (requestId : String) : List Response → List (Except InferenceError TokenChunk)
  | [] => []
  | .chunk choices::rs => .ok (chunkOf requestId choices)::itemsOf requestId rs
  | r::_ => (closing requestId r).toList

theorem itemsOf_of_closing {r : Response} {rs : List Response} {item : Except InferenceError TokenChunk}
    (h : closing requestId r = some item) : itemsOf requestId (r::rs) = [item] := by
  cases r with
  | chunk choices => cases h
  | _ =>
    obtain rfl := Option.some.inj h
    rfl

theorem itemsOf_chunks (cs : List (List ChunkChoice)) {rest : List Response}
    (hrest : ∀ r ∈ rest.head?, (closing requestId r).isSome) : itemsOf requestId (cs.map Response.chunk++rest) =
      cs.map (fun choices => .ok (chunkOf requestId choices))++(rest.head?.bind (closing requestId)).toList := by
  induction cs with
  | nil =>
    cases rest with
    | nil => rfl
    | cons r rest =>
      obtain ⟨item,hitem⟩ := Option.isSome_iff_exists.mp (hrest r rfl)
      rw [List.map_nil,List.nil_append,itemsOf_of_closing hitem,List.head?_cons,Option.bind_some,hitem]
      rfl
  | cons choices cs ih =>
    rw [List.map_cons,List.cons_append,itemsOf,ih]
    rfl

/-- What is sent of some items, where so many have gone before. -/
def within (gone : Option ℕ) (n : ℕ) (items : List (Except InferenceError TokenChunk)) :
    List (Except InferenceError TokenChunk) :=
  gone.elim items fun g => items.take (g-n)

theorem within_cons (n : ℕ) (item : Except InferenceError TokenChunk)
    (items : List (Except InferenceError TokenChunk)) :
    within gone n (item::items) = if gone.any (· ≤ n) then [] else item::within gone (n+1) items := by
  cases gone with
  | none => rfl
  | some g =>
    by_cases hg : g ≤ n
    · simp [within,hg,Nat.sub_eq_zero_of_le hg]
    · obtain ⟨k,hk⟩ := Nat.exists_eq_add_of_lt (Nat.lt_of_not_le hg)
      have hsub : g-n = g-(n+1)+1 := by omega
      simp [within,hg,hsub]

theorem within_nil (n : ℕ) : within gone n [] = [] := by
  cases gone <;> simp [within]

theorem trySend_eq (n : ℕ) (item : Except InferenceError TokenChunk) :
    trySend gone n item = within gone n [item] := by
  rw [within_cons,within_nil]
  rfl

/-- How many chunks are taken from the stream, with the one whose send fails. -/
def taken (gone : Option ℕ) (n m : ℕ) : ℕ := gone.elim m fun g => min m (g-n)

theorem taken_succ (n m : ℕ) : taken gone n (m+1) = if gone.any (· ≤ n) then 0 else taken gone (n+1) m+1 := by
  cases gone with
  | none => rfl
  | some g =>
    by_cases hg : g ≤ n
    · simp [taken,hg,Nat.sub_eq_zero_of_le hg]
    · simp [taken,hg]
      omega

theorem relay_chunks (cs : List (List ChunkChoice)) (rest : List Response) (n : ℕ)
    (hrest : ∀ r ∈ rest.head?, (closing requestId r).isSome) : relay requestId gone n (cs.map Response.chunk++rest) =
      (within gone n (itemsOf requestId (cs.map Response.chunk++rest)),
        (cs.map Response.chunk++rest).drop (taken gone n cs.length+1)) := by
  induction cs generalizing n with
  | nil =>
    cases rest with
    | nil => simp [relay,itemsOf,within_nil]
    | cons r rest =>
      obtain ⟨item,hitem⟩ := Option.isSome_iff_exists.mp (hrest r rfl)
      have htaken : taken gone n 0 = 0 := by cases gone <;> simp [taken]
      rw [List.map_nil,List.nil_append,relay_of_closing hitem,itemsOf_of_closing hitem,trySend_eq,List.length_nil,
        htaken]
      rfl
  | cons choices cs ih =>
    rw [List.map_cons,List.cons_append,relay,itemsOf,within_cons,List.length_cons,taken_succ,List.drop_succ_cons,
      trySend]
    by_cases hgone : gone.any (· ≤ n) = true
    · simp [hgone]
    · simp only [hgone,Bool.false_eq_true,if_false,ih]
      rfl

theorem exists_chunks (requestId : String) (rs : List Response) :
    ∃ (cs : List (List ChunkChoice)) (rest : List Response), rs = cs.map Response.chunk++rest ∧
      ∀ r ∈ rest.head?, (closing requestId r).isSome := by
  induction rs with
  | nil => exact ⟨[],[],rfl,by simp⟩
  | cons r rs ih =>
    cases r with
    | chunk choices =>
      obtain ⟨cs,rest,rfl,hrest⟩ := ih
      exact ⟨choices::cs,rest,rfl,hrest⟩
    | _ => exact ⟨[],_,rfl,by simp [closing]⟩

theorem okChunks_items (cs : List (List ChunkChoice)) (items : List (Except InferenceError TokenChunk)) :
    okChunks (cs.map (fun choices => .ok (chunkOf requestId choices))++items) =
      cs.map (chunkOf requestId)++okChunks items := by
  rw [okChunks_append,okChunks,List.filterMap_map]
  congr 1
  induction cs with
  | nil => rfl
  | cons choices cs ih => exact congrArg (chunkOf requestId choices::·) ih

/-- What a whole stream hands on. -/
def handed (requestId : String) (cs : List (List ChunkChoice)) (last : Option Response) :
    List (Except InferenceError TokenChunk) :=
  cs.map (fun choices => .ok (chunkOf requestId choices))++(last.bind (closing requestId)).toList

def usageAt : Option Response → TokenUsage
  | some (.done promptTokens completionTokens _) =>
    { inputTokens := UInt32.ofNat promptTokens, outputTokens := UInt32.ofNat completionTokens }
  | _ => {}

/-- A stream of chunks and what comes after them, which starts with no chunk. -/
structure Relayed (requestId : String) (gone : Option ℕ) (cs : List (List ChunkChoice)) (rest : List Response) :
    Prop where
  closed : ∀ r ∈ rest.head?, (closing requestId r).isSome
  sent : (relay requestId gone 0 (cs.map .chunk++rest)).1 =
    gone.elim (handed requestId cs rest.head?) (handed requestId cs rest.head?).take
  left : (relay requestId gone 0 (cs.map .chunk++rest)).2 =
    (cs.map Response.chunk++rest).drop (gone.elim cs.length (min cs.length)+1)
  text : (({} : Tokens).collect (okChunks (handed requestId cs rest.head?))).text =
    String.join (cs.map fun choices => (choices.head?.bind ChunkChoice.content).getD "")
  usage : (({} : Tokens).collect (okChunks (handed requestId cs rest.head?))).usage = usageAt rest.head?

/-- The texts and the usage of the item that ends a stream. -/
theorem okChunks_closing (requestId : String) (last : Option Response) :
    String.join ((okChunks (last.bind (closing requestId)).toList).map TokenChunk.textDelta) = "" ∧
      ((okChunks (last.bind (closing requestId)).toList).filterMap TokenChunk.usage).sum = usageAt last := by
  cases last with
  | none => exact ⟨rfl,rfl⟩
  | some r =>
    cases r with
    | done promptTokens completionTokens finishReasons =>
      exact ⟨rfl,add_zero (usageAt (some (.done promptTokens completionTokens finishReasons)))⟩
    | _ => exact ⟨rfl,rfl⟩

/-- The responses of an engine are handed on in order, up to the first that is no chunk or until the receiver is
gone, and nothing is taken behind it. The output that the whole stream is put together to has the texts of the
first choices and the usage of the end, if the engine got to it. -/
theorem stream_law (requestId : String) (gone : Option ℕ) (rs : List Response) :
    ∃ (cs : List (List ChunkChoice)) (rest : List Response), rs = cs.map Response.chunk++rest ∧
      Relayed requestId gone cs rest := by
  obtain ⟨cs,rest,rfl,hrest⟩ := exists_chunks requestId rs
  obtain ⟨htext,husage⟩ := okChunks_closing requestId rest.head?
  refine ⟨cs,rest,rfl,hrest,?_,?_,?_,?_⟩
  · rw [relay_chunks cs rest 0 hrest,itemsOf_chunks cs hrest]
    cases gone <;> rfl
  · rw [relay_chunks cs rest 0 hrest]
    cases gone <;> rfl
  · rw [handed,okChunks_items,Tokens.text_collect,List.map_append,String.join_append,List.map_map]
    rw [htext,String.append_empty]
    exact String.empty_append
  · have hnone : (cs.map (chunkOf requestId)).filterMap TokenChunk.usage = [] := by
      simp [chunkOf]
    rw [handed,okChunks_items,Tokens.usage_collect,List.filterMap_append,hnone,List.nil_append,husage]
    exact zero_add (usageAt rest.head?)

end MistralRs
end RakkaInference
