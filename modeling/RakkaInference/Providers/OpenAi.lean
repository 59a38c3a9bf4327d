import RakkaInference.Providers.Sse

/-! The OpenAI runner: the lifting of the chat completion stream, and the chunk that is built from
a response which was not streamed. -/
namespace RakkaInference.OpenAi

structure PromptTokensDetails where
  cachedTokens : UInt32 := 0

structure CompletionTokensDetails where
  reasoningTokens : UInt32 := 0

structure UsageDelta where
  promptTokens : UInt32 := 0
  completionTokens : UInt32 := 0
  promptTokensDetails : Option PromptTokensDetails := none
  completionTokensDetails : Option CompletionTokensDetails := none

structure ContentDelta where
  content : Option String := none
  toolCalls : Option Json := none

structure ChoiceDelta where
  delta : ContentDelta := {}
  finishReason : Option String := none

structure ChatChunk where
  id : String := ""
  choices : List ChoiceDelta := []
  usage : Option UsageDelta := none

structure ChatMessage where
  role : String := "assistant"
  content : Json := .null

structure ChatChoice where
  message : ChatMessage := {}
  finishReason : Option String := none

structure ChatResponse where
  id : String
  choices : List ChatChoice
  usage : Option UsageDelta := none

def mapFinishReason : String → Option FinishReason
  | "stop" | "end_turn" => some .stop
  | "length" => some .length
  | "tool_calls" | "function_call" => some .toolCalls
  | "content_filter" => some .contentFilter
  | _ => some .stop

namespace UsageDelta

def cachedTokens (u : UsageDelta) : UInt32 := (u.promptTokensDetails.map (·.cachedTokens)).getD 0

def reasoningTokens (u : UsageDelta) : UInt32 :=
  (u.completionTokensDetails.map (·.reasoningTokens)).getD 0

/-- The usage as it is lifted from a stream. -/
def lift (u : UsageDelta) : TokenUsage where
  inputTokens := u.promptTokens
  outputTokens := u.completionTokens
  cachedTokens := u.cachedTokens
  reasoningTokens := u.reasoningTokens

/-- The usage as it is read from a response. -/
def ofResponse (u : UsageDelta) : TokenUsage where
  inputTokens := u.promptTokens
  outputTokens := u.completionTokens

end UsageDelta

/-- The loop over the choices of a chunk: each one overwrites the finish reason. -/
def readDeltas (choices : List ChoiceDelta) : String × Option FinishReason :=
  choices.foldl (fun (textDelta,_) ch =>
    (match ch.delta.content with
      | some c => textDelta++c
      | none => textDelta,
     ch.finishReason.bind mapFinishReason)) ("",none)

/-- The JSON library decodes the data with `fromStr`. -/
def liftChunk (fromStr : String → Except String ChatChunk) (requestId : String) (sc : SseChunk) :
    Option (Except InferenceError TokenChunk) :=
  if sc.data = "[DONE]" then none
  else match fromStr sc.data with
    | .error e => some (.error (.internal s!"openai chunk decode: {e}"))
    | .ok parsed => some (.ok
        { requestId
          textDelta := (readDeltas parsed.choices).1
          toolCallDelta := parsed.choices.findSome? (·.delta.toolCalls)
          usage := parsed.usage.map UsageDelta.lift
          finishReason := (readDeltas parsed.choices).2 })

/-- The stream that `execute` hands out for a streaming batch. -/
def streamed (fromStr : String → Except String ChatChunk) (requestId : String)
    (items : List (Except InferenceError SseChunk)) : List (Except InferenceError TokenChunk) :=
  liftStream (liftChunk fromStr requestId) items

/-- The loop over the choices of a response. -/
def readChoices (choices : List ChatChoice) : String × Option FinishReason :=
  choices.foldl (fun (text,_) ch =>
    (match ch.message.content with
      | .string s => text++s
      | _ => text,
     ch.finishReason.bind mapFinishReason)) ("",none)

/-- The one chunk that `execute` builds for a batch which does not stream. -/
def unary (requestId : String) (parsed : ChatResponse) : TokenChunk where
  requestId := requestId
  textDelta := (readChoices parsed.choices).1
  usage := parsed.usage.map UsageDelta.ofResponse
  finishReason := (readChoices parsed.choices).2.or (some .stop)

/-! How the chat completions API streams a response. -/

inductive Sent
  | chunk (chunk : ChatChunk)
  | done

/-- A chunk with a piece of the text. -/
def pieceChunk (id : String) (content : Option String) : ChatChunk where
  id := id
  choices := [{ delta := { content } }]

/-- A stream of a response with one choice: the text in pieces, then a chunk with the finish
reason, and a chunk without choices that reports the usage. -/
def Streams (resp : ChatResponse) (sent : List Sent) : Prop :=
  ∃ (id role text : String) (finish : Option String) (pieces : List (Option String)),
    resp.choices = [⟨⟨role,.string text⟩,finish⟩] ∧
    String.join (pieces.map (·.getD "")) = text ∧
    sent = pieces.map (fun p => .chunk (pieceChunk id p))++
      [.chunk { id, choices := [{ finishReason := finish }] },.chunk { id, usage := resp.usage },.done]

/-- The data of an item decodes to the chunk, or marks the end. -/
def Carries (fromStr : String → Except String ChatChunk) : Sent → SseChunk → Prop
  | .chunk chunk,sc => sc.data ≠ "[DONE]" ∧ fromStr sc.data = .ok chunk
  | .done,sc => sc.data = "[DONE]"

def chunkOf (requestId : String) : Sent → Option TokenChunk
  | .chunk chunk => some
      { requestId
        textDelta := (readDeltas chunk.choices).1
        toolCallDelta := chunk.choices.findSome? (·.delta.toolCalls)
        usage := chunk.usage.map UsageDelta.lift
        finishReason := (readDeltas chunk.choices).2 }
  | .done => none

variable {fromStr : String → Except String ChatChunk} {requestId : String} {resp : ChatResponse}

theorem Carries.lift {s : Sent} {sc : SseChunk} (h : Carries fromStr s sc) :
    (liftChunk fromStr requestId sc).bind Except.toOption = chunkOf requestId s := by
  unfold liftChunk
  cases s with
  | chunk chunk =>
    obtain ⟨hdata,hdecodes⟩ := h
    rw [if_neg hdata,hdecodes]
    rfl
  | done =>
    have hdata : sc.data = "[DONE]" := h
    rw [if_pos hdata]
    rfl

theorem chunkOf_piece (id : String) (p : Option String) :
    chunkOf requestId (.chunk (pieceChunk id p)) = some { requestId, textDelta := p.getD "" } := by
  cases p with
  | none => rfl
  | some p => simp [chunkOf,pieceChunk,readDeltas]

/-- What is lifted from a stream: the pieces of the text, the finish and the usage. -/
theorem Streams.lifted (requestId : String) {sent : List Sent} (h : Streams resp sent) :
    ∃ (role text : String) (finish : Option String) (pieces : List (Option String)),
      resp.choices = [⟨⟨role,.string text⟩,finish⟩] ∧ String.join (pieces.map (·.getD "")) = text ∧
      sent.filterMap (chunkOf requestId) = pieces.map (fun p => { requestId, textDelta := p.getD "" })++
        [{ requestId, textDelta := "", finishReason := finish.bind mapFinishReason },
         { requestId, textDelta := "", usage := resp.usage.map UsageDelta.lift }] := by
  obtain ⟨id,role,text,finish,pieces,hchoices,htext,rfl⟩ := h
  refine ⟨role,text,finish,pieces,hchoices,htext,?_⟩
  rw [List.filterMap_append,List.filterMap_map]
  congr 1
  rw [← List.filterMap_eq_map]
  congr 1
  funext p
  exact chunkOf_piece id p

/-- A chunk reports a finish reason, and the response has the same, unless it has none. -/
theorem finish_eq_iff (finish : Option String) :
    finish.bind mapFinishReason = (finish.bind mapFinishReason).or (some .stop) ↔ finish.isSome := by
  cases finish with
  | none => simp
  | some reason => fun_cases mapFinishReason reason <;> simp [mapFinishReason]

theorem usage_lift_iff (usage : Option UsageDelta) :
    (usage.map UsageDelta.lift).getD 0 = (usage.map UsageDelta.ofResponse).getD 0 ↔
      ∀ u ∈ usage, u.cachedTokens = 0 ∧ u.reasoningTokens = 0 := by
  cases usage with
  | none => simp
  | some u => simp [UsageDelta.lift,UsageDelta.ofResponse,and_comm]

/-- The stream of a response and its single chunk agree when the response has a finish reason and
counts no token in detail. -/
theorem streamed_chat_agrees_iff (fromStr : String → Except String ChatChunk) (requestId : String)
    (resp : ChatResponse) (sent : List Sent) (scs : List SseChunk)
    (hstreams : Streams resp sent) (hcarries : List.Forall₂ (Carries fromStr) sent scs) :
    (({} : Tokens).collect (okChunks (streamed fromStr requestId (scs.map .ok)))).Agrees
        (({} : Tokens).append (unary requestId resp)) ↔
      (∀ u ∈ resp.usage, u.cachedTokens = 0 ∧ u.reasoningTokens = 0) ∧
        ∀ ch ∈ resp.choices, ch.finishReason.isSome := by
  obtain ⟨role,text,finish,pieces,hchoices,htext,hlifted⟩ := hstreams.lifted requestId
  rw [streamed,okChunks_of_forall₂ (fun s sc h => h.lift) hcarries,hlifted,Tokens.agrees_append_iff,
    ← usage_lift_iff,hchoices,List.forall_mem_singleton,← finish_eq_iff]
  simp [List.map_map,Function.comp_def,htext,unary,Tokens.sum_usage_cons,hchoices,readChoices]

def doneItem : SseChunk := { data := "[DONE]" }

/-- The items of a table, and the end mark. -/
theorem carries_table {table : List (SseChunk × ChatChunk)}
    (hdata : (table.map fun row => row.1.data).Nodup) (hne : ∀ row ∈ table, row.1.data ≠ "[DONE]") :
    List.Forall₂ (Carries (decodeTable table)) ((table.map Prod.snd).map .chunk++[.done])
      (table.map Prod.fst++[doneItem]) := by
  refine List.rel_append ?_ (.cons rfl .nil)
  rw [List.forall₂_map_left_iff]
  exact forall₂_table fun row hrow => ⟨hne row hrow,decodeTable_of_mem hdata hrow⟩

/-- The stream of a hello, with the usage report that comes last. -/
def helloStream (usageData : String) (usage : UsageDelta) : List (SseChunk × ChatChunk) :=
  [(⟨none,"\x7b\"id\":\"c1\",\"choices\":[\x7b\"delta\":\x7b\"content\":\"Hel\"\x7d\x7d]\x7d"⟩,
     pieceChunk "c1" (some "Hel")),
   (⟨none,"\x7b\"id\":\"c1\",\"choices\":[\x7b\"delta\":\x7b\"content\":\"lo\"\x7d\x7d]\x7d"⟩,
     pieceChunk "c1" (some "lo")),
   (⟨none,"\x7b\"id\":\"c1\",\"choices\":[\x7b\"delta\":\x7b\x7d,\"finish_reason\":\"length\"\x7d]\x7d"⟩,
     { id := "c1", choices := [{ finishReason := some "length" }] }),
   (⟨none,"\x7b\"id\":\"c1\",\"choices\":[],\"usage\":"++usageData++"\x7d"⟩,{ id := "c1", usage := some usage })]

def plainStream : List (SseChunk × ChatChunk) :=
  helloStream "\x7b\"prompt_tokens\":5,\"completion_tokens\":2\x7d"
    { promptTokens := 5, completionTokens := 2 }

theorem streamed_chat_agrees_plain :
    let resp : ChatResponse := ⟨"c1",[⟨⟨"assistant",.string "Hello"⟩,some "length"⟩],
      some { promptTokens := 5, completionTokens := 2 }⟩
    (({} : Tokens).collect (okChunks (streamed (decodeTable plainStream) "r"
        ((plainStream.map Prod.fst++[doneItem]).map .ok)))).Agrees
      (({} : Tokens).append (unary "r" resp)) := by
  intro resp
  have hstreams : Streams resp ((plainStream.map Prod.snd).map .chunk++[.done]) :=
    ⟨"c1","assistant","Hello",some "length",[some "Hel",some "lo"],rfl,by decide +kernel,rfl⟩
  refine (streamed_chat_agrees_iff (decodeTable plainStream) "r" resp _ _ hstreams
    (carries_table (by decide +kernel) (by decide +kernel))).2 ⟨?_,?_⟩
  · intro u hu
    obtain rfl : _ = u := Option.some.inj hu
    exact ⟨rfl,rfl⟩
  · intro ch hch
    obtain rfl : ch = _ := List.mem_singleton.1 hch
    rfl

def detailedStream : List (SseChunk × ChatChunk) :=
  helloStream ("\x7b\"prompt_tokens\":5,\"completion_tokens\":2,"++
      "\"prompt_tokens_details\":\x7b\"cached_tokens\":4\x7d\x7d")
    { promptTokens := 5, completionTokens := 2, promptTokensDetails := some ⟨4⟩ }

/-- The cached tokens of the response are not read. -/
theorem streamed_chat_disagrees_detailed :
    let resp : ChatResponse := ⟨"c1",[⟨⟨"assistant",.string "Hello"⟩,some "length"⟩],
      some { promptTokens := 5, completionTokens := 2, promptTokensDetails := some ⟨4⟩ }⟩
    let sent := (detailedStream.map Prod.snd).map Sent.chunk++[.done]
    let scs := detailedStream.map Prod.fst++[doneItem]
    let got := ({} : Tokens).collect (okChunks (streamed (decodeTable detailedStream) "r" (scs.map .ok)))
    let want := ({} : Tokens).append (unary "r" resp)
    (Streams resp sent ∧ List.Forall₂ (Carries (decodeTable detailedStream)) sent scs) ∧
      got = { text := "Hello", usage := { inputTokens := 5, outputTokens := 2, cachedTokens := 4 },
              finishReason := some .length } ∧
      want = { text := "Hello", usage := { inputTokens := 5, outputTokens := 2 },
               finishReason := some .length } ∧
      ¬ got.Agrees want := by
  refine ⟨⟨⟨"c1","assistant","Hello",some "length",[some "Hel",some "lo"],rfl,by decide +kernel,rfl⟩,
    carries_table (by decide +kernel) (by decide +kernel)⟩,?_,?_,?_⟩
  · decide +kernel
  · decide +kernel
  · decide +kernel

end RakkaInference.OpenAi
