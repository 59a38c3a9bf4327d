import RakkaInference.Providers.Sse

/-! The Anthropic runner: the lifting of the Messages event stream, and the chunk that is built
from a response which was not streamed. -/
namespace RakkaInference.Anthropic

structure UsageDelta where
  inputTokens : UInt32 := 0
  outputTokens : UInt32 := 0
  cacheCreationInputTokens : UInt32 := 0
  cacheReadInputTokens : UInt32 := 0
  deriving DecidableEq

structure MessageStart where
  id : String
  usage : Option UsageDelta

inductive BlockDelta
  | textDelta (text : String)
  | inputJsonDelta (partialJson : String)

structure MessageDelta where
  stopReason : Option String := none

structure AnthropicErrorBody where
  kind : String
  message : String

inductive SseEvent
  | messageStart (message : MessageStart)
  | contentBlockStart (index : UInt32)
  | contentBlockDelta (index : UInt32) (delta : BlockDelta)
  | contentBlockStop (index : UInt32)
  | messageDelta (delta : MessageDelta) (usage : Option UsageDelta)
  | messageStop
  | ping
  | error (error : AnthropicErrorBody)

inductive ResponseContent
  | text (text : String)
  | toolUse (id name : String) (input : Json)

structure MessagesResponse where
  id : String
  content : List ResponseContent := []
  stopReason : Option String := none
  usage : Option UsageDelta := none

def mapStopReason : String → FinishReason
  | "end_turn" | "stop_sequence" => .stop
  | "max_tokens" => .length
  | "tool_use" => .toolCalls
  | _ => .stop

def UsageDelta.toTokenUsage (u : UsageDelta) : TokenUsage where
  inputTokens := u.inputTokens
  outputTokens := u.outputTokens
  cachedTokens := u.cacheReadInputTokens

/-- The arms of `lift_event` for an event that was decoded. -/
def liftDecoded (requestId : String) : SseEvent → Option (Except InferenceError TokenChunk)
  | .contentBlockDelta _ (.textDelta text) => some (.ok { requestId, textDelta := text })
  | .contentBlockDelta _ (.inputJsonDelta partialJson) =>
    some (.ok { requestId, textDelta := "", toolCallDelta := some (.string partialJson) })
  | .messageDelta delta usage => some (.ok
      { requestId, textDelta := "", usage := usage.map UsageDelta.toTokenUsage,
        finishReason := delta.stopReason.map mapStopReason })
  | .messageStart _ => none
  | .messageStop => some (.ok { requestId, textDelta := "", finishReason := some .stop })
  | .error error => some (.error (.internal s!"anthropic stream error: {error.kind}: {error.message}"))
  | _ => none

/-- The JSON library decodes the data with `fromStr`. -/
def liftEvent (fromStr : String → Except String SseEvent) (requestId : String) (sc : SseChunk) :
    Option (Except InferenceError TokenChunk) :=
  let eventKind := sc.event.getD ""
  if eventKind = "ping" ∨ sc.data = "" then none
  else match fromStr sc.data with
    | .error e => some (.error (.internal s!"anthropic event decode: {e}"))
    | .ok ev => liftDecoded requestId ev

/-- The stream that `execute` hands out for a streaming batch. -/
def streamed (fromStr : String → Except String SseEvent) (requestId : String)
    (items : List (Except InferenceError SseChunk)) : List (Except InferenceError TokenChunk) :=
  liftStream (liftEvent fromStr requestId) items

/-- The loop over the content blocks. -/
def responseText (content : List ResponseContent) : String :=
  content.foldl (fun text c => match c with
    | .text t => text++t
    | .toolUse _ _ _ => text) ""

/-- The one chunk that `execute` builds for a batch which does not stream. -/
def unary (requestId : String) (parsed : MessagesResponse) : TokenChunk where
  requestId := requestId
  textDelta := responseText parsed.content
  usage := parsed.usage.map UsageDelta.toTokenUsage
  finishReason := (parsed.stopReason.map mapStopReason).or (some .stop)

/-! How the Messages API streams a response. -/

def UsageDelta.inputSide (u : UsageDelta) : UsageDelta := { u with outputTokens := 0 }

def UsageDelta.outputSide (u : UsageDelta) : UsageDelta := { outputTokens := u.outputTokens }

def textBlock (index : UInt32) (pieces : List String) : List SseEvent :=
  .contentBlockStart index::pieces.map (fun p => .contentBlockDelta index (.textDelta p))++
    [.contentBlockStop index]

def textBlocks : ℕ → List (List String) → List SseEvent
  | _,[] => []
  | i,pieces::rest => textBlock (.ofNat i) pieces++textBlocks (i+1) rest

def SseEvent.isPing : SseEvent → Bool
  | .ping => true
  | _ => false

/-- An event sequence streams a response: each text block is split into pieces, the usage of the
input is on the first event and the usage of the output on the last but one, and pings are
anywhere. -/
def Streams (resp : MessagesResponse) (evs : List SseEvent) : Prop :=
  ∃ (pieces : List (List String)) (start : MessageStart),
    resp.content = pieces.map (fun ps => .text (String.join ps)) ∧
    start.usage.map UsageDelta.inputSide = resp.usage.map UsageDelta.inputSide ∧
    evs.filter (fun ev => !ev.isPing) =
      .messageStart start::textBlocks 0 pieces++
        [.messageDelta ⟨resp.stopReason⟩ (resp.usage.map UsageDelta.outputSide),.messageStop]

/-- The data of an item decodes to the event, and only pings are labelled as such. -/
structure Carries (fromStr : String → Except String SseEvent) (ev : SseEvent) (sc : SseChunk) : Prop where
  data : sc.data ≠ ""
  decodes : fromStr sc.data = .ok ev
  ping : sc.event = some "ping" → ev.isPing = true

/-- The chunk that an event comes to, unless it is passed by or an error. -/
def chunkOf (requestId : String) (ev : SseEvent) : Option TokenChunk :=
  (liftDecoded requestId ev).bind Except.toOption

variable {fromStr : String → Except String SseEvent} {requestId : String} {resp : MessagesResponse}
  {evs : List SseEvent} {scs : List SseChunk}

theorem Carries.lift {ev : SseEvent} {sc : SseChunk} (h : Carries fromStr ev sc) :
    (liftEvent fromStr requestId sc).bind Except.toOption = chunkOf requestId ev := by
  unfold liftEvent
  by_cases hping : sc.event.getD "" = "ping"
  · have hev : sc.event = some "ping" := by
      cases he : sc.event with
      | none => simp [he] at hping
      | some kind => simpa [he] using hping
    rw [if_pos (.inl hping)]
    cases ev with
    | ping => rfl
    | _ => exact nomatch h.ping hev
  · rw [if_neg (not_or_intro hping h.data),h.decodes]
    rfl

/-- Pings come to nothing. -/
theorem filterMap_chunkOf_filter (evs : List SseEvent) :
    (evs.filter fun ev => !ev.isPing).filterMap (chunkOf requestId) =
      evs.filterMap (chunkOf requestId) := by
  rw [List.filterMap_filter]
  congr 1
  funext ev
  cases ev <;> rfl

theorem filterMap_textBlock (i : UInt32) (pieces : List String) :
    (textBlock i pieces).filterMap (chunkOf requestId) =
      pieces.map fun p => { requestId, textDelta := p } := by
  induction pieces with
  | nil => rfl
  | cons p pieces ih =>
    rw [List.map_cons,← ih]
    rfl

theorem filterMap_textBlocks (i : ℕ) (blocks : List (List String)) :
    (textBlocks i blocks).filterMap (chunkOf requestId) =
      blocks.flatten.map fun p => { requestId, textDelta := p } := by
  induction blocks generalizing i with
  | nil => rfl
  | cons pieces blocks ih =>
    rw [textBlocks,List.filterMap_append,filterMap_textBlock,ih,List.flatten_cons,List.map_append]

theorem responseText_texts (blocks : List (List String)) :
    responseText (blocks.map fun ps => .text (String.join ps)) = String.join blocks.flatten := by
  rw [responseText,List.foldl_map]
  suffices h : ∀ text, blocks.foldl (fun text ps => text++String.join ps) text =
      text++String.join blocks.flatten by simpa using h ""
  induction blocks with
  | nil => simp
  | cons ps blocks ih =>
    intro text
    rw [List.foldl_cons,ih,List.flatten_cons,String.join_append,String.append_assoc]

/-- What is lifted from a stream: the pieces of the text, the message delta and the stop. -/
theorem Streams.lifted (requestId : String) (h : Streams resp evs) :
    ∃ blocks : List (List String), resp.content = blocks.map (fun ps => .text (String.join ps)) ∧
      evs.filterMap (chunkOf requestId) = blocks.flatten.map (fun p => { requestId, textDelta := p })++
        [{ requestId, textDelta := "",
           usage := (resp.usage.map UsageDelta.outputSide).map UsageDelta.toTokenUsage,
           finishReason := resp.stopReason.map mapStopReason },
         { requestId, textDelta := "", finishReason := some .stop }] := by
  obtain ⟨blocks,start,hcontent,-,hevs⟩ := h
  refine ⟨blocks,hcontent,?_⟩
  rw [← filterMap_chunkOf_filter,hevs,List.filterMap_append,List.filterMap_cons_none rfl,
    filterMap_textBlocks]
  rfl

theorem mapStopReason_eq_stop_iff (reason : String) :
    mapStopReason reason = .stop ↔ reason ≠ "max_tokens" ∧ reason ≠ "tool_use" := by
  fun_cases mapStopReason reason <;> simp_all

/-- A stop says what the response says, but for a length limit and a tool call. -/
theorem stop_eq_finish_iff (stopReason : Option String) :
    some .stop = (stopReason.map mapStopReason).or (some .stop) ↔
      stopReason ≠ some "max_tokens" ∧ stopReason ≠ some "tool_use" := by
  cases stopReason with
  | none => simp
  | some reason => simpa [eq_comm] using mapStopReason_eq_stop_iff reason

/-- The usage that is left of a response, and the usage of the response. -/
theorem usage_outputSide_iff (usage : Option UsageDelta) :
    ((usage.map UsageDelta.outputSide).map UsageDelta.toTokenUsage).getD 0 =
        (usage.map UsageDelta.toTokenUsage).getD 0 ↔
      ∀ u ∈ usage, u.inputTokens = 0 ∧ u.cacheReadInputTokens = 0 := by
  cases usage with
  | none => simp
  | some u =>
    simp [UsageDelta.toTokenUsage,UsageDelta.outputSide,eq_comm]

/-- The stream of a response and its single chunk agree when nothing is lost with the first event
and the stop that comes last is the true finish reason. -/
theorem streamed_agrees_iff (fromStr : String → Except String SseEvent) (requestId : String)
    (resp : MessagesResponse) (evs : List SseEvent) (scs : List SseChunk)
    (hstreams : Streams resp evs) (hcarries : List.Forall₂ (Carries fromStr) evs scs) :
    (({} : Tokens).collect (okChunks (streamed fromStr requestId (scs.map .ok)))).Agrees
        (({} : Tokens).append (unary requestId resp)) ↔
      (∀ u ∈ resp.usage, u.inputTokens = 0 ∧ u.cacheReadInputTokens = 0) ∧
        resp.stopReason ≠ some "max_tokens" ∧ resp.stopReason ≠ some "tool_use" := by
  obtain ⟨blocks,hcontent,hlifted⟩ := hstreams.lifted requestId
  rw [streamed,okChunks_of_forall₂ (fun ev sc h => h.lift) hcarries,hlifted,Tokens.agrees_append_iff,
    ← usage_outputSide_iff,← stop_eq_finish_iff]
  have htext : String.join blocks.flatten = (unary requestId resp).textDelta := by
    rw [unary,hcontent,responseText_texts]
  simp [List.map_map,Function.comp_def,htext,unary,Tokens.sum_usage_cons]

theorem carries_table {table : List (SseChunk × SseEvent)}
    (hdata : (table.map fun row => row.1.data).Nodup) (hne : ∀ row ∈ table, row.1.data ≠ "")
    (hping : ∀ row ∈ table, row.1.event = some "ping" → row.2.isPing = true) :
    List.Forall₂ (Carries (decodeTable table)) (table.map Prod.snd) (table.map Prod.fst) :=
  forall₂_table fun row hrow => ⟨hne row hrow,decodeTable_of_mem hdata hrow,hping row hrow⟩

/-- The events of a text block that says hello. -/
def helloBlock : List (SseChunk × SseEvent) :=
  [(⟨some "content_block_start","\x7b\"type\":\"content_block_start\",\"index\":0\x7d"⟩,
     .contentBlockStart 0),
   (⟨some "content_block_delta","\x7b\"type\":\"content_block_delta\",\"index\":0,\"delta\":"++
       "\x7b\"type\":\"text_delta\",\"text\":\"Hello\"\x7d\x7d"⟩,
     .contentBlockDelta 0 (.textDelta "Hello")),
   (⟨some "content_block_stop","\x7b\"type\":\"content_block_stop\",\"index\":0\x7d"⟩,
     .contentBlockStop 0)]

def stopRow : SseChunk × SseEvent :=
  (⟨some "message_stop","\x7b\"type\":\"message_stop\"\x7d"⟩,.messageStop)

/-- The stream of a response without a usage report that ends its turn, with a ping. -/
def endedStream : List (SseChunk × SseEvent) :=
  [(⟨some "message_start","\x7b\"type\":\"message_start\",\"message\":\x7b\"id\":\"msg_1\"\x7d\x7d"⟩,
     .messageStart ⟨"msg_1",none⟩),
   (⟨some "ping","\x7b\"type\":\"ping\"\x7d"⟩,.ping)]++helloBlock++
  [(⟨some "message_delta","\x7b\"type\":\"message_delta\",\"delta\":\x7b\"stop_reason\":\"end_turn\"\x7d\x7d"⟩,
     .messageDelta ⟨some "end_turn"⟩ none),
   stopRow]

theorem streamed_agrees_ended :
    let resp : MessagesResponse := ⟨"msg_1",[.text "Hello"],some "end_turn",none⟩
    (({} : Tokens).collect (okChunks (streamed (decodeTable endedStream) "r"
        ((endedStream.map Prod.fst).map .ok)))).Agrees (({} : Tokens).append (unary "r" resp)) := by
  intro resp
  refine (streamed_agrees_iff (decodeTable endedStream) "r" resp (endedStream.map Prod.snd)
    (endedStream.map Prod.fst) ⟨[["Hello"]],⟨"msg_1",none⟩,rfl,rfl,rfl⟩ ?_).2 ⟨?_,?_⟩
  · exact carries_table (by decide +kernel) (by decide +kernel) (by decide +kernel)
  · exact nofun
  · decide

/-- The stream of a response that ran into its length limit. -/
def clippedStream : List (SseChunk × SseEvent) :=
  [(⟨some "message_start","\x7b\"type\":\"message_start\",\"message\":\x7b\"id\":\"msg_1\","++
       "\"usage\":\x7b\"input_tokens\":5,\"output_tokens\":1\x7d\x7d\x7d"⟩,
     .messageStart ⟨"msg_1",some { inputTokens := 5, outputTokens := 1 }⟩)]++helloBlock++
  [(⟨some "message_delta","\x7b\"type\":\"message_delta\",\"delta\":\x7b\"stop_reason\":\"max_tokens\"\x7d,"++
       "\"usage\":\x7b\"output_tokens\":2\x7d\x7d"⟩,
     .messageDelta ⟨some "max_tokens"⟩ (some { outputTokens := 2 })),
   stopRow]

/-- The five tokens of the input are not counted, and the finish reason is overwritten. -/
theorem streamed_disagrees_clipped :
    let resp : MessagesResponse :=
      ⟨"msg_1",[.text "Hello"],some "max_tokens",some { inputTokens := 5, outputTokens := 2 }⟩
    let got := ({} : Tokens).collect (okChunks (streamed (decodeTable clippedStream) "r"
      ((clippedStream.map Prod.fst).map .ok)))
    let want := ({} : Tokens).append (unary "r" resp)
    (Streams resp (clippedStream.map Prod.snd) ∧
      List.Forall₂ (Carries (decodeTable clippedStream)) (clippedStream.map Prod.snd) (clippedStream.map Prod.fst)) ∧
      got = { text := "Hello", usage := { outputTokens := 2 }, finishReason := some .stop } ∧
      want = { text := "Hello", usage := { inputTokens := 5, outputTokens := 2 }, finishReason := some .length } ∧
      ¬ got.Agrees want := by
  refine ⟨⟨⟨[["Hello"]],⟨"msg_1",some { inputTokens := 5, outputTokens := 1 }⟩,rfl,rfl,rfl⟩,?_⟩,?_,?_,?_⟩
  · exact carries_table (by decide +kernel) (by decide +kernel) (by decide +kernel)
  · decide +kernel
  · decide +kernel
  · decide +kernel

end RakkaInference.Anthropic
