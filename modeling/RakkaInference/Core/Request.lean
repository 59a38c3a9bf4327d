import RakkaInference.Core.Error
import RakkaInference.Machine.Floats

/-! The input of one request and the chunks streamed back for it. -/
namespace RakkaInference
open Machine

inductive Role
  | system
  | user
  | assistant
  | tool
  deriving DecidableEq

inductive ContentPart
  | text (text : String)
  | imageBase64 (mime data : String)
  | imageUrl (url : String)
  deriving DecidableEq

inductive MessageContent
  | text (text : String)
  | parts (parts : List ContentPart)
  deriving DecidableEq

structure Message where
  role : Role
  content : MessageContent
  deriving DecidableEq

structure SamplingParams where
  temperature : Option F32 := none
  topP : Option F32 := none
  topK : Option ℕ := none
  maxTokens : Option ℕ := none
  stop : List String := []
  presencePenalty : Option F32 := none
  frequencyPenalty : Option F32 := none
  seed : Option ℕ := none
  deriving DecidableEq

/-- One unit of work handed to a model runner. -/
structure ExecuteBatch where
  requestId : String
  model : String
  messages : List Message
  sampling : SamplingParams
  stream : Bool
  estimatedTokensField : ℕ
  deriving DecidableEq

/-- The estimate a permit is asked for; it is never zero. -/
def ExecuteBatch.estimatedTokens (b : ExecuteBatch) : ℕ := max b.estimatedTokensField 1

theorem ExecuteBatch.one_le_estimatedTokens (b : ExecuteBatch) : 1 ≤ b.estimatedTokens :=
  le_max_right _ _

/-- A `serde_json` value, which the runtime carries without looking into it. -/
inductive Json
  | null
  | bool (b : Bool)
  | int (n : ℤ)
  | float (x : FiniteFloat .binary64)
  | string (s : String)
  | array (items : List Json)
  | object (fields : List (String × Json))

inductive FinishReason
  | stop
  | length
  | toolCalls
  | contentFilter
  | error
  deriving DecidableEq

structure TokenUsage where
  inputTokens : UInt32 := 0
  outputTokens : UInt32 := 0
  reasoningTokens : UInt32 := 0
  cachedTokens : UInt32 := 0
  deriving DecidableEq

/-- One streamed chunk. -/
structure TokenChunk where
  requestId : String
  textDelta : String
  toolCallDelta : Option Json := none
  usage : Option TokenUsage := none
  finishReason : Option FinishReason := none

end RakkaInference
