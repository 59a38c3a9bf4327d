import RakkaInference.Core.Records
import RakkaInference.Core.Tokens

/-! The JSON form of a request and of its output. -/
namespace RakkaInference
open Machine Json

namespace Role

def serialize : Role → Json
  | .system => .string "system"
  | .user => .string "user"
  | .assistant => .string "assistant"
  | .tool => .string "tool"

def ofUnit : String → Option Role
  | "system" => some .system
  | "user" => some .user
  | "assistant" => some .assistant
  | "tool" => some .tool
  | _ => none

def deserialize : Json → Option Role := asUnit ofUnit

theorem deserialize_serialize (r : Role) : deserialize r.serialize = some r := by
  cases r <;> rfl

end Role

namespace ContentPart

def serialize : ContentPart → Json
  | .text t => withTag "type" "text" [("text",.string t)]
  | .imageBase64 mime data => withTag "type" "image_base64" [("mime",.string mime),("data",.string data)]
  | .imageUrl url => withTag "type" "image_url" [("url",.string url)]

def deserialize (j : Json) : Option ContentPart := do
  let (variant,body) ← tagged "type" j
  match variant with
  | "text" => do
    let fields ← fieldsOf ["text"] body 1
    (required fields "text" asString).map .text
  | "image_base64" => do
    let fields ← fieldsOf ["mime","data"] body 2
    let mime ← required fields "mime" asString
    let data ← required fields "data" asString
    some (.imageBase64 mime data)
  | "image_url" => do
    let fields ← fieldsOf ["url"] body 1
    (required fields "url" asString).map .imageUrl
  | _ => none

theorem deserialize_serialize (part : ContentPart) : deserialize part.serialize = some part := by
  cases part with
  | text t =>
    rw [deserialize,serialize,tagged_withTag]
    · simp [asString]
    · simp
  | imageBase64 mime data =>
    rw [deserialize,serialize,tagged_withTag]
    · simp [required_head,required_tail,asString]
    · simp
  | imageUrl url =>
    rw [deserialize,serialize,tagged_withTag]
    · simp [asString]
    · simp

end ContentPart

namespace MessageContent

/-- Without a tag. -/
def serialize : MessageContent → Json
  | .text t => .string t
  | .parts ps => .array (ps.map ContentPart.serialize)

def deserialize (j : Json) : Option MessageContent :=
  match asString j with
  | some t => some (.text t)
  | none => (asList ContentPart.deserialize j).map .parts

theorem deserialize_serialize (content : MessageContent) : deserialize content.serialize = some content := by
  cases content with
  | text t => rfl
  | parts ps =>
    have hparts : asList ContentPart.deserialize (.array (ps.map ContentPart.serialize)) = some ps :=
      asList_map fun part _ => part.deserialize_serialize
    simp only [deserialize,serialize,asString,hparts,Option.map_some]

end MessageContent

namespace Message

def slots (m : Message) : List (String × Option Json) :=
  [("role",some m.role.serialize),("content",some m.content.serialize)]

def serialize (m : Message) : Json := .object (written m.slots)

def deserialize (j : Json) : Option Message := do
  let fields ← fieldsOf ["role","content"] j 2
  some { role := ← required fields "role" Role.deserialize,
         content := ← required fields "content" MessageContent.deserialize }

theorem deserialize_serialize (m : Message) : deserialize m.serialize = some m := by
  have hnodup : (m.slots.map Prod.fst).Nodup := by simp [slots]
  have hrole : required (written m.slots) "role" Role.deserialize = some m.role :=
    (required_written hnodup (by simp [slots])).trans m.role.deserialize_serialize
  have hcontent : required (written m.slots) "content" MessageContent.deserialize = some m.content :=
    (required_written hnodup (by simp [slots])).trans m.content.deserialize_serialize
  simp [deserialize,serialize,hrole,hcontent]

end Message

namespace SamplingParams

def slots (s : SamplingParams) : List (String × Option Json) :=
  [("temperature",some (ofOption ofF32 s.temperature)),("top_p",some (ofOption ofF32 s.topP)),
   ("top_k",some (ofOption ofNat s.topK)),("max_tokens",some (ofOption ofNat s.maxTokens)),
   ("stop",some (.array (s.stop.map .string))),
   ("presence_penalty",some (ofOption ofF32 s.presencePenalty)),
   ("frequency_penalty",some (ofOption ofF32 s.frequencyPenalty)),("seed",some (ofOption ofNat s.seed))]

def serialize (s : SamplingParams) : Json := .object (written s.slots)

def deserialize (j : Json) : Option SamplingParams := do
  let fields ← fieldsOf
    ["temperature","top_p","top_k","max_tokens","stop","presence_penalty","frequency_penalty","seed"] j 8
  some { temperature := ← optional fields "temperature" asF32,
         topP := ← optional fields "top_p" asF32,
         topK := ← optional fields "top_k" (asWord 32),
         maxTokens := ← optional fields "max_tokens" (asWord 32),
         stop := ← required fields "stop" (asList asString),
         presencePenalty := ← optional fields "presence_penalty" asF32,
         frequencyPenalty := ← optional fields "frequency_penalty" asF32,
         seed := ← optional fields "seed" (asWord 64) }

/-- The numbers fit the words that hold them. -/
def InRange (s : SamplingParams) : Prop :=
  (∀ n ∈ s.topK, n < 2^32) ∧ (∀ n ∈ s.maxTokens, n < 2^32) ∧ ∀ n ∈ s.seed, n < 2^64

/-- JSON has the floating-point numbers. -/
structure Finite (s : SamplingParams) : Prop where
  temperature : ∀ x ∈ s.temperature, x.IsFinite
  topP : ∀ x ∈ s.topP, x.IsFinite
  presencePenalty : ∀ x ∈ s.presencePenalty, x.IsFinite
  frequencyPenalty : ∀ x ∈ s.frequencyPenalty, x.IsFinite

theorem nodup_slots (s : SamplingParams) : (s.slots.map Prod.fst).Nodup := by simp [slots]

theorem deserialize_serialize {s : SamplingParams} (h : s.InRange) (hfinite : s.Finite) :
    deserialize s.serialize = some s := by
  have hnodup := s.nodup_slots
  have hnumber {name : String} {o : Option F32} (hmem : (name,some (ofOption ofF32 o)) ∈ s.slots)
      (ho : ∀ x ∈ o, x.IsFinite) :
      optional (written s.slots) name asF32 = some o :=
    optional_null hnodup hmem (fun x hx hnull => ofF32_eq_null_iff.mp hnull (ho x hx)) fun x hx =>
      asF32_ofF32 (ho x hx)
  have hword {w : ℕ} {name : String} {o : Option ℕ} (hmem : (name,some (ofOption ofNat o)) ∈ s.slots)
      (ho : ∀ n ∈ o, n < 2^w) : optional (written s.slots) name (asWord w) = some o :=
    optional_null hnodup hmem (fun n _ => by simp [ofNat]) fun n hn => asWord_ofNat (ho n hn)
  have hstop : required (written s.slots) "stop" (asList asString) = some s.stop :=
    (required_written hnodup (by simp [slots])).trans (asList_map (g := .string) fun stop _ => rfl)
  obtain ⟨htopK,hmaxTokens,hseed⟩ := h
  simp only [deserialize,serialize,fieldsOf_object,Option.bind_eq_bind,Option.bind_some]
  rw [hnumber (o := s.temperature) (by simp [slots]) hfinite.temperature,
    hnumber (o := s.topP) (by simp [slots]) hfinite.topP,hword (o := s.topK) (by simp [slots]) htopK,
    hword (o := s.maxTokens) (by simp [slots]) hmaxTokens,hstop,
    hnumber (o := s.presencePenalty) (by simp [slots]) hfinite.presencePenalty,
    hnumber (o := s.frequencyPenalty) (by simp [slots]) hfinite.frequencyPenalty,
    hword (o := s.seed) (by simp [slots]) hseed]
  rfl

theorem inRange_of_deserialize {j : Json} {s : SamplingParams} (h : deserialize j = some s) : s.InRange := by
  simp only [deserialize,Option.bind_eq_bind,Option.bind_eq_some_iff] at h
  obtain ⟨fields,-,temperature,-,topP,-,topK,htopK,maxTokens,hmaxTokens,stop,-,presence,-,frequency,-,seed,hseed,
      hs⟩ := h
  obtain rfl := Option.some.inj hs
  have hword {w : ℕ} {name : String} {o : Option ℕ} (ho : optional fields name (asWord w) = some o) :
      ∀ n ∈ o, n < 2^w := by
    intro n hn
    obtain ⟨j,hj⟩ := read_of_optional ho n hn
    exact lt_of_asWord hj
  exact ⟨hword htopK,hword hmaxTokens,hword hseed⟩

theorem finite_of_reads_back {s : SamplingParams} (h : deserialize s.serialize = some s) : s.Finite := by
  have hfinite {name : String} {o : Option F32} (hmem : (name,some (ofOption ofF32 o)) ∈ s.slots)
      (hread : optional (written s.slots) name asF32 = some o) : ∀ x ∈ o, x.IsFinite := by
    rintro x rfl
    exact not_not.mp (ofF32_eq_null_iff.not.mp (ne_null_of_optional s.nodup_slots hmem hread rfl))
  simp only [deserialize,serialize,fieldsOf_object,Option.bind_eq_bind,Option.bind_eq_some_iff] at h
  obtain ⟨fields,hfields,temperature,htemp,topP,htop,topK,-,maxTokens,-,stop,-,presence,hpresence,frequency,
      hfrequency,seed,-,hs⟩ := h
  obtain rfl := Option.some.inj hfields
  obtain rfl := Option.some.inj hs
  exact ⟨hfinite (by simp [slots]) htemp,hfinite (by simp [slots]) htop,hfinite (by simp [slots]) hpresence,
    hfinite (by simp [slots]) hfrequency⟩

end SamplingParams

namespace ExecuteBatch

def slots (b : ExecuteBatch) : List (String × Option Json) :=
  [("request_id",some (.string b.requestId)),("model",some (.string b.model)),
   ("messages",some (.array (b.messages.map Message.serialize))),("sampling",some b.sampling.serialize),
   ("stream",some (.bool b.stream)),("estimated_tokens",some (ofNat b.estimatedTokensField))]

def serialize (b : ExecuteBatch) : Json := .object (written b.slots)

def deserialize (j : Json) : Option ExecuteBatch := do
  let fields ← fieldsOf ["request_id","model","messages","sampling","stream","estimated_tokens"] j 6
  some { requestId := ← required fields "request_id" asString,
         model := ← required fields "model" asString,
         messages := ← required fields "messages" (asList Message.deserialize),
         sampling := ← required fields "sampling" SamplingParams.deserialize,
         stream := ← required fields "stream" asBool,
         estimatedTokensField := ← required fields "estimated_tokens" (asWord 32) }

def InRange (b : ExecuteBatch) : Prop := b.sampling.InRange ∧ b.estimatedTokensField < 2^32

theorem nodup_slots (b : ExecuteBatch) : (b.slots.map Prod.fst).Nodup := by simp [slots]

theorem deserialize_serialize {b : ExecuteBatch} (h : b.InRange) (hfinite : b.sampling.Finite) :
    deserialize b.serialize = some b := by
  have hnodup := b.nodup_slots
  have hstring {name t : String} (hmem : (name,some (.string t)) ∈ b.slots) :
      required (written b.slots) name asString = some t := required_written hnodup hmem
  have hbool {name : String} {v : Bool} (hmem : (name,some (.bool v)) ∈ b.slots) :
      required (written b.slots) name asBool = some v := required_written hnodup hmem
  have hmessages : required (written b.slots) "messages" (asList Message.deserialize) = some b.messages :=
    (required_written hnodup (by simp [slots])).trans (asList_map fun m _ => m.deserialize_serialize)
  have hsampling : required (written b.slots) "sampling" SamplingParams.deserialize = some b.sampling :=
    (required_written hnodup (by simp [slots])).trans (SamplingParams.deserialize_serialize h.1 hfinite)
  have hestimated : required (written b.slots) "estimated_tokens" (asWord 32) = some b.estimatedTokensField :=
    (required_written hnodup (by simp [slots])).trans (asWord_ofNat h.2)
  rw [deserialize,serialize,fieldsOf_object]
  simp only [Option.bind_eq_bind]
  rw [Option.bind_some,hstring (t := b.requestId) (by simp [slots]),Option.bind_some,
    hstring (t := b.model) (by simp [slots]),Option.bind_some,hmessages,Option.bind_some,hsampling,Option.bind_some,
    hbool (v := b.stream) (by simp [slots]),Option.bind_some,hestimated,Option.bind_some]

theorem inRange_of_deserialize {j : Json} {b : ExecuteBatch} (h : deserialize j = some b) : b.InRange := by
  simp only [deserialize,Option.bind_eq_bind,Option.bind_eq_some_iff] at h
  obtain ⟨fields,-,requestId,-,model,-,messages,-,sampling,hsampling,stream,-,estimated,hestimated,hb⟩ := h
  obtain rfl := Option.some.inj hb
  obtain ⟨j,hj⟩ := read_of_required hsampling
  obtain ⟨j',hj'⟩ := read_of_required hestimated
  exact ⟨SamplingParams.inRange_of_deserialize hj,lt_of_asWord hj'⟩

theorem finite_of_reads_back {b : ExecuteBatch} (h : deserialize b.serialize = some b) : b.sampling.Finite := by
  simp only [deserialize,serialize,fieldsOf_object,Option.bind_eq_bind,Option.bind_eq_some_iff] at h
  obtain ⟨fields,hfields,requestId,-,model,-,messages,-,sampling,hsampling,stream,-,estimated,-,hb⟩ := h
  obtain rfl := Option.some.inj hfields
  obtain rfl := Option.some.inj hb
  have hmem : ("sampling",some sampling.serialize) ∈
      slots ⟨requestId,model,messages,sampling,stream,estimated⟩ := by simp [slots]
  exact SamplingParams.finite_of_reads_back ((required_written (nodup_slots _) hmem).symm.trans hsampling)

/-- A batch is read back from its JSON form if and only if its numbers fit their words and the floating-point ones
are finite. None is ever read whose numbers do not fit. -/
theorem reads_back_iff (b : ExecuteBatch) : (deserialize b.serialize = some b ↔ b.InRange ∧ b.sampling.Finite) ∧
    ∀ j, deserialize j = some b → b.InRange := by
  refine ⟨⟨fun h => ⟨inRange_of_deserialize h,finite_of_reads_back h⟩,fun h => deserialize_serialize h.1 h.2⟩,?_⟩
  exact fun j => inRange_of_deserialize

end ExecuteBatch

namespace FinishReason

def serialize : FinishReason → Json
  | .stop => .string "stop"
  | .length => .string "length"
  | .toolCalls => .string "tool_calls"
  | .contentFilter => .string "content_filter"
  | .error => .string "error"

def ofUnit : String → Option FinishReason
  | "stop" => some .stop
  | "length" => some .length
  | "tool_calls" => some .toolCalls
  | "content_filter" => some .contentFilter
  | "error" => some .error
  | _ => none

def deserialize : Json → Option FinishReason := asUnit ofUnit

theorem deserialize_serialize (r : FinishReason) : deserialize r.serialize = some r := by
  cases r <;> rfl

theorem serialize_ne_null (r : FinishReason) : r.serialize ≠ .null := by
  cases r <;> simp [serialize]

end FinishReason

namespace TokenUsage

def slots (u : TokenUsage) : List (String × Option Json) :=
  [("input_tokens",some (ofNat u.inputTokens.toNat)),("output_tokens",some (ofNat u.outputTokens.toNat)),
   ("reasoning_tokens",some (ofNat u.reasoningTokens.toNat)),("cached_tokens",some (ofNat u.cachedTokens.toNat))]

def serialize (u : TokenUsage) : Json := .object (written u.slots)

def deserialize (j : Json) : Option TokenUsage := do
  let fields ← fieldsOf ["input_tokens","output_tokens","reasoning_tokens","cached_tokens"] j 2
  some { inputTokens := ← required fields "input_tokens" asU32,
         outputTokens := ← required fields "output_tokens" asU32,
         reasoningTokens := ← defaulted fields "reasoning_tokens" 0 asU32,
         cachedTokens := ← defaulted fields "cached_tokens" 0 asU32 }

theorem deserialize_serialize (u : TokenUsage) : deserialize u.serialize = some u := by
  have hnodup : (u.slots.map Prod.fst).Nodup := by simp [slots]
  have hrequired {name : String} {n : UInt32} (hmem : (name,some (ofNat n.toNat)) ∈ u.slots) :
      required (written u.slots) name asU32 = some n := (required_written hnodup hmem).trans (asU32_ofNat n)
  have hdefaulted {name : String} {n : UInt32} (hmem : (name,some (ofNat n.toNat)) ∈ u.slots) :
      defaulted (written u.slots) name 0 asU32 = some n := (defaulted_written hnodup hmem).trans (asU32_ofNat n)
  rw [deserialize,serialize,fieldsOf_object]
  simp only [Option.bind_eq_bind]
  rw [Option.bind_some,hrequired (n := u.inputTokens) (by simp [slots]),Option.bind_some,
    hrequired (n := u.outputTokens) (by simp [slots]),Option.bind_some,
    hdefaulted (n := u.reasoningTokens) (by simp [slots]),Option.bind_some,
    hdefaulted (n := u.cachedTokens) (by simp [slots]),Option.bind_some]

theorem serialize_ne_null (u : TokenUsage) : u.serialize ≠ .null := by
  simp [serialize]

end TokenUsage

namespace TokenChunk

def slots (c : TokenChunk) : List (String × Option Json) :=
  [("request_id",some (.string c.requestId)),("text_delta",some (.string c.textDelta)),
   ("tool_call_delta",c.toolCallDelta),("usage",c.usage.map TokenUsage.serialize),
   ("finish_reason",c.finishReason.map FinishReason.serialize)]

def serialize (c : TokenChunk) : Json := .object (written c.slots)

def deserialize (j : Json) : Option TokenChunk := do
  let fields ← fieldsOf ["request_id","text_delta","tool_call_delta","usage","finish_reason"] j 2
  some { requestId := ← required fields "request_id" asString,
         textDelta := ← required fields "text_delta" asString,
         toolCallDelta := ← optional fields "tool_call_delta" some,
         usage := ← optional fields "usage" TokenUsage.deserialize,
         finishReason := ← optional fields "finish_reason" FinishReason.deserialize }

/-- A null is no delta. -/
def withoutNull (c : TokenChunk) : TokenChunk :=
  { c with toolCallDelta := c.toolCallDelta.bind fun
    | .null => none
    | delta => some delta }

theorem deserialize_serialize (c : TokenChunk) : deserialize c.serialize = some c.withoutNull := by
  have hnodup : (c.slots.map Prod.fst).Nodup := by simp [slots]
  have hstring {name t : String} (hmem : (name,some (.string t)) ∈ c.slots) :
      required (written c.slots) name asString = some t := required_written hnodup hmem
  have hdelta : optional (written c.slots) "tool_call_delta" some = some c.withoutNull.toolCallDelta := by
    rw [optional_written hnodup (by simp [slots] : ("tool_call_delta",c.toolCallDelta) ∈ c.slots)]
    unfold withoutNull
    cases c.toolCallDelta with
    | none => rfl
    | some delta => cases delta <;> rfl
  have husage : optional (written c.slots) "usage" TokenUsage.deserialize = some c.usage :=
    optional_skipped (g := TokenUsage.serialize) hnodup (by simp [slots]) (fun u _ => u.serialize_ne_null)
      fun u _ => u.deserialize_serialize
  have hfinish : optional (written c.slots) "finish_reason" FinishReason.deserialize = some c.finishReason :=
    optional_skipped (g := FinishReason.serialize) hnodup (by simp [slots]) (fun r _ => r.serialize_ne_null)
      fun r _ => r.deserialize_serialize
  rw [deserialize,serialize,fieldsOf_object]
  simp only [Option.bind_eq_bind]
  rw [Option.bind_some,hstring (t := c.requestId) (by simp [slots]),Option.bind_some,
    hstring (t := c.textDelta) (by simp [slots]),Option.bind_some,hdelta,Option.bind_some,husage,Option.bind_some,
    hfinish,Option.bind_some]
  rfl

theorem withoutNull_eq_iff (c : TokenChunk) : c.withoutNull = c ↔ c.toolCallDelta ≠ some .null := by
  obtain ⟨requestId,textDelta,toolCallDelta,usage,finishReason⟩ := c
  cases toolCallDelta with
  | none => simp [withoutNull]
  | some delta => cases delta <;> simp [withoutNull]

end TokenChunk

namespace Tokens

def slots (t : Tokens) : List (String × Option Json) :=
  [("request_id",some (.string t.requestId)),("text",some (.string t.text)),("usage",some t.usage.serialize),
   ("finish_reason",some (ofOption FinishReason.serialize t.finishReason))]

def serialize (t : Tokens) : Json := .object (written t.slots)

def deserialize (j : Json) : Option Tokens := do
  let fields ← fieldsOf ["request_id","text","usage","finish_reason"] j 4
  some { requestId := ← required fields "request_id" asString,
         text := ← required fields "text" asString,
         usage := ← required fields "usage" TokenUsage.deserialize,
         finishReason := ← optional fields "finish_reason" FinishReason.deserialize }

theorem deserialize_serialize (t : Tokens) : deserialize t.serialize = some t := by
  have hnodup : (t.slots.map Prod.fst).Nodup := by simp [slots]
  have hstring {name v : String} (hmem : (name,some (.string v)) ∈ t.slots) :
      required (written t.slots) name asString = some v := required_written hnodup hmem
  have husage : required (written t.slots) "usage" TokenUsage.deserialize = some t.usage :=
    (required_written hnodup (by simp [slots])).trans t.usage.deserialize_serialize
  have hfinish : optional (written t.slots) "finish_reason" FinishReason.deserialize = some t.finishReason :=
    optional_null (g := FinishReason.serialize) hnodup (by simp [slots]) (fun r _ => r.serialize_ne_null)
      fun r _ => r.deserialize_serialize
  rw [deserialize,serialize,fieldsOf_object]
  simp only [Option.bind_eq_bind]
  rw [Option.bind_some,hstring (v := t.requestId) (by simp [slots]),Option.bind_some,
    hstring (v := t.text) (by simp [slots]),Option.bind_some,husage,Option.bind_some,hfinish,Option.bind_some]

theorem collect_withoutNull (t : Tokens) (cs : List TokenChunk) :
    t.collect (cs.map TokenChunk.withoutNull) = t.collect cs := by
  induction cs generalizing t with
  | nil => rfl
  | cons c cs ih => exact ih (t.append c)

end Tokens

/-- A stream that is sent as JSON is read back, and exactly so if and only if no tool call delta in it is null.
Either way the output that is put together from it is the same, and is read back from its own JSON form. -/
theorem TokenChunk.stream_reads_back (cs : List TokenChunk) :
    ∃ cs', (cs.map serialize).mapM deserialize = some cs' ∧ (cs' = cs ↔ ∀ c ∈ cs, c.toolCallDelta ≠ some .null) ∧
      ∀ t : Tokens, t.collect cs' = t.collect cs ∧ Tokens.deserialize (t.collect cs').serialize =
      some (t.collect cs) := by
  refine ⟨cs.map withoutNull,?_,?_,?_⟩
  · induction cs with
    | nil => rfl
    | cons c cs ih =>
      rw [List.map_cons,List.mapM_cons,c.deserialize_serialize,ih]
      rfl
  · calc cs.map withoutNull = cs ↔ cs.map withoutNull = cs.map id := by rw [List.map_id]
      _ ↔ ∀ c ∈ cs, c.withoutNull = c := List.map_inj_left
      _ ↔ ∀ c ∈ cs, c.toolCallDelta ≠ some .null := forall₂_congr fun c _ => c.withoutNull_eq_iff
  · intro t
    rw [t.collect_withoutNull]
    exact ⟨rfl,(t.collect cs).deserialize_serialize⟩

end RakkaInference
