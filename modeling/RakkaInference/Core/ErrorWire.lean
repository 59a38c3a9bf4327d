import RakkaInference.Core.Request
import RakkaInference.Machine.Words

/-! The JSON form of the errors, by the rules of the derived serialization. The error enum is
tagged internally with its kind, and the enums inside it are tagged externally. -/
namespace RakkaInference
open Machine

namespace Json

def ofNat (n : ℕ) : Json := .int n

def ofOption {α : Type} (f : α → Json) : Option α → Json
  | some a => f a
  | none => .null

def asString : Json → Option String
  | .string s => some s
  | _ => none

/-- An unsigned word of the given width. -/
def asWord (w : ℕ) : Json → Option ℕ
  | .int n => if 0 ≤ n ∧ n < 2^w then some n.toNat else none
  | _ => none

def asOption {α : Type} (f : Json → Option α) : Json → Option (Option α)
  | .null => some none
  | j => (f j).map some

/-- The values under a name. -/
def valuesOf (fields : List (String × Json)) (name : String) : List Json :=
  (fields.filter fun field => field.1 = name).map Prod.snd

/-- A field that has to be there, and not twice. -/
def required {α : Type} (fields : List (String × Json)) (name : String) (f : Json → Option α) : Option α :=
  match valuesOf fields name with
  | [j] => f j
  | _ => none

/-- A field of an optional type may be missing. -/
def optional {α : Type} (fields : List (String × Json)) (name : String) (f : Json → Option α) :
    Option (Option α) :=
  match valuesOf fields name with
  | [] => some none
  | [j] => asOption f j
  | _ => none

/-- A field whose name no field behind it has. -/
theorem required_head {α : Type} {name : String} {fields : List (String × Json)}
    (h : ∀ field ∈ fields, field.1 ≠ name) (j : Json) (f : Json → Option α) :
    required ((name,j)::fields) name f = f j := by
  have hrest : (fields.filter fun field => field.1 = name) = [] := by simpa using h
  unfold required valuesOf
  rw [List.filter_cons_of_pos (by simp),hrest]
  rfl

theorem required_tail {α : Type} {name name' : String} (h : name' ≠ name) (j : Json) (fields : List (String × Json))
    (f : Json → Option α) : required ((name',j)::fields) name f = required fields name f := by
  unfold required valuesOf
  rw [List.filter_cons_of_neg (by simpa using h)]

@[simp] theorem required_single {α : Type} (name : String) (j : Json) (f : Json → Option α) :
    required [(name,j)] name f = f j :=
  required_head (fun _ hmem => absurd hmem List.not_mem_nil) j f

theorem asWord_ofNat {w n : ℕ} (h : n < 2^w) : asWord w (ofNat n) = some n := by
  have hn : (0 : ℤ) ≤ n ∧ (n : ℤ) < 2^w := ⟨by omega,by exact_mod_cast h⟩
  simp only [asWord,ofNat,if_pos hn,Int.toNat_natCast]

/-- An optional value is read back when the value is, and is not null. -/
theorem asOption_ofOption {α : Type} {f : α → Json} {g : Json → Option α} {o : Option α}
    (hnull : ∀ a ∈ o, f a ≠ .null) (h : ∀ a ∈ o, g (f a) = some a) : asOption g (ofOption f o) = some o := by
  cases o with
  | none => rfl
  | some a =>
    have ha := h a rfl
    simp only [ofOption]
    cases hj : f a with
    | null => exact absurd hj (hnull a rfl)
    | _ => simp [asOption,← hj,ha]

end Json

namespace ProviderKind

def serialize : ProviderKind → Json
  | .openAi => .string "open_ai"
  | .anthropic => .string "anthropic"
  | .gemini => .string "gemini"
  | .liteLlm => .string "lite_llm"
  | .deepgram => .string "deepgram"
  | .assemblyAi => .string "assembly_ai"
  | .elevenLabs => .string "eleven_labs"
  | .nvidiaA2F => .string "nvidia_a2_f"
  | .custom name => .object [("custom",.string name)]

def ofUnit : String → Option ProviderKind
  | "open_ai" => some .openAi
  | "anthropic" => some .anthropic
  | "gemini" => some .gemini
  | "lite_llm" => some .liteLlm
  | "deepgram" => some .deepgram
  | "assembly_ai" => some .assemblyAi
  | "eleven_labs" => some .elevenLabs
  | "nvidia_a2_f" => some .nvidiaA2F
  | _ => none

def deserialize : Json → Option ProviderKind
  | .string variant => ofUnit variant
  | .object [("custom",j)] => j.asString.map .custom
  | .object [(variant,.null)] => ofUnit variant
  | _ => none

theorem deserialize_serialize (p : ProviderKind) : deserialize p.serialize = some p := by
  cases p <;> rfl

end ProviderKind

namespace RuntimeKind

def serialize : RuntimeKind → Json
  | .vllm => .string "vllm"
  | .tensorRt => .string "tensor_rt"
  | .ort => .string "ort"
  | .candle => .string "candle"
  | .cudarc => .string "cudarc"
  | .mistralRs => .string "mistral_rs"
  | .python name => .object [("python",.string name)]
  | .openAi => .string "open_ai"
  | .anthropic => .string "anthropic"
  | .gemini => .string "gemini"
  | .liteLlm => .string "lite_llm"
  | .speechToText => .string "speech_to_text"
  | .textToSpeech => .string "text_to_speech"
  | .realtimeSpeech => .string "realtime_speech"
  | .audio2Face => .string "audio2_face"
  | .custom name => .object [("custom",.string name)]

def ofUnit : String → Option RuntimeKind
  | "vllm" => some .vllm
  | "tensor_rt" => some .tensorRt
  | "ort" => some .ort
  | "candle" => some .candle
  | "cudarc" => some .cudarc
  | "mistral_rs" => some .mistralRs
  | "open_ai" => some .openAi
  | "anthropic" => some .anthropic
  | "gemini" => some .gemini
  | "lite_llm" => some .liteLlm
  | "speech_to_text" => some .speechToText
  | "text_to_speech" => some .textToSpeech
  | "realtime_speech" => some .realtimeSpeech
  | "audio2_face" => some .audio2Face
  | _ => none

def deserialize : Json → Option RuntimeKind
  | .string variant => ofUnit variant
  | .object [("python",j)] => j.asString.map .python
  | .object [("custom",j)] => j.asString.map .custom
  | .object [(variant,.null)] => ofUnit variant
  | _ => none

theorem deserialize_serialize (k : RuntimeKind) : deserialize k.serialize = some k := by
  cases k <;> rfl

end RuntimeKind

/-- The adapter module of the field `retry_after`. -/
def DurationOptMs.serialize (d : Option ℕ) : Json :=
  Json.ofOption Json.ofNat (d.map fun x => asU64 (Duration.asMillis x))

def DurationOptMs.deserialize (j : Json) : Option (Option ℕ) :=
  (Json.asOption (Json.asWord 64) j).map fun o => o.map Duration.fromMillis

namespace InferenceError

/-- A struct variant: its fields beside the tag. -/
def structVariant (kind : String) (fields : List (String × Json)) : Except String Json :=
  .ok (.object (("kind",.string kind)::fields))

/-- A newtype variant holds a string, which has no place for the tag. -/
def newtypeVariant (variant : String) : Except String Json :=
  .error s!"cannot serialize tagged newtype variant InferenceError::{variant} containing a string"

def serialize : InferenceError → Except String Json
  | .rateLimited provider retryAfter => structVariant "rate_limited"
      [("provider",provider.serialize),("retry_after",DurationOptMs.serialize retryAfter)]
  | .circuitOpen provider openedAtUnixMs retryAtUnixMs => structVariant "circuit_open"
      [("provider",provider.serialize),("opened_at_unix_ms",.ofNat openedAtUnixMs),
       ("retry_at_unix_ms",.ofNat retryAtUnixMs)]
  | .contentFiltered reason => structVariant "content_filtered" [("reason",.string reason)]
  | .contextLengthExceeded tokens maxTokens => structVariant "context_length_exceeded"
      [("tokens",.ofNat tokens),("max_tokens",.ofNat maxTokens)]
  | .badRequest message => structVariant "bad_request" [("message",.string message)]
  | .unauthorized message => structVariant "unauthorized" [("message",.string message)]
  | .forbidden message => structVariant "forbidden" [("message",.string message)]
  | .backpressure _ => newtypeVariant "Backpressure"
  | .budgetExceeded deployment => structVariant "budget_exceeded" [("deployment",.string deployment)]
  | .networkError _ => newtypeVariant "NetworkError"
  | .serverError status body => structVariant "server_error"
      [("status",.ofNat status),("body",.ofOption .string body)]
  | .timeout elapsedMs => structVariant "timeout" [("elapsed_ms",.ofNat elapsedMs)]
  | .cudaContextPoisoned _ => newtypeVariant "CudaContextPoisoned"
  | .unsupported method runtime => structVariant "unsupported"
      [("method",.string method),("runtime",runtime.serialize)]
  | .unsupportedAudioFormat message => structVariant "unsupported_audio_format"
      [("message",.string message)]
  | .realtimeClosed reason => structVariant "realtime_closed" [("reason",.string reason)]
  | .internal _ => newtypeVariant "Internal"

/-- The variant that a tag names, read from the fields of the object. A newtype variant is read from
the object that is left, which is no string. -/
def deserializeVariant (fields : List (String × Json)) : String → Option InferenceError
  | "rate_limited" => do
    let provider ← Json.required fields "provider" ProviderKind.deserialize
    let retryAfter ← Json.required fields "retry_after" DurationOptMs.deserialize
    some (.rateLimited provider retryAfter)
  | "circuit_open" => do
    let provider ← Json.required fields "provider" ProviderKind.deserialize
    let openedAtUnixMs ← Json.required fields "opened_at_unix_ms" (Json.asWord 64)
    let retryAtUnixMs ← Json.required fields "retry_at_unix_ms" (Json.asWord 64)
    some (.circuitOpen provider openedAtUnixMs retryAtUnixMs)
  | "content_filtered" => (Json.required fields "reason" Json.asString).map .contentFiltered
  | "context_length_exceeded" => do
    let tokens ← Json.required fields "tokens" (Json.asWord 32)
    let maxTokens ← Json.required fields "max_tokens" (Json.asWord 32)
    some (.contextLengthExceeded tokens maxTokens)
  | "bad_request" => (Json.required fields "message" Json.asString).map .badRequest
  | "unauthorized" => (Json.required fields "message" Json.asString).map .unauthorized
  | "forbidden" => (Json.required fields "message" Json.asString).map .forbidden
  | "budget_exceeded" => (Json.required fields "deployment" Json.asString).map .budgetExceeded
  | "server_error" => do
    let status ← Json.required fields "status" (Json.asWord 16)
    let body ← Json.optional fields "body" Json.asString
    some (.serverError status body)
  | "timeout" => (Json.required fields "elapsed_ms" (Json.asWord 64)).map .timeout
  | "unsupported" => do
    let method ← Json.required fields "method" Json.asString
    let runtime ← Json.required fields "runtime" RuntimeKind.deserialize
    some (.unsupported method runtime)
  | "unsupported_audio_format" => (Json.required fields "message" Json.asString).map .unsupportedAudioFormat
  | "realtime_closed" => (Json.required fields "reason" Json.asString).map .realtimeClosed
  | _ => none

def deserialize : Json → Option InferenceError
  | .object fields => do
    let kind ← Json.required fields "kind" Json.asString
    deserializeVariant (fields.filter fun field => field.1 ≠ "kind") kind
  | _ => none

/-- The numbers fit the words that hold them, and the milliseconds of a duration fit a word. -/
def InRange : InferenceError → Prop
  | .rateLimited _ retryAfter => ∀ d ∈ retryAfter, Duration.asMillis d < 2^64
  | .circuitOpen _ openedAtUnixMs retryAtUnixMs => openedAtUnixMs < 2^64 ∧ retryAtUnixMs < 2^64
  | .contextLengthExceeded tokens maxTokens => tokens < 2^32 ∧ maxTokens < 2^32
  | .serverError status _ => status < 2^16
  | .timeout elapsedMs => elapsedMs < 2^64
  | _ => True

/-- The error with its duration cut to whole milliseconds. -/
def truncated : InferenceError → InferenceError
  | .rateLimited provider retryAfter =>
    .rateLimited provider (retryAfter.map fun d => Duration.fromMillis (Duration.asMillis d))
  | e => e

def isNewtype : InferenceError → Bool
  | .backpressure _ | .networkError _ | .cudaContextPoisoned _ | .internal _ => true
  | _ => false

/-- Serialization succeeds, and what comes of it is read back. -/
def RoundTrips (e : InferenceError) : Prop := ∃ j, e.serialize = .ok j ∧ deserialize j = some e.truncated

theorem not_roundTrips_newtype {e : InferenceError} {variant : String}
    (h : e.serialize = newtypeVariant variant) : ¬ e.RoundTrips := by
  rintro ⟨j,hj,-⟩
  rw [h] at hj
  exact nomatch hj

/-- The tag is read first, and the variant from the other fields. -/
theorem deserialize_tagged {kind : String} {fields : List (String × Json)}
    (h : ∀ field ∈ fields, field.1 ≠ "kind") :
    deserialize (.object (("kind",.string kind)::fields)) = deserializeVariant fields kind := by
  have hrest : (("kind",.string kind)::fields).filter (fun field => field.1 ≠ "kind") = fields := by
    rw [List.filter_cons_of_neg (by simp),List.filter_eq_self]
    simpa using h
  have htag : Json.valuesOf (("kind",.string kind)::fields) "kind" = [.string kind] := by
    have hnone : fields.filter (fun field => field.1 = "kind") = [] := by
      rw [List.filter_eq_nil_iff]
      simpa using h
    rw [Json.valuesOf,List.filter_cons_of_pos (by simp),hnone]
    rfl
  rw [deserialize,hrest,Json.required,htag]
  rfl

theorem roundTrips_of_read {e : InferenceError} {kind : String} {fields : List (String × Json)}
    (hserialize : e.serialize = structVariant kind fields) (hkind : ∀ field ∈ fields, field.1 ≠ "kind")
    (hread : deserializeVariant fields kind = some e.truncated) : e.RoundTrips :=
  ⟨_,hserialize,(deserialize_tagged hkind).trans hread⟩

theorem durationOptMs_roundTrip {d : Option ℕ} (h : ∀ x ∈ d, Duration.asMillis x < 2^64) :
    DurationOptMs.deserialize (DurationOptMs.serialize d) =
      some (d.map fun x => Duration.fromMillis (Duration.asMillis x)) := by
  have hread : Json.asOption (Json.asWord 64) (DurationOptMs.serialize d) =
      some (d.map fun x => asU64 (Duration.asMillis x)) := by
    refine Json.asOption_ofOption (f := Json.ofNat) (fun n _ => by simp [Json.ofNat]) ?_
    intro ms hms
    obtain ⟨x,hx,rfl⟩ := Option.map_eq_some_iff.1 hms
    exact Json.asWord_ofNat (asU64_lt _)
  rw [DurationOptMs.deserialize,hread]
  cases d with
  | none => simp
  | some x =>
    have hms : asU64 (Duration.asMillis x) = Duration.asMillis x := asU64_of_lt (h x rfl)
    simp [hms]

/-- The struct variants are read back, and a newtype variant is not even written. -/
theorem wire_round_trip_iff (e : InferenceError) (h : e.InRange) : e.RoundTrips ↔ e.isNewtype = false := by
  cases e with
  | backpressure message => exact iff_of_false (not_roundTrips_newtype rfl) (by simp [isNewtype])
  | networkError message => exact iff_of_false (not_roundTrips_newtype rfl) (by simp [isNewtype])
  | cudaContextPoisoned message => exact iff_of_false (not_roundTrips_newtype rfl) (by simp [isNewtype])
  | internal message => exact iff_of_false (not_roundTrips_newtype rfl) (by simp [isNewtype])
  | rateLimited provider retryAfter =>
    refine iff_of_true (roundTrips_of_read rfl (by simp) ?_) rfl
    simp only [deserializeVariant]
    rw [Json.required_head (by simp),Json.required_tail (by simp),Json.required_single,
      ProviderKind.deserialize_serialize,durationOptMs_roundTrip h]
    rfl
  | circuitOpen provider openedAtUnixMs retryAtUnixMs =>
    refine iff_of_true (roundTrips_of_read rfl (by simp) ?_) rfl
    simp only [deserializeVariant]
    rw [Json.required_head (by simp),Json.required_tail (by simp),Json.required_head (by simp),
      Json.required_tail (by simp),Json.required_tail (by simp),Json.required_single,
      ProviderKind.deserialize_serialize,Json.asWord_ofNat h.1,Json.asWord_ofNat h.2]
    rfl
  | contextLengthExceeded tokens maxTokens =>
    refine iff_of_true (roundTrips_of_read rfl (by simp) ?_) rfl
    simp only [deserializeVariant]
    rw [Json.required_head (by simp),Json.required_tail (by simp),Json.required_single,Json.asWord_ofNat h.1,
      Json.asWord_ofNat h.2]
    rfl
  | serverError status body =>
    have hbody : Json.asOption Json.asString (Json.ofOption .string body) = some body :=
      Json.asOption_ofOption (fun s _ => by simp) fun s _ => rfl
    refine iff_of_true (roundTrips_of_read rfl (by simp) ?_) rfl
    simp only [deserializeVariant]
    rw [Json.required_head (by simp),Json.asWord_ofNat h]
    simp [Json.optional,Json.valuesOf,hbody,truncated]
  | timeout elapsedMs =>
    refine iff_of_true (roundTrips_of_read rfl (by simp) ?_) rfl
    simp [deserializeVariant,Json.asWord_ofNat h,truncated]
  | unsupported method runtime =>
    refine iff_of_true (roundTrips_of_read rfl (by simp) ?_) rfl
    simp only [deserializeVariant]
    rw [Json.required_head (by simp),Json.required_tail (by simp),Json.required_single,
      RuntimeKind.deserialize_serialize]
    rfl
  | _ =>
    -- a variant with one string
    refine iff_of_true (roundTrips_of_read rfl (by simp) ?_) rfl
    simp [deserializeVariant,Json.asString,truncated]

/-- A limit with a duration of a second and a half microsecond. -/
theorem wire_round_trip_rateLimited :
    (rateLimited (.custom "acme") (some 1000000500)).RoundTrips :=
  (wire_round_trip_iff (rateLimited (.custom "acme") (some 1000000500))
    (fun d hd => by obtain rfl : _ = d := Option.some.inj hd; decide)).2 rfl

/-- Backpressure has no JSON form. -/
theorem wire_round_trip_fails_backpressure :
    (backpressure "queue full").serialize =
        .error "cannot serialize tagged newtype variant InferenceError::Backpressure containing a string" ∧
      (backpressure "queue full").InRange ∧ ¬ (backpressure "queue full").RoundTrips :=
  ⟨rfl,trivial,not_roundTrips_newtype rfl⟩

end InferenceError
end RakkaInference
