import RakkaInference.Core.Records
import RakkaInference.Machine.Decimal
import RakkaInference.Providers.Anthropic
import RakkaInference.Providers.Gemini
import RakkaInference.Providers.OpenAi
import RakkaInference.Remote.Worker
import RakkaInference.Machine.Text

/-! An answer that is no success, and the error that each provider makes of it. -/
namespace RakkaInference
open Machine Json

/-- What the classification asks of the libraries: the JSON of a text, the letters in lower case, the time
of an HTTP date, and the `Debug` text of a body. -/
structure Http where
  fromStr : String → Option Json
  toLowercase : String → String
  parseFromRfc2822 : String → Option ℤ
  debugBody : Option String → String

def classifyHttpStatus (http : Http) (provider : ProviderKind) (status : ℕ) (retryAfter : Option ℕ)
    (body : Option String) : InferenceError :=
  match status with
  | 429 => .rateLimited provider retryAfter
  | 400 => .badRequest (body.getD "bad request")
  | 401 => .unauthorized (body.getD "unauthorized")
  | 403 => .forbidden (body.getD "forbidden")
  | s =>
    if 500 ≤ s ∧ s < 600 then .serverError s body
    else .internal s!"unexpected status {s}: {http.debugBody body}"

/-- Seconds, or a date that is still to come. -/
def parseRetryAfter (http : Http) (now : ℤ) (value : Option String) : Option ℕ :=
  value.bind fun v =>
    let trimmed := Machine.trim v.toList
    match parseUnsigned 64 trimmed with
    | some secs => some (Duration.fromSecs secs)
    | none =>
      (http.parseFromRfc2822 (String.ofList trimmed)).bind fun t =>
        if t > now then some (Duration.fromSecs (asU64OfInt (t-now))) else none

/-- The error that the body tells of, if it can be read. -/
def envelope {β : Type} (http : Http) (names : List String) (readBody : Json → Option β) (body : Option String) :
    Option β := do
  let fields ← (← http.fromStr (← body)).fieldsOf names
  required fields "error" readBody

def contains (text part : String) : Bool := decide (part.toList <:+: text.toList)

namespace OpenAi

structure ErrorBody where
  message : String
  code : Option String
  kind : Option String

def ErrorBody.deserialize (j : Json) : Option ErrorBody := do
  let fields ← j.fieldsOf ["message","code","type"]
  some {
    message := ← defaulted fields "message" "" asString
    code := ← defaulted fields "code" none (asOption asString)
    kind := ← defaulted fields "type" none (asOption asString) }

/-- A refusal of the request with a reason that is known. -/
def upgrade (error : ErrorBody) : Option InferenceError :=
  if error.code = some "context_length_exceeded" then some (.contextLengthExceeded 0 0)
  else if error.kind = some "content_filter" ∨ error.kind = some "content_filter_results_violation" then
    some (.contentFiltered error.message)
  else none

def classifyOpenaiError (http : Http) (now : ℤ) (status : ℕ) (retryAfterHeader body : Option String) :
    InferenceError :=
  let retryAfter := parseRetryAfter http now retryAfterHeader
  let upgraded := if status = 400 then (envelope http ["error"] ErrorBody.deserialize body).bind upgrade else none
  upgraded.getD (classifyHttpStatus http .openAi status retryAfter body)

end OpenAi

namespace Anthropic

structure ErrorBody where
  kind : String
  message : String

def ErrorBody.deserialize (j : Json) : Option ErrorBody := do
  let fields ← j.fieldsOf ["type","message"]
  some { kind := ← defaulted fields "type" "" asString, message := ← defaulted fields "message" "" asString }

/-- The envelope has a type of its own, which is a string if it is there. -/
def errorBody (http : Http) (body : Option String) : Option ErrorBody := do
  let fields ← (← http.fromStr (← body)).fieldsOf ["type","error"]
  let _kind ← defaulted fields "type" "" asString
  required fields "error" ErrorBody.deserialize

def upgrade (http : Http) (error : ErrorBody) : Option InferenceError :=
  if error.kind = "invalid_request_error" ∧
      (contains (http.toLowercase error.message) "context length" ∨
        contains (http.toLowercase error.message) "too long") then
    some (.contextLengthExceeded 0 0)
  else if error.kind = "permission_error" then some (.forbidden error.message)
  else none

def classifyAnthropicError (http : Http) (now : ℤ) (status : ℕ) (retryAfterHeader body : Option String) :
    InferenceError :=
  let retryAfter := parseRetryAfter http now retryAfterHeader
  ((errorBody http body).bind (upgrade http)).getD (classifyHttpStatus http .anthropic status retryAfter body)

end Anthropic

namespace Gemini

structure ErrorBody where
  message : String
  status : String

def ErrorBody.deserialize (j : Json) : Option ErrorBody := do
  let fields ← j.fieldsOf ["message","status"]
  some { message := ← defaulted fields "message" "" asString, status := ← defaulted fields "status" "" asString }

def upgrade (http : Http) (retryAfter : Option ℕ) (error : ErrorBody) : Option InferenceError :=
  if error.status = "RESOURCE_EXHAUSTED" then some (.rateLimited .gemini retryAfter)
  else
    let lower := http.toLowercase error.message
    if contains lower "safety" ∨ contains lower "blocked" then some (.contentFiltered error.message) else none

def classifyGeminiError (http : Http) (now : ℤ) (status : ℕ) (retryAfterHeader body : Option String) :
    InferenceError :=
  let retryAfter := parseRetryAfter http now retryAfterHeader
  ((envelope http ["error"] ErrorBody.deserialize body).bind (upgrade http retryAfter)).getD
    (classifyHttpStatus http .gemini status retryAfter body)

end Gemini

/-- What comes of a request: a header or an address that cannot be made, no answer, an answer with another status
than those of success, or a success with its body, as events and as a text. -/
inductive HttpAnswer
  | invalidHeader (message : String)
  | unsent (message : String)
  | refused (now : ℤ) (status : ℕ) (retryAfter body : Option String)
  | success (events : List (Except InferenceError SseChunk)) (json : String)

/-- The runners of the chat providers, by what their `execute` does with an answer. -/
structure ChatRunner where
  classify : ℤ → ℕ → Option String → Option String → InferenceError
  streamed : String → List (Except InferenceError SseChunk) → List (Except InferenceError TokenChunk)
  unary : String → String → Except InferenceError TokenChunk

def ChatRunner.execute (runner : ChatRunner) (batch : ExecuteBatch) : HttpAnswer → Execution
  | .invalidHeader message => .failed (.internal message)
  | .unsent message => .failed (.networkError message)
  | .refused now status retryAfter body => .failed (runner.classify now status retryAfter body)
  | .success events json =>
    if batch.stream then .streaming (runner.streamed batch.requestId events)
    else
      match runner.unary batch.requestId json with
      | .error e => .failed e
      | .ok chunk => .streaming [.ok chunk]

/-- What the libraries read from a chunk and from a whole body. -/
structure Decoders where
  chatChunk : String → Except String OpenAi.ChatChunk
  chatResponse : String → Except String OpenAi.ChatResponse
  sseEvent : String → Except String Anthropic.SseEvent
  messagesResponse : String → Except String Anthropic.MessagesResponse
  generateContent : String → Except String Gemini.GenerateContentResponse

/-- One chunk of a response that has been decoded. -/
def decoded {β : Type} (what : String) (unary : β → TokenChunk) (parsed : Except String β) :
    Except InferenceError TokenChunk :=
  match parsed with
  | .ok resp => .ok (unary resp)
  | .error e => .error (.internal s!"{what} decode: {e}")

def OpenAi.runner (http : Http) (d : Decoders) : ChatRunner where
  classify := classifyOpenaiError http
  streamed := streamed d.chatChunk
  unary requestId json := decoded "openai response" (unary requestId) (d.chatResponse json)

def Anthropic.runner (http : Http) (d : Decoders) : ChatRunner where
  classify := classifyAnthropicError http
  streamed := streamed d.sseEvent
  unary requestId json := decoded "anthropic" (unary requestId) (d.messagesResponse json)

def Gemini.runner (http : Http) (d : Decoders) : ChatRunner where
  classify := classifyGeminiError http
  streamed := streamed d.generateContent
  unary requestId json := decoded "gemini" (unary requestId) (d.generateContent json)

inductive ChatProvider
  | openAi
  | anthropic
  | gemini

namespace ChatProvider

def runner (http : Http) (d : Decoders) : ChatProvider → ChatRunner
  | openAi => OpenAi.runner http d
  | anthropic => Anthropic.runner http d
  | gemini => Gemini.runner http d

/-- The body says that there is no more quota. -/
def Exhausted (http : Http) (provider : ChatProvider) (body : Option String) : Prop :=
  match provider with
  | openAi | anthropic => False
  | gemini => ∃ error, envelope http ["error"] Gemini.ErrorBody.deserialize body = some error ∧
      error.status = "RESOURCE_EXHAUSTED"

/-- The body says that the same request would not be answered at another time either. -/
def Final (http : Http) (provider : ChatProvider) (body : Option String) : Prop :=
  match provider with
  | openAi => False
  | anthropic => ∃ error, Anthropic.errorBody http body = some error ∧ (error.kind = "permission_error" ∨
      error.kind = "invalid_request_error" ∧ ∃ part ∈ ["context length","too long"],
        contains (http.toLowercase error.message) part)
  | gemini => ∃ error, envelope http ["error"] Gemini.ErrorBody.deserialize body = some error ∧
      ∃ part ∈ ["safety","blocked"], contains (http.toLowercase error.message) part

/-- The refusals of a rate limit. -/
def Limits (http : Http) (provider : ChatProvider) (status : ℕ) (body : Option String) : Prop :=
  provider.Exhausted http body ∨ status = 429 ∧ ¬provider.Final http body

/-- The refusals that are met with another attempt. -/
def Passing (http : Http) (provider : ChatProvider) (status : ℕ) (body : Option String) : Prop :=
  provider.Limits http status body ∨ (500 ≤ status ∧ status < 600) ∧ ¬provider.Final http body

end ChatProvider

section Classes
variable {http : Http} {status : ℕ} {retryAfter : Option ℕ} {body : Option String} {kind : ProviderKind}

/-- What the status alone comes to. -/
theorem classifyHttpStatus_cases (http : Http) (kind : ProviderKind) (status : ℕ) (retryAfter : Option ℕ)
    (body : Option String) :
    (status = 429 ∧ classifyHttpStatus http kind status retryAfter body = .rateLimited kind retryAfter) ∨
    ((500 ≤ status ∧ status < 600) ∧
      classifyHttpStatus http kind status retryAfter body = .serverError status body) ∨
    ((status ≠ 429 ∧ ¬(500 ≤ status ∧ status < 600)) ∧
      (classifyHttpStatus http kind status retryAfter body).isRetryable = false) := by
  unfold classifyHttpStatus
  split
  · exact .inl ⟨rfl,rfl⟩
  · exact .inr (.inr ⟨by decide,rfl⟩)
  · exact .inr (.inr ⟨by decide,rfl⟩)
  · exact .inr (.inr ⟨by decide,rfl⟩)
  case h_5 hlimit _ _ _ =>
    split
    case isTrue hserver => exact .inr (.inl ⟨hserver,rfl⟩)
    case isFalse hserver => exact .inr (.inr ⟨⟨hlimit,hserver⟩,rfl⟩)

namespace ChatProvider

/-- An error against the words in which its refusal is told from others. -/
def Classified (http : Http) (provider : ChatProvider) (status : ℕ) (asked : Option ℕ) (body : Option String)
    (e : InferenceError) : Prop :=
  (provider.Limits http status body ∧ ∃ kind, e = .rateLimited kind asked) ∨
    (¬provider.Limits http status body ∧ provider.Passing http status body ∧ e = .serverError status body) ∨
    (¬provider.Passing http status body ∧ e.isRetryable = false)

/-- Where the body has nothing to say, the error is that of the status. -/
theorem classified_of_status {provider : ChatProvider} (hexhausted : ¬provider.Exhausted http body)
    (hfinal : ¬provider.Final http body) :
    provider.Classified http status retryAfter body (classifyHttpStatus http kind status retryAfter body) := by
  obtain ⟨hstatus,he⟩ | ⟨hstatus,he⟩ | ⟨hstatus,he⟩ := classifyHttpStatus_cases http kind status retryAfter body
  · exact .inl ⟨.inr ⟨hstatus,hfinal⟩,kind,he⟩
  · have hlimits : ¬provider.Limits http status body := by
      rintro (h | ⟨rfl,-⟩)
      · exact hexhausted h
      · omega
    exact .inr (.inl ⟨hlimits,.inr ⟨hstatus,hfinal⟩,he⟩)
  · refine .inr (.inr ⟨?_,he⟩)
    rintro ((h | ⟨h,-⟩) | ⟨h,-⟩)
    · exact hexhausted h
    · exact hstatus.1 h
    · exact hstatus.2 h

/-- What the body rules out is not tried again. -/
theorem classified_of_final {provider : ChatProvider} {e : InferenceError}
    (hexhausted : ¬provider.Exhausted http body) (hfinal : provider.Final http body) (he : e.isRetryable = false) :
    provider.Classified http status retryAfter body e := by
  refine .inr (.inr ⟨?_,he⟩)
  rintro ((h | ⟨-,h⟩) | ⟨-,h⟩)
  · exact hexhausted h
  · exact h hfinal
  · exact h hfinal

end ChatProvider

theorem OpenAi.upgrade_isRetryable {error : ErrorBody} {e : InferenceError} (h : upgrade error = some e) :
    e.isRetryable = false := by
  unfold upgrade at h
  split at h
  · cases h
    rfl
  · split at h
    · cases h
      rfl
    · cases h

theorem OpenAi.classified (http : Http) (now : ℤ) (status : ℕ) (header body : Option String) :
    ChatProvider.openAi.Classified http status (parseRetryAfter http now header) body
      (classifyOpenaiError http now status header body) := by
  unfold classifyOpenaiError
  dsimp only
  split
  case isFalse => exact ChatProvider.classified_of_status id id
  case isTrue hstatus =>
    cases h : (envelope http ["error"] ErrorBody.deserialize body).bind upgrade with
    | none => exact ChatProvider.classified_of_status id id
    | some e =>
      obtain ⟨error,-,he⟩ := Option.bind_eq_some_iff.mp h
      refine .inr (.inr ⟨?_,upgrade_isRetryable he⟩)
      rintro ((h | ⟨h,-⟩) | ⟨h,-⟩)
      · exact h
      · omega
      · omega

/-- The body is read as final, or it has nothing to say. -/
theorem Anthropic.upgrade_cases (http : Http) (body : Option String) :
    (∃ e, (errorBody http body).bind (upgrade http) = some e ∧ e.isRetryable = false ∧
      ChatProvider.anthropic.Final http body) ∨
    ((errorBody http body).bind (upgrade http) = none ∧ ¬ChatProvider.anthropic.Final http body) := by
  cases hbody : errorBody http body with
  | none =>
    refine .inr ⟨rfl,?_⟩
    rintro ⟨error,herror,-⟩
    rw [hbody] at herror
    cases herror
  | some error =>
    rw [Option.bind_some]
    unfold upgrade
    split
    case isTrue h =>
      refine .inl ⟨_,rfl,rfl,error,hbody,.inr ⟨h.1,?_⟩⟩
      obtain hlength | hlong := h.2
      · exact ⟨_,List.mem_cons_self,hlength⟩
      · exact ⟨_,List.mem_cons_of_mem _ List.mem_cons_self,hlong⟩
    case isFalse h =>
      split
      case isTrue hpermission => exact .inl ⟨_,rfl,rfl,error,hbody,.inl hpermission⟩
      case isFalse hpermission =>
        refine .inr ⟨rfl,?_⟩
        rintro ⟨error',herror',hfinal⟩
        obtain rfl := Option.some.inj (hbody.symm.trans herror')
        obtain hkind | ⟨hkind,part,hpart,hcontains⟩ := hfinal
        · exact hpermission hkind
        · rcases List.mem_pair.mp hpart with rfl | rfl
          · exact h ⟨hkind,.inl hcontains⟩
          · exact h ⟨hkind,.inr hcontains⟩

theorem Anthropic.classified (http : Http) (now : ℤ) (status : ℕ) (header body : Option String) :
    ChatProvider.anthropic.Classified http status (parseRetryAfter http now header) body
      (classifyAnthropicError http now status header body) := by
  unfold classifyAnthropicError
  obtain ⟨e,he,hretry,hfinal⟩ | ⟨hnone,hfinal⟩ := upgrade_cases http body
  · rw [he]
    exact ChatProvider.classified_of_final id hfinal hretry
  · rw [hnone]
    exact ChatProvider.classified_of_status id hfinal

/-- The body is read as the end of the quota, as final, or it has nothing to say. -/
theorem Gemini.upgrade_cases (http : Http) (asked : Option ℕ) (body : Option String) :
    (ChatProvider.gemini.Exhausted http body ∧
      (envelope http ["error"] ErrorBody.deserialize body).bind (upgrade http asked) =
        some (.rateLimited .gemini asked)) ∨
    ¬ChatProvider.gemini.Exhausted http body ∧
      ((∃ e, (envelope http ["error"] ErrorBody.deserialize body).bind (upgrade http asked) = some e ∧
        e.isRetryable = false ∧ ChatProvider.gemini.Final http body) ∨
      ((envelope http ["error"] ErrorBody.deserialize body).bind (upgrade http asked) = none ∧
        ¬ChatProvider.gemini.Final http body)) := by
  cases hbody : envelope http ["error"] ErrorBody.deserialize body with
  | none =>
    refine .inr ⟨?_,.inr ⟨rfl,?_⟩⟩
    · rintro ⟨error,herror,-⟩
      rw [hbody] at herror
      cases herror
    · rintro ⟨error,herror,-⟩
      rw [hbody] at herror
      cases herror
  | some error =>
    have honly : ∀ error', envelope http ["error"] ErrorBody.deserialize body = some error' → error' = error := by
      intro error' herror'
      exact Option.some.inj (herror'.symm.trans hbody)
    rw [Option.bind_some]
    unfold upgrade
    split
    case isTrue hexhausted => exact .inl ⟨⟨error,hbody,hexhausted⟩,rfl⟩
    case isFalse hexhausted =>
      refine .inr ⟨?_,?_⟩
      · rintro ⟨error',herror',h⟩
        rw [honly error' herror'] at h
        exact hexhausted h
      · dsimp only
        split
        case isTrue h =>
          refine .inl ⟨_,rfl,rfl,error,hbody,?_⟩
          obtain hsafety | hblocked := h
          · exact ⟨_,List.mem_cons_self,hsafety⟩
          · exact ⟨_,List.mem_cons_of_mem _ List.mem_cons_self,hblocked⟩
        case isFalse h =>
          refine .inr ⟨rfl,?_⟩
          rintro ⟨error',herror',part,hpart,hcontains⟩
          rw [honly error' herror'] at hcontains
          rcases List.mem_pair.mp hpart with rfl | rfl
          · exact h (.inl hcontains)
          · exact h (.inr hcontains)

theorem Gemini.classified (http : Http) (now : ℤ) (status : ℕ) (header body : Option String) :
    ChatProvider.gemini.Classified http status (parseRetryAfter http now header) body
      (classifyGeminiError http now status header body) := by
  unfold classifyGeminiError
  dsimp only
  obtain ⟨hexhausted,he⟩ | ⟨hexhausted,⟨e,he,hretry,hfinal⟩ | ⟨hnone,hfinal⟩⟩ :=
    upgrade_cases http (parseRetryAfter http now header) body
  · rw [he]
    exact .inl ⟨.inl hexhausted,_,rfl⟩
  · rw [he]
    exact ChatProvider.classified_of_final hexhausted hfinal hretry
  · rw [hnone]
    exact ChatProvider.classified_of_status hexhausted hfinal

/-- The errors of the three providers. -/
theorem ChatProvider.classify_classified (http : Http) (d : Decoders) (provider : ChatProvider) (now : ℤ)
    (status : ℕ) (header body : Option String) :
    provider.Classified http status (parseRetryAfter http now header) body
      ((provider.runner http d).classify now status header body) := by
  cases provider with
  | openAi => exact OpenAi.classified http now status header body
  | anthropic => exact Anthropic.classified http now status header body
  | gemini => exact Gemini.classified http now status header body

end Classes
end RakkaInference
