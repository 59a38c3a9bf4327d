import RakkaInference.Core.Request
import RakkaInference.Runtime.DpCoordinator

/-! The HTTP gateway in front of the coordinator. A request finds its deployment by the engines that are
registered when it comes, and leaves no trace. -/
namespace RakkaInference
open Machine

/-- How the parts of an error are written that have no text of their own. -/
structure DebugTexts where
  provider : ProviderKind → String
  runtime : RuntimeKind → String
  retryAfter : Option ℕ → String

def InferenceError.display (debug : DebugTexts) : InferenceError → String
  | rateLimited _ retryAfter => s!"rate-limited (retry after {debug.retryAfter retryAfter})"
  | circuitOpen provider openedAtUnixMs retryAtUnixMs =>
    s!"circuit open for {debug.provider provider} until {retryAtUnixMs} (opened at {openedAtUnixMs})"
  | contentFiltered reason => s!"content filtered: {reason}"
  | contextLengthExceeded tokens maxTokens => s!"context length exceeded ({tokens} > {maxTokens})"
  | badRequest message => s!"bad request: {message}"
  | unauthorized message => s!"unauthorized: {message}"
  | forbidden message => s!"forbidden: {message}"
  | backpressure message => s!"backpressure: {message}"
  | budgetExceeded deployment => s!"budget exceeded for `{deployment}`"
  | networkError message => s!"network error: {message}"
  | serverError status _ => s!"server error: {status}"
  | timeout elapsedMs => s!"timeout after {elapsedMs}ms"
  | cudaContextPoisoned message => s!"CUDA context poisoned: {message}"
  | unsupported method runtime => s!"{method} is unsupported by runtime {debug.runtime runtime}"
  | unsupportedAudioFormat message => s!"unsupported audio format: {message}"
  | realtimeClosed reason => s!"realtime session closed: {reason}"
  | internal message => s!"internal: {message}"

namespace Gateway

structure ChatMessage where
  role : String
  content : String

structure ChatRequest where
  model : String
  messages : List ChatMessage
  stream : Bool := false
  temperature : Option F32 := none
  maxTokens : Option ℕ := none

structure SpeechRequest where
  model : String
  responseFormat : String := "wav"

/-- A field of an upload, whose text and whose bytes may be unreadable. -/
structure Field where
  name : Option String
  text : Option String
  bytes : Option (List UInt8)

/-- A request, as the routes get it. The next field of an upload may be missing. -/
inductive Request
  | chatCompletions (req : ChatRequest)
  | audioTranscriptions (fields : List (Option Field))
  | audioSpeech (req : SpeechRequest)
  | audioSpeechStream (req : SpeechRequest)

inductive Body
  | json (j : Json)
  | audio (contentType : String) (bytes : List UInt8)
  | events (data : List String)

inductive Response
  | ok (body : Body)
  | badRequest (message kind : String)

def parseRole : String → Role
  | "system" => .system
  | "assistant" => .assistant
  | "tool" => .tool
  | _ => .user

def ChatRequest.batch (req : ChatRequest) (requestId : String) : ExecuteBatch where
  requestId
  model := req.model
  messages := req.messages.map fun m => ⟨parseRole m.role,.text m.content⟩
  sampling := { temperature := req.temperature, maxTokens := req.maxTokens }
  stream := req.stream
  estimatedTokensField := 256

/-- The keys of the literal are sorted. -/
def acknowledged (batch : ExecuteBatch) : Json := .object [
  ("choices",.array [.object [("finish_reason",.string "stop"),("index",.int 0),
    ("message",.object [("content",.string ""),("role",.string "assistant")])]]),
  ("id",.string batch.requestId),("model",.string batch.model),("object",.string "chat.completion")]

def wavContentType : String → String
  | "mp3" => "audio/mpeg"
  | "flac" => "audio/flac"
  | "opus" | "ogg" => "audio/ogg"
  | _ => "audio/wav"

def silentWavStub : List UInt8 :=
  "RIFF".toUTF8.toList++[36,0,0,0]++"WAVE".toUTF8.toList++"fmt ".toUTF8.toList++[16,0,0,0]++[1,0]++[1,0]++
    [128,62,0,0]++[0,125,0,0]++[2,0]++[16,0]++"data".toUTF8.toList++[0,0,0,0]

/-- What an upload has left after some of its fields. -/
structure Upload where
  model : Option String := none
  audioBytes : Option (List UInt8) := none

def Upload.read (u : Upload) (field : Field) : Upload :=
  match field.name with
  | some "model" => { u with model := field.text }
  | some "file" => { u with audioBytes := field.bytes }
  | _ => u

def Upload.readAll (u : Upload) : List (Option Field) → Upload
  | some field::fields => (u.read field).readAll fields
  | _ => u

section Code
variable {Ref Path N : Type*} [DecidableEq Path] [LinearOrder N] (path : Ref → Path) (debug : DebugTexts)

/-- The question to the coordinator, which answers in time or not. -/
def ask (inTime : Bool) (deployment : String) (s : CoordinatorState Ref N) :
    CoordinatorState Ref N × Option (Except InferenceError (RouteTarget Ref N)) :=
  let (s',reply) := DpCoordinatorActor.handle path s (.routeTo deployment)
  (s',if inTime then reply else none)

def resolveRoute (inTime : Bool) (model : String) (s : CoordinatorState Ref N) :
    CoordinatorState Ref N × Except Response Unit :=
  match ask path inTime model s with
  | (s',some (.ok _)) => (s',.ok ())
  | (s',some (.error e)) => (s',.error (.badRequest (e.display debug) "no_route"))
  | (s',none) => (s',.error (.badRequest "coordinator timeout" "internal_error"))

def chatCompletions (now : Option ℤ) (inTime : Bool) (req : ChatRequest) (s : CoordinatorState Ref N) :
    CoordinatorState Ref N × Response :=
  let batch := req.batch s!"req-{now.getD 0}"
  match ask path inTime req.model s with
  | (s',some (.ok _)) => (s',.ok (.json (acknowledged batch)))
  | (s',some (.error e)) => (s',.badRequest (e.display debug) "no_route")
  | (s',none) => (s',.badRequest "coordinator timeout" "internal_error")

def audioTranscriptions (inTime : Bool) (fields : List (Option Field)) (s : CoordinatorState Ref N) :
    CoordinatorState Ref N × Response :=
  let upload := Upload.readAll {} fields
  match upload.model with
  | none => (s,.badRequest "missing 'model' field" "invalid_request")
  | some model =>
    if upload.audioBytes.isNone then (s,.badRequest "missing 'file' field" "invalid_request")
    else
      match resolveRoute path debug inTime model s with
      | (s',.ok _) => (s',.ok (.json (.object [("text",.string "")])))
      | (s',.error r) => (s',r)

def audioSpeech (inTime : Bool) (req : SpeechRequest) (s : CoordinatorState Ref N) :
    CoordinatorState Ref N × Response :=
  match resolveRoute path debug inTime req.model s with
  | (s',.ok _) => (s',.ok (.audio (wavContentType req.responseFormat) silentWavStub))
  | (s',.error r) => (s',r)

def audioSpeechStream (inTime : Bool) (req : SpeechRequest) (s : CoordinatorState Ref N) :
    CoordinatorState Ref N × Response :=
  match resolveRoute path debug inTime req.model s with
  | (s',.ok _) => (s',.ok (.events ["[DONE]"]))
  | (s',.error r) => (s',r)

def handle (now : Option ℤ) (inTime : Bool) (s : CoordinatorState Ref N) :
    Request → CoordinatorState Ref N × Response
  | .chatCompletions req => chatCompletions path debug now inTime req s
  | .audioTranscriptions fields => audioTranscriptions path debug inTime fields s
  | .audioSpeech req => audioSpeech path debug inTime req s
  | .audioSpeechStream req => audioSpeechStream path debug inTime req s

/-- What comes to the node: a message to the coordinator, or a request at some time. -/
inductive Event (Ref Path N : Type*)
  | message (m : DpCoordinatorMsg Ref Path N)
  | request (now : Option ℤ) (inTime : Bool) (req : Request)

/-- The responses, in the order of the requests. -/
def serve (s : CoordinatorState Ref N) : List (Event Ref Path N) → List Response
  | [] => []
  | .message m::events => serve (DpCoordinatorActor.handle path s m).1 events
  | .request now inTime req::events =>
    let (s',r) := handle path debug now inTime s req
    r::serve s' events

end Code

@[simp] def Event.message? {Ref Path N : Type*} : Event Ref Path N → Option (DpCoordinatorMsg Ref Path N)
  | message m => some m
  | request _ _ _ => none

@[simp] def Event.isRequest {Ref Path N : Type*} : Event Ref Path N → Bool
  | message _ => false
  | request _ _ _ => true

/-- The fields in front of the first that is missing. -/
def arrived : List (Option Field) → List Field
  | some field::fields => field::arrived fields
  | _ => []

/-- The last of the fields with a name. -/
def lastNamed (name : String) (fields : List Field) : Option Field := (fields.filter (·.name = some name)).getLast?

/-- What a request is for, or what it is missing. -/
def Request.deployment : Request → Except String String
  | chatCompletions req => .ok req.model
  | audioTranscriptions fields =>
    match (lastNamed "model" (arrived fields)).bind Field.text with
    | none => .error "missing 'model' field"
    | some model =>
      match (lastNamed "file" (arrived fields)).bind Field.bytes with
      | none => .error "missing 'file' field"
      | some _ => .ok model
  | audioSpeech req => .ok req.model
  | audioSpeechStream req => .ok req.model

/-- What a request that finds an engine is answered with. -/
def Request.body (now : Option ℤ) : Request → Body
  | chatCompletions req => .json (acknowledged (req.batch s!"req-{now.getD 0}"))
  | audioTranscriptions _ => .json (.object [("text",.string "")])
  | audioSpeech req => .audio (wavContentType req.responseFormat) silentWavStub
  | audioSpeechStream _ => .events ["[DONE]"]

/-- The response to a request, after the messages that came to the coordinator. -/
structure Answered {Ref Path N : Type*} [DecidableEq Path] (path : Ref → Path)
    (ms : List (DpCoordinatorMsg Ref Path N)) (now : Option ℤ) (inTime : Bool) (req : Request) (r : Response) :
    Prop where
  invalid : ∀ message, req.deployment = .error message → r = .badRequest message "invalid_request"
  late : ∀ d, req.deployment = .ok d → inTime = false → r = .badRequest "coordinator timeout" "internal_error"
  routed : ∀ d, req.deployment = .ok d → inTime → (∃ t, DpCoordinatorActor.Current path d ms t) →
    r = .ok (req.body now)
  unrouted : ∀ d, req.deployment = .ok d → inTime → (¬∃ t, DpCoordinatorActor.Current path d ms t) →
    r = .badRequest s!"internal: no engine for deployment `{d}`" "no_route"

theorem lastNamed_cons (name : String) (field : Field) (fields : List Field) : lastNamed name (field::fields) =
    (lastNamed name fields).or (if field.name = some name then some field else none) := by
  unfold lastNamed
  by_cases h : field.name = some name
  · rw [List.filter_cons_of_pos (by simpa using h),List.getLast?_cons,if_pos h]
    cases (fields.filter (·.name = some name)).getLast? with
    | none => rfl
    | some last => rfl
  · rw [List.filter_cons_of_neg (by simpa using h),if_neg h,Option.or_none]

theorem Upload.read_eq (u : Upload) (field : Field) : u.read field =
    ⟨if field.name = some "model" then field.text else u.model,
      if field.name = some "file" then field.bytes else u.audioBytes⟩ := by
  unfold read
  split
  next h =>
    rw [h]
    rfl
  next h =>
    rw [h]
    rfl
  next hmodel hfile => rw [if_neg hmodel,if_neg hfile]

theorem elim_or_if {p : Prop} [Decidable p] {α β : Type*} (a : Option α) (x : α) (y : β) (f : α → β) :
    (a.or (if p then some x else none)).elim y f = a.elim (if p then f x else y) f := by
  cases a with
  | some a => rfl
  | none =>
    by_cases h : p
    · rw [if_pos h,if_pos h]
      rfl
    · rw [if_neg h,if_neg h]
      rfl

/-- The last field with a name is the one that counts, also where it is unreadable. -/
theorem Upload.readAll_eq (u : Upload) (fields : List (Option Field)) : u.readAll fields =
    ⟨(lastNamed "model" (arrived fields)).elim u.model Field.text,
      (lastNamed "file" (arrived fields)).elim u.audioBytes Field.bytes⟩ := by
  induction fields generalizing u with
  | nil => rfl
  | cons field fields ih =>
    cases field with
    | none => rfl
    | some field =>
      change (u.read field).readAll fields = _
      rw [ih,arrived,lastNamed_cons,lastNamed_cons,elim_or_if,elim_or_if,Upload.read_eq]

section Requests
variable {Ref Path N : Type*} [DecidableEq Path] [LinearOrder N] {path : Ref → Path} {debug : DebugTexts}
  {s : CoordinatorState Ref N} {now : Option ℤ} {inTime : Bool} {req : Request} {d : String}

theorem ask_eq : ask path inTime d s = (s,if inTime then some (DpCoordinatorActor.pick s d) else none) := rfl

/-- What comes of the coordinator's reply. -/
def admitted (debug : DebugTexts) : Option (Except InferenceError (RouteTarget Ref N)) → Except Response Unit
  | some (.ok _) => .ok ()
  | some (.error e) => .error (.badRequest (e.display debug) "no_route")
  | none => .error (.badRequest "coordinator timeout" "internal_error")

def answer (debug : DebugTexts) (body : Body) (reply : Option (Except InferenceError (RouteTarget Ref N))) :
    Response :=
  match admitted debug reply with
  | .ok _ => .ok body
  | .error r => r

theorem resolveRoute_eq : resolveRoute path debug inTime d s =
    (s,admitted debug (if inTime then some (DpCoordinatorActor.pick s d) else none)) := by
  unfold resolveRoute
  rw [ask_eq]
  generalize (if inTime then some (DpCoordinatorActor.pick s d) else none) = reply
  match reply with
  | none | some (.ok t) | some (.error e) => rfl

theorem chatCompletions_eq (req : ChatRequest) : chatCompletions path debug now inTime req s =
    (s,answer debug (Request.body now (.chatCompletions req))
      (if inTime then some (DpCoordinatorActor.pick s req.model) else none)) := by
  unfold chatCompletions
  rw [ask_eq]
  generalize (if inTime then some (DpCoordinatorActor.pick s req.model) else none) = reply
  match reply with
  | none | some (.ok t) | some (.error e) => rfl

/-- The audio routes do the same with the route. -/
theorem answer_of_resolveRoute (body : Body) :
    (match resolveRoute path debug inTime d s with
      | (s',.ok _) => (s',.ok body)
      | (s',.error r) => (s',r)) =
    (s,answer debug body (if inTime then some (DpCoordinatorActor.pick s d) else none)) := by
  rw [resolveRoute_eq]
  unfold answer
  cases admitted debug (if inTime then some (DpCoordinatorActor.pick s d) else none) with
  | error r => rfl
  | ok u => rfl

theorem upload_eq (fields : List (Option Field)) : Upload.readAll {} fields =
    ⟨(lastNamed "model" (arrived fields)).bind Field.text,(lastNamed "file" (arrived fields)).bind Field.bytes⟩ := by
  rw [Upload.readAll_eq]
  cases lastNamed "model" (arrived fields) <;> cases lastNamed "file" (arrived fields) <;> rfl

theorem handle_of_ok (h : req.deployment = .ok d) : handle path debug now inTime s req =
    (s,answer debug (req.body now) (if inTime then some (DpCoordinatorActor.pick s d) else none)) := by
  cases req with
  | chatCompletions req =>
    obtain rfl := Except.ok.inj h
    exact chatCompletions_eq req
  | audioTranscriptions fields =>
    change audioTranscriptions path debug inTime fields s = _
    unfold audioTranscriptions
    rw [upload_eq]
    unfold Request.deployment at h
    cases hmodel : (lastNamed "model" (arrived fields)).bind Field.text with
    | none =>
      simp only [hmodel] at h
      cases h
    | some model =>
      cases hfile : (lastNamed "file" (arrived fields)).bind Field.bytes with
      | none =>
        simp only [hmodel,hfile] at h
        cases h
      | some bytes =>
        simp only [hmodel,hfile] at h
        obtain rfl := Except.ok.inj h
        exact answer_of_resolveRoute _
  | audioSpeech req =>
    obtain rfl := Except.ok.inj h
    exact answer_of_resolveRoute _
  | audioSpeechStream req =>
    obtain rfl := Except.ok.inj h
    exact answer_of_resolveRoute _

theorem handle_of_error {message : String} (h : req.deployment = .error message) :
    handle path debug now inTime s req = (s,.badRequest message "invalid_request") := by
  cases req with
  | audioTranscriptions fields =>
    change audioTranscriptions path debug inTime fields s = _
    unfold audioTranscriptions
    rw [upload_eq]
    unfold Request.deployment at h
    cases hmodel : (lastNamed "model" (arrived fields)).bind Field.text with
    | none =>
      simp only [hmodel] at h
      rw [← Except.error.inj h]
    | some model =>
      cases hfile : (lastNamed "file" (arrived fields)).bind Field.bytes with
      | none =>
        simp only [hmodel,hfile] at h
        rw [← Except.error.inj h]
        rfl
      | some bytes =>
        simp only [hmodel,hfile] at h
        cases h
  | chatCompletions _ | audioSpeech _ | audioSpeechStream _ => cases h

theorem handle_fst : (handle path debug now inTime s req).1 = s := by
  cases h : req.deployment with
  | error message => rw [handle_of_error h]
  | ok d => rw [handle_of_ok h]

end Requests

section Runs
variable {Ref Path N : Type*} [DecidableEq Path] [LinearOrder N] (path : Ref → Path) (debug : DebugTexts)

/-- The requests leave the coordinator as its other messages made it. -/
theorem serve_append (s : CoordinatorState Ref N) (before after : List (Event Ref Path N)) :
    serve path debug s (before++after) = serve path debug s before++
      serve path debug (DpCoordinatorActor.run path (before.filterMap Event.message?) s) after := by
  induction before generalizing s with
  | nil => rfl
  | cons event before ih =>
    cases event with
    | message m => exact ih _
    | request now inTime req =>
      change _::serve path debug (handle path debug now inTime s req).1 (before++after) =
        _::(serve path debug (handle path debug now inTime s req).1 before++_)
      rw [handle_fst,ih]
      rfl

theorem length_serve (s : CoordinatorState Ref N) (events : List (Event Ref Path N)) :
    (serve path debug s events).length = events.countP Event.isRequest := by
  induction events generalizing s with
  | nil => rfl
  | cons event events ih =>
    cases event with
    | message m => exact ih _
    | request now inTime req =>
      rw [List.countP_cons_of_pos rfl,← ih]
      rfl

theorem answered_run (ms : List (DpCoordinatorMsg Ref Path N)) (now : Option ℤ) (inTime : Bool) (req : Request) :
    Answered path ms now inTime req (handle path debug now inTime (DpCoordinatorActor.run path ms {}) req).2 where
  invalid := by
    intro message h
    rw [handle_of_error h]
  late := by
    intro d h hlate
    rw [handle_of_ok h,hlate]
    rfl
  routed := by
    intro d h hin ht
    obtain ⟨t,ht⟩ := ht
    rw [← DpCoordinatorActor.mem_currents_iff] at ht
    obtain ⟨hnil,-⟩ | ⟨u,-,hroute⟩ := DpCoordinatorActor.route_cases path ms d
    · rw [hnil] at ht
      cases ht
    · have hpick := Option.some.inj hroute
      rw [handle_of_ok h,hin,hpick]
      rfl
  unrouted := by
    intro d h hin hnone
    obtain ⟨-,hroute⟩ | ⟨u,hmin,-⟩ := DpCoordinatorActor.route_cases path ms d
    · have hpick := Option.some.inj hroute
      rw [handle_of_ok h,hin,hpick]
      rfl
    · have hu := mem_of_minBy hmin
      exact absurd ⟨u,DpCoordinatorActor.mem_currents_iff.mp hu⟩ hnone

end Runs

end Gateway

/-- Every request has one response, in its place among the others. -/
theorem gateway_answers {Ref Path N : Type*} [DecidableEq Path] [LinearOrder N] (path : Ref → Path)
    (debug : DebugTexts) (before after : List (Gateway.Event Ref Path N)) (now : Option ℤ) (inTime : Bool)
    (req : Gateway.Request) :
    ∃ r, (Gateway.serve path debug {} (before++.request now inTime req::after))[before.countP
      Gateway.Event.isRequest]? = some r ∧
      Gateway.Answered path (before.filterMap Gateway.Event.message?) now inTime req r := by
  refine ⟨_,?_,Gateway.answered_run path debug (before.filterMap Gateway.Event.message?) now inTime req⟩
  rw [Gateway.serve_append,← Gateway.length_serve path debug {} before,List.getElem?_append_right le_rfl,
    Nat.sub_self]
  rfl

end RakkaInference
