import Mathlib.Data.List.Induction
import Mathlib.Data.List.ReduceOption
import RakkaInference.Core.ErrorWire

/-! The messages of a batch as the requests of two providers have them. The system messages go to a
field of their own. -/
namespace RakkaInference
open Machine

namespace Prompts
variable {μ : Type*}

/-- The loop over the messages, which is the same in both. The texts of the system messages are put
together, and the other messages are translated one by one. -/
def pushMessage (outgoing : Message → μ) (acc : Option String × List μ) (m : Message) : Option String × List μ :=
  if m.role = .system then
    match m.content with
    | .text s =>
      match acc.1 with
      | some prev => (some (prev++"\n"++s),acc.2)
      | none => (some s,acc.2)
    | .parts _ => acc
  else (acc.1,acc.2++[outgoing m])

def splitMessages (outgoing : Message → μ) (messages : List Message) : Option String × List μ :=
  messages.foldl (pushMessage outgoing) (none,[])

end Prompts

namespace Anthropic
open Prompts

structure MessagesMessage where
  role : String
  content : Json

structure MessagesRequest where
  model : String
  messages : List MessagesMessage
  system : Option String
  maxTokens : Option ℕ
  temperature : Option F32
  topP : Option F32
  stopSequences : List String
  stream : Bool

def serializePart : ContentPart → Json
  | .text text => .object [("type",.string "text"),("text",.string text)]
  | .imageBase64 mime data =>
    .object [("type",.string "image"),
      ("source",.object [("type",.string "base64"),("media_type",.string mime),("data",.string data)])]
  | .imageUrl url =>
    .object [("type",.string "image"),("source",.object [("type",.string "url"),("url",.string url)])]

/-- A message that is not from the system. -/
def outgoing (m : Message) : MessagesMessage where
  role :=
    match m.role with
    | .assistant => "assistant"
    | _ => "user"
  content :=
    match m.content with
    | .text t => .string t
    | .parts parts => .array (parts.map serializePart)

def MessagesRequest.fromBatch (b : ExecuteBatch) : MessagesRequest :=
  let (system,messages) := splitMessages outgoing b.messages
  { model := b.model
    messages
    system
    maxTokens := b.sampling.maxTokens.or (some 1024)
    temperature := b.sampling.temperature
    topP := b.sampling.topP
    stopSequences := b.sampling.stop
    stream := b.stream }

end Anthropic

namespace Gemini
open Prompts

inductive Part
  | text (text : String)
  | inlineData (mimeType data : String)
  | fileData (mimeType fileUri : String)
  deriving DecidableEq

structure Content where
  role : String
  parts : List Part
  deriving DecidableEq

structure GenerationConfig where
  temperature : Option F32
  topP : Option F32
  topK : Option ℕ
  maxOutputTokens : Option ℕ
  stopSequences : List String

structure SafetySetting where
  category : String
  threshold : String

structure GenerateContentRequest where
  contents : List Content
  systemInstruction : Option Content
  generationConfig : Option GenerationConfig
  safetySettings : List SafetySetting

def serializePart : ContentPart → Part
  | .text text => .text text
  | .imageBase64 mime data => .inlineData mime data
  | .imageUrl url => .fileData "image/jpeg" url

/-- A message that is not from the system. -/
def outgoing (m : Message) : Content where
  role :=
    match m.role with
    | .assistant => "model"
    | _ => "user"
  parts :=
    match m.content with
    | .text t => [.text t]
    | .parts parts => parts.map serializePart

def GenerateContentRequest.fromBatch (b : ExecuteBatch) (safety : List SafetySetting) : GenerateContentRequest :=
  let (system,contents) := splitMessages outgoing b.messages
  { contents
    systemInstruction := system.map fun t => { role := "system", parts := [.text t] }
    generationConfig := some
      { temperature := b.sampling.temperature
        topP := b.sampling.topP
        topK := b.sampling.topK
        maxOutputTokens := b.sampling.maxTokens
        stopSequences := b.sampling.stop }
    safetySettings := safety }

end Gemini

namespace Prompts

def textOf : ContentPart → Option String
  | .text t => some t
  | _ => none

/-- The parts of a content, each with its text if it is one. -/
def pieces : MessageContent → List (Option String)
  | .text t => [some t]
  | .parts parts => parts.map textOf

/-- All texts of the system messages. -/
def systemTexts (messages : List Message) : List String :=
  (messages.filter (·.role = .system)).flatMap fun m => (pieces m.content).reduceOption

/-- The texts on lines of their own, if there are any. -/
def joined (texts : List String) : Option String := if texts = [] then none else some ("\n".intercalate texts)

/-- The request has every text of the batch and no other. -/
structure KeepsText (messages : List Message) (system : Option (List (Option String)))
    (outgoing : List (List (Option String))) : Prop where
  outgoing_eq : outgoing = (messages.filter (·.role ≠ .system)).map fun m => pieces m.content
  system_eq : system = (joined (systemTexts messages)).map fun t => [some t]

/-- A text that is a part of a system message is not put out. -/
def NoSystemParts (messages : List Message) : Prop :=
  ∀ m ∈ messages, m.role = .system → ∀ parts, m.content = .parts parts → ∀ t, ContentPart.text t ∉ parts

section Lines
variable {ts us : List String}

theorem joined_snoc (ts : List String) (t : String) :
    joined (ts++[t]) = some (match joined ts with | some prev => prev++"\n"++t | none => t) := by
  unfold joined
  rw [if_neg (by simp)]
  by_cases hts : ts = []
  · rw [if_pos hts,hts,List.nil_append,String.intercalate_singleton]
  · rw [if_neg hts,String.intercalate_append_of_ne_nil hts (by simp),String.intercalate_singleton]

/-- The characters of the lines, with one for the end of each. -/
def lineLength (ts : List String) : ℕ := (ts.map fun t => t.length+1).sum

theorem lineLength_intercalate (h : ts ≠ []) : ("\n".intercalate ts).length+1 = lineLength ts := by
  induction ts with
  | nil => exact absurd rfl h
  | cons t ts ih =>
    cases ts with
    | nil => simp [lineLength,String.intercalate_singleton]
    | cons u ts =>
      have hrest := ih (List.cons_ne_nil u ts)
      rw [String.intercalate_cons_cons,String.length_append,String.length_append]
      simp only [lineLength,List.map_cons,List.sum_cons] at hrest ⊢
      change t.length+1+_+1 = _
      omega

theorem lineLength_eq_of_joined (h : joined ts = joined us) : lineLength ts = lineLength us := by
  unfold joined at h
  split at h
  case isTrue hts =>
    split at h
    case isTrue hus => rw [hts,hus]
    case isFalse hus => exact nomatch h
  case isFalse hts =>
    split at h
    case isTrue hus => exact nomatch h
    case isFalse hus => rw [← lineLength_intercalate hts,← lineLength_intercalate hus,Option.some.inj h]

end Lines

section Split
variable {μ : Type*} {messages : List Message}

/-- The texts of the system messages that are put out, and those that are not. -/
def plainTexts (m : Message) : List String :=
  if m.role = .system then
    match m.content with
    | .text s => [s]
    | .parts _ => []
  else []

def partTexts (m : Message) : List String :=
  if m.role = .system then
    match m.content with
    | .text _ => []
    | .parts parts => parts.filterMap textOf
  else []

theorem splitMessages_eq (outgoing : Message → μ) (messages : List Message) :
    splitMessages outgoing messages =
      (joined (messages.flatMap plainTexts),(messages.filter (·.role ≠ .system)).map outgoing) := by
  induction messages using List.reverseRecOn with
  | nil => rfl
  | append_singleton messages m ih =>
    have hstep : splitMessages outgoing (messages++[m]) =
        pushMessage outgoing (splitMessages outgoing messages) m := by
      rw [splitMessages,List.foldl_append]
      rfl
    rw [hstep,ih,List.flatMap_append,List.filter_append,List.map_append,List.flatMap_singleton,pushMessage,
      plainTexts]
    by_cases hrole : m.role = .system
    · rw [if_pos hrole,if_pos hrole,List.filter_cons_of_neg (by simpa using hrole)]
      cases m.content with
      | text s =>
        rw [joined_snoc,List.filter_nil,List.map_nil,List.append_nil]
        dsimp only
        cases joined (messages.flatMap plainTexts) <;> rfl
      | parts parts => simp
    · rw [if_neg hrole,if_neg hrole,List.filter_cons_of_pos (by simpa using hrole)]
      simp

theorem lineLength_append (ts us : List String) : lineLength (ts++us) = lineLength ts+lineLength us := by
  simp [lineLength]

theorem systemTexts_cons (m : Message) (messages : List Message) :
    systemTexts (m::messages) = plainTexts m++partTexts m++systemTexts messages := by
  unfold systemTexts plainTexts partTexts
  by_cases hrole : m.role = .system
  · rw [if_pos hrole,if_pos hrole,List.filter_cons_of_pos (by simpa using hrole),List.flatMap_cons]
    cases m.content with
    | text s => rfl
    | parts parts => simp [pieces,List.reduceOption,List.filterMap_map]
  · rw [if_neg hrole,if_neg hrole,List.filter_cons_of_neg (by simpa using hrole)]
    rfl

theorem lineLength_systemTexts (messages : List Message) :
    lineLength (systemTexts messages) =
      lineLength (messages.flatMap plainTexts)+lineLength (messages.flatMap partTexts) := by
  induction messages with
  | nil => rfl
  | cons m messages ih =>
    simp only [systemTexts_cons,List.flatMap_cons,lineLength_append,ih]
    omega

theorem eq_nil_of_lineLength {ts : List String} (h : lineLength ts = 0) : ts = [] := by
  cases ts with
  | nil => rfl
  | cons t ts =>
    simp only [lineLength,List.map_cons,List.sum_cons] at h
    omega

theorem partTexts_eq_nil_iff (m : Message) :
    partTexts m = [] ↔ (m.role = .system → ∀ parts, m.content = .parts parts → ∀ t, ContentPart.text t ∉ parts) := by
  unfold partTexts
  by_cases hrole : m.role = .system
  · rw [if_pos hrole]
    cases m.content with
    | text s => simp
    | parts parts =>
      dsimp only
      rw [List.filterMap_eq_nil_iff]
      constructor
      · rintro hnone _ parts' hparts t ht
        obtain rfl : parts = parts' := MessageContent.parts.inj hparts
        exact nomatch hnone _ ht
      · intro hno part hpart
        cases part with
        | text t => exact absurd hpart (hno hrole parts rfl t)
        | imageBase64 mime data => rfl
        | imageUrl url => rfl
  · rw [if_neg hrole]
    exact iff_of_true rfl fun h => absurd h hrole

/-- What is put out has every text unless a part is missing: then it is shorter. -/
theorem joined_systemTexts_iff (messages : List Message) :
    joined (messages.flatMap plainTexts) = joined (systemTexts messages) ↔ NoSystemParts messages := by
  constructor
  · intro h m hm
    have hlength := lineLength_eq_of_joined h
    rw [lineLength_systemTexts] at hlength
    have hnone : messages.flatMap partTexts = [] := eq_nil_of_lineLength (by omega)
    exact (partTexts_eq_nil_iff m).mp (List.flatMap_eq_nil_iff.mp hnone m hm)
  · intro h
    have hsame : messages.flatMap plainTexts = systemTexts messages := by
      induction messages with
      | nil => rfl
      | cons m messages ih =>
        obtain ⟨hm,hmessages⟩ := List.forall_mem_cons.mp h
        rw [systemTexts_cons,List.flatMap_cons,ih hmessages,(partTexts_eq_nil_iff m).mpr hm,List.append_nil]
    rw [hsame]

end Split
end Prompts

namespace Anthropic
open Prompts

/-- The text of a part that says it is one. -/
def textOf : Json → Option String
  | .object fields =>
    if (fields.lookup "type").bind Json.asString = some "text" then (fields.lookup "text").bind Json.asString
    else none
  | _ => none

def pieces : Json → List (Option String)
  | .string t => [some t]
  | .array parts => parts.map textOf
  | _ => []

theorem pieces_outgoing (m : Message) : pieces (outgoing m).content = Prompts.pieces m.content := by
  unfold outgoing
  cases m.content with
  | text t => rfl
  | parts parts =>
    simp only [pieces,Prompts.pieces,List.map_map]
    apply List.map_congr_left
    intro part _
    cases part <;> rfl

end Anthropic

namespace Gemini
open Prompts

def textOf : Part → Option String
  | .text t => some t
  | _ => none

theorem pieces_outgoing (m : Message) : (outgoing m).parts.map textOf = pieces m.content := by
  unfold outgoing
  cases m.content with
  | text t => rfl
  | parts parts =>
    simp only [pieces,List.map_map]
    apply List.map_congr_left
    intro part _
    cases part <;> rfl

end Gemini

namespace Prompts

/-- A loop whose messages have the texts of theirs keeps every text if no system message has parts with texts. -/
theorem keepsText_iff {μ : Type*} (outgoing : Message → μ) (piecesOf : μ → List (Option String))
    (h : ∀ m, piecesOf (outgoing m) = pieces m.content) (messages : List Message) :
    KeepsText messages ((splitMessages outgoing messages).1.map fun t => [some t])
        ((splitMessages outgoing messages).2.map piecesOf) ↔ NoSystemParts messages := by
  rw [splitMessages_eq,← joined_systemTexts_iff]
  have hinj : Function.Injective fun t : String => [some t] := fun s t hst => by simpa using hst
  constructor
  · intro hkeeps
    exact Option.map_injective hinj hkeeps.system_eq
  · intro hsame
    constructor
    case outgoing_eq =>
      rw [List.map_map]
      exact List.map_congr_left fun m _ => h m
    case system_eq => exact congrArg _ hsame

/-- Both requests keep every text of the batch, and add none, if no system message has parts with texts,
and only then. -/
theorem requests_keep_text_iff (b : ExecuteBatch) (safety : List Gemini.SafetySetting) :
    (KeepsText b.messages ((Anthropic.MessagesRequest.fromBatch b).system.map fun t => [some t])
        ((Anthropic.MessagesRequest.fromBatch b).messages.map fun m => Anthropic.pieces m.content) ↔
      NoSystemParts b.messages) ∧
    (KeepsText b.messages
        ((Gemini.GenerateContentRequest.fromBatch b safety).systemInstruction.map fun c => c.parts.map Gemini.textOf)
        ((Gemini.GenerateContentRequest.fromBatch b safety).contents.map fun c => c.parts.map Gemini.textOf) ↔
      NoSystemParts b.messages) := by
  constructor
  · exact keepsText_iff Anthropic.outgoing (fun m => Anthropic.pieces m.content) Anthropic.pieces_outgoing b.messages
  · have hsystem : ((Gemini.GenerateContentRequest.fromBatch b safety).systemInstruction.map fun c =>
        c.parts.map Gemini.textOf) = (splitMessages Gemini.outgoing b.messages).1.map fun t => [some t] := by
      change Option.map _ (Option.map _ _) = _
      rw [Option.map_map]
      rfl
    rw [hsystem]
    exact keepsText_iff Gemini.outgoing (fun c => c.parts.map Gemini.textOf) Gemini.pieces_outgoing b.messages

/-- One instruction of the system, and a question. -/
def instructed (instruction : MessageContent) : ExecuteBatch where
  requestId := "r"
  model := "m"
  messages := [⟨.system,instruction⟩,⟨.user,.parts [.text "a",.imageUrl "u",.text "b"]⟩]
  sampling := {}
  stream := true
  estimatedTokensField := 0

/-- An instruction in parts is lost, in both requests. -/
theorem requests_lose_system_parts :
    ¬ KeepsText (instructed (.parts [.text "be brief"])).messages
        ((Anthropic.MessagesRequest.fromBatch (instructed (.parts [.text "be brief"]))).system.map fun t => [some t])
        ((Anthropic.MessagesRequest.fromBatch (instructed (.parts [.text "be brief"]))).messages.map fun m =>
          Anthropic.pieces m.content) ∧
    ¬ KeepsText (instructed (.parts [.text "be brief"])).messages
        ((Gemini.GenerateContentRequest.fromBatch (instructed (.parts [.text "be brief"])) []).systemInstruction.map
          fun c => c.parts.map Gemini.textOf)
        ((Gemini.GenerateContentRequest.fromBatch (instructed (.parts [.text "be brief"])) []).contents.map
          fun c => c.parts.map Gemini.textOf) := by
  constructor
  · exact fun h => nomatch h.system_eq
  · exact fun h => nomatch h.system_eq

end Prompts
end RakkaInference
