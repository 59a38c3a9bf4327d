import RakkaInference.Core.Records
import RakkaInference.Runtime.Catalog

/-! The JSON form of a deployment, and which of them are read back. -/
namespace RakkaInference
open Machine Json

namespace CapacityPolicy

def serialize : CapacityPolicy → Json
  | .reject => .string "reject"
  | .queue => .string "queue"
  | .fallback => .string "fallback"

def ofUnit : String → Option CapacityPolicy
  | "reject" => some .reject
  | "queue" => some .queue
  | "fallback" => some .fallback
  | _ => none

def deserialize : Json → Option CapacityPolicy := asUnit ofUnit

theorem deserialize_serialize (policy : CapacityPolicy) : deserialize policy.serialize = some policy := by
  cases policy <;> rfl

end CapacityPolicy

namespace Deployment.BudgetAction

def serialize : BudgetAction → Json
  | .reject => .string "reject"
  | .warn => .string "warn"
  | .throttle => .string "throttle"

def ofUnit : String → Option BudgetAction
  | "reject" => some .reject
  | "warn" => some .warn
  | "throttle" => some .throttle
  | _ => none

def deserialize : Json → Option BudgetAction := asUnit ofUnit

theorem deserialize_serialize (action : BudgetAction) : deserialize action.serialize = some action := by
  cases action <;> rfl

end Deployment.BudgetAction

namespace Serving

def slots (s : Serving) : List (String × Option Json) :=
  [("max_concurrent",some (ofNat s.maxConcurrent.toNat)),
   ("on_capacity_exhausted",some s.onCapacityExhausted.serialize)]

def serialize (s : Serving) : Json := .object (written s.slots)

def deserialize (j : Json) : Option Serving := do
  let fields ← fieldsOf ["max_concurrent","on_capacity_exhausted"] j 2
  some { maxConcurrent := ← required fields "max_concurrent" asU32,
         onCapacityExhausted := ← required fields "on_capacity_exhausted" CapacityPolicy.deserialize }

theorem deserialize_serialize (s : Serving) : deserialize s.serialize = some s := by
  have hnodup : (s.slots.map Prod.fst).Nodup := by simp [slots]
  have hmax : required (written s.slots) "max_concurrent" asU32 = some s.maxConcurrent :=
    (required_written hnodup (by simp [slots])).trans (asU32_ofNat s.maxConcurrent)
  have hpolicy : required (written s.slots) "on_capacity_exhausted" CapacityPolicy.deserialize =
      some s.onCapacityExhausted :=
    (required_written hnodup (by simp [slots])).trans s.onCapacityExhausted.deserialize_serialize
  rw [deserialize,serialize,fieldsOf_object]
  simp only [Option.bind_eq_bind]
  rw [Option.bind_some,hmax,Option.bind_some,hpolicy,Option.bind_some]

end Serving

namespace Deployment.Budget

def slots (b : Budget) : List (String × Option Json) :=
  [("max_spend_per_hour_usd",b.maxSpendPerHourUsd.map ofF64),("max_spend_per_day_usd",b.maxSpendPerDayUsd.map ofF64),
   ("on_exceeded",some b.onExceeded.serialize)]

def serialize (b : Budget) : Json := .object (written b.slots)

def deserialize (j : Json) : Option Budget := do
  let fields ← fieldsOf ["max_spend_per_hour_usd","max_spend_per_day_usd","on_exceeded"] j 3
  some { maxSpendPerHourUsd := ← optional fields "max_spend_per_hour_usd" asF64,
         maxSpendPerDayUsd := ← optional fields "max_spend_per_day_usd" asF64,
         onExceeded := ← required fields "on_exceeded" BudgetAction.deserialize }

/-- JSON has the amounts. -/
structure Finite (b : Budget) : Prop where
  perHour : ∀ x ∈ b.maxSpendPerHourUsd, x.IsFinite
  perDay : ∀ x ∈ b.maxSpendPerDayUsd, x.IsFinite

theorem nodup_slots (b : Budget) : (b.slots.map Prod.fst).Nodup := by simp [slots]

theorem deserialize_serialize {b : Budget} (h : b.Finite) : deserialize b.serialize = some b := by
  have hnodup := b.nodup_slots
  have hnumber {name : String} {o : Option F64} (hmem : (name,o.map ofF64) ∈ b.slots) (ho : ∀ x ∈ o, x.IsFinite) :
      optional (written b.slots) name asF64 = some o :=
    optional_skipped hnodup hmem (fun x hx hnull => ofF64_eq_null_iff.mp hnull (ho x hx)) fun x hx =>
      asF64_ofF64 (ho x hx)
  have haction : required (written b.slots) "on_exceeded" BudgetAction.deserialize = some b.onExceeded :=
    (required_written hnodup (by simp [slots])).trans b.onExceeded.deserialize_serialize
  rw [deserialize,serialize,fieldsOf_object]
  simp only [Option.bind_eq_bind]
  rw [Option.bind_some,hnumber (o := b.maxSpendPerHourUsd) (by simp [slots]) h.perHour,Option.bind_some,
    hnumber (o := b.maxSpendPerDayUsd) (by simp [slots]) h.perDay,Option.bind_some,haction,Option.bind_some]

theorem finite_of_reads_back {b : Budget} (h : deserialize b.serialize = some b) : b.Finite := by
  have hfinite {name : String} {o : Option F64} (hmem : (name,o.map ofF64) ∈ b.slots)
      (hread : optional (written b.slots) name asF64 = some o) : ∀ x ∈ o, x.IsFinite := by
    rintro x rfl
    exact not_not.mp (ofF64_eq_null_iff.not.mp (ne_null_of_optional b.nodup_slots hmem hread rfl))
  simp only [deserialize,serialize,fieldsOf_object,Option.bind_eq_bind,Option.bind_eq_some_iff] at h
  obtain ⟨fields,hfields,perHour,hperHour,perDay,hperDay,action,-,hb⟩ := h
  obtain rfl := Option.some.inj hfields
  obtain rfl := Option.some.inj hb
  exact ⟨hfinite (by simp [slots]) hperHour,hfinite (by simp [slots]) hperDay⟩

theorem serialize_ne_null (b : Budget) : b.serialize ≠ .null := by
  simp [serialize]

end Deployment.Budget

theorem RuntimeKind.serialize_ne_null (kind : RuntimeKind) : kind.serialize ≠ .null := by
  cases kind <;> simp [serialize]

namespace RuntimeConfig

/-- The tag has its place among the fields of the body, and no place beside anything else. -/
def newtypeVariant (tag variant : String) : Json → Except String Json
  | .object fields => .ok (withTag "runtime" tag fields)
  | .null => .ok (withTag "runtime" tag [])
  | .bool _ => .error s!"cannot serialize tagged newtype variant RuntimeConfig::{variant} containing a boolean"
  | .int _ => .error s!"cannot serialize tagged newtype variant RuntimeConfig::{variant} containing an integer"
  | .float _ => .error s!"cannot serialize tagged newtype variant RuntimeConfig::{variant} containing a float"
  | .string _ => .error s!"cannot serialize tagged newtype variant RuntimeConfig::{variant} containing a string"
  | .array _ => .error s!"cannot serialize tagged newtype variant RuntimeConfig::{variant} containing a sequence"

def serialize : RuntimeConfig Json → Except String Json
  | vllm body => newtypeVariant "vllm" "Vllm" body
  | tensorRt body => newtypeVariant "tensor_rt" "TensorRt" body
  | ort body => newtypeVariant "ort" "Ort" body
  | candle body => newtypeVariant "candle" "Candle" body
  | cudarc body => newtypeVariant "cudarc" "Cudarc" body
  | mistralRs body => newtypeVariant "mistral_rs" "MistralRs" body
  | openAi body => newtypeVariant "open_ai" "OpenAi" body
  | anthropic body => newtypeVariant "anthropic" "Anthropic" body
  | gemini body => newtypeVariant "gemini" "Gemini" body
  | liteLlm body => newtypeVariant "lite_llm" "LiteLlm" body
  | speechToText body => newtypeVariant "speech_to_text" "SpeechToText" body
  | textToSpeech body => newtypeVariant "text_to_speech" "TextToSpeech" body
  | realtimeSpeech body => newtypeVariant "realtime_speech" "RealtimeSpeech" body
  | audio2Face body => newtypeVariant "audio2_face" "Audio2Face" body
  | custom kind config => .ok (withTag "runtime" "custom" [("kind",.string kind),("config",config)])

def ofVariant : String → Json → Option (RuntimeConfig Json)
  | "vllm", body => some (vllm body)
  | "tensor_rt", body => some (tensorRt body)
  | "ort", body => some (ort body)
  | "candle", body => some (candle body)
  | "cudarc", body => some (cudarc body)
  | "mistral_rs", body => some (mistralRs body)
  | "open_ai", body => some (openAi body)
  | "anthropic", body => some (anthropic body)
  | "gemini", body => some (gemini body)
  | "lite_llm", body => some (liteLlm body)
  | "speech_to_text", body => some (speechToText body)
  | "text_to_speech", body => some (textToSpeech body)
  | "realtime_speech", body => some (realtimeSpeech body)
  | "audio2_face", body => some (audio2Face body)
  | "custom", body => do
    let fields ← fieldsOf ["kind","config"] body 2
    let kind ← required fields "kind" asString
    let config ← required fields "config" some
    some (custom kind config)
  | _, _ => none

def deserialize (j : Json) : Option (RuntimeConfig Json) :=
  (tagged "runtime" j).bind fun content => ofVariant content.1 content.2

/-- The body that stands beside the tag. -/
def body {V : Type} : RuntimeConfig V → Option V
  | vllm b | tensorRt b | ort b | candle b | cudarc b | mistralRs b | openAi b | anthropic b | gemini b | liteLlm b
  | speechToText b | textToSpeech b | realtimeSpeech b | audio2Face b => some b
  | custom _ _ => none

/-- An object that leaves the place of the tag free. -/
def Plain (b : Json) : Prop := ∃ fields, b = .object fields ∧ ∀ field ∈ fields, field.1 ≠ "runtime"

def ReadsBack (c : RuntimeConfig Json) : Prop := ∃ j, c.serialize = .ok j ∧ deserialize j = some c

variable {k : Json → RuntimeConfig Json} {b : Json} {tag variant : String}

theorem readsBack_newtype_iff (hwrite : (k b).serialize = newtypeVariant tag variant b)
    (hread : ∀ b, ofVariant tag b = some (k b)) (hk : Function.Injective k) : (k b).ReadsBack ↔ Plain b := by
  constructor
  · rintro ⟨j,hj,hback⟩
    rw [hwrite] at hj
    cases b with
    | object fields =>
      refine ⟨fields,rfl,?_⟩
      by_contra htwice
      push Not at htwice
      obtain rfl := Except.ok.inj hj
      rw [deserialize,tagged_withTag_twice htwice] at hback
      cases hback
    | null =>
      obtain rfl := Except.ok.inj hj
      rw [deserialize,tagged_withTag (by simp),Option.bind_some,hread] at hback
      cases hk (Option.some.inj hback)
    | bool _ => cases hj
    | int _ => cases hj
    | float _ => cases hj
    | string _ => cases hj
    | array _ => cases hj
  · rintro ⟨fields,rfl,hfields⟩
    refine ⟨withTag "runtime" tag fields,hwrite,?_⟩
    rw [deserialize,tagged_withTag hfields,Option.bind_some,hread]

theorem readsBack_custom (kind : String) (config : Json) : (custom kind config).ReadsBack := by
  refine ⟨_,rfl,?_⟩
  rw [deserialize,tagged_withTag (by simp),Option.bind_some,ofVariant]
  simp [required_head,required_tail,asString]

theorem readsBack_iff (c : RuntimeConfig Json) : c.ReadsBack ↔ ∀ b ∈ c.body, Plain b := by
  cases c with
  | custom kind config => exact iff_of_true (readsBack_custom kind config) (by simp [body])
  | vllm b => exact (readsBack_newtype_iff rfl (fun _ => rfl) fun _ _ => vllm.inj).trans (by simp [body])
  | tensorRt b => exact (readsBack_newtype_iff rfl (fun _ => rfl) fun _ _ => tensorRt.inj).trans (by simp [body])
  | ort b => exact (readsBack_newtype_iff rfl (fun _ => rfl) fun _ _ => ort.inj).trans (by simp [body])
  | candle b => exact (readsBack_newtype_iff rfl (fun _ => rfl) fun _ _ => candle.inj).trans (by simp [body])
  | cudarc b => exact (readsBack_newtype_iff rfl (fun _ => rfl) fun _ _ => cudarc.inj).trans (by simp [body])
  | mistralRs b => exact (readsBack_newtype_iff rfl (fun _ => rfl) fun _ _ => mistralRs.inj).trans (by simp [body])
  | openAi b => exact (readsBack_newtype_iff rfl (fun _ => rfl) fun _ _ => openAi.inj).trans (by simp [body])
  | anthropic b => exact (readsBack_newtype_iff rfl (fun _ => rfl) fun _ _ => anthropic.inj).trans (by simp [body])
  | gemini b => exact (readsBack_newtype_iff rfl (fun _ => rfl) fun _ _ => gemini.inj).trans (by simp [body])
  | liteLlm b => exact (readsBack_newtype_iff rfl (fun _ => rfl) fun _ _ => liteLlm.inj).trans (by simp [body])
  | speechToText b =>
    exact (readsBack_newtype_iff rfl (fun _ => rfl) fun _ _ => speechToText.inj).trans (by simp [body])
  | textToSpeech b =>
    exact (readsBack_newtype_iff rfl (fun _ => rfl) fun _ _ => textToSpeech.inj).trans (by simp [body])
  | realtimeSpeech b =>
    exact (readsBack_newtype_iff rfl (fun _ => rfl) fun _ _ => realtimeSpeech.inj).trans (by simp [body])
  | audio2Face b => exact (readsBack_newtype_iff rfl (fun _ => rfl) fun _ _ => audio2Face.inj).trans (by simp [body])

theorem ne_null_of_serialize {c : RuntimeConfig Json} {j : Json} (h : c.serialize = .ok j) : j ≠ .null := by
  rintro rfl
  have hnewtype (tag variant : String) (b : Json) : newtypeVariant tag variant b ≠ .ok .null := by
    cases b <;> simp [newtypeVariant,withTag]
  cases c with
  | custom kind config => simp [serialize,withTag] at h
  | _ => exact hnewtype _ _ _ h

end RuntimeConfig

namespace Deployment

def slots (d : Deployment Json) (config : Option Json) : List (String × Option Json) :=
  [("name",some (.string d.name)),("model",some (.string d.model)),("runtime",d.runtime.map RuntimeKind.serialize),
   ("runtime_config",config),("gpus",d.gpus.map fun n => ofNat n.toNat),("replicas",some (ofNat d.replicas.toNat)),
   ("serving",some d.serving.serialize),("budget",d.budget.map Budget.serialize),
   ("idempotent",some (.bool d.idempotent))]

def serialize (d : Deployment Json) : Except String Json :=
  match d.runtimeConfig with
  | none => .ok (.object (written (d.slots none)))
  | some c => c.serialize.map fun config => .object (written (d.slots (some config)))

def deserialize (j : Json) : Option (Deployment Json) := do
  let fields ← fieldsOf
    ["name","model","runtime","runtime_config","gpus","replicas","serving","budget","idempotent"] j 2
  some { name := ← required fields "name" asString,
         model := ← required fields "model" asString,
         runtime := ← optional fields "runtime" RuntimeKind.deserialize,
         runtimeConfig := ← optional fields "runtime_config" RuntimeConfig.deserialize,
         gpus := ← optional fields "gpus" asU32,
         replicas := ← defaulted fields "replicas" 1 asU32,
         serving := ← defaulted fields "serving" {} Serving.deserialize,
         budget := ← optional fields "budget" Budget.deserialize,
         idempotent := ← defaulted fields "idempotent" true asBool }

theorem nodup_slots (d : Deployment Json) (config : Option Json) :
    ((d.slots config).map Prod.fst).Nodup := by simp [slots]

/-- All but the configuration of the backend is read as it was. -/
theorem deserialize_written {d : Deployment Json} (hfinite : ∀ b ∈ d.budget, b.Finite) (config : Option Json) :
    deserialize (.object (written (d.slots config))) =
      (config.elim (some none) (asOption RuntimeConfig.deserialize)).map fun c => { d with runtimeConfig := c } := by
  have hnodup := d.nodup_slots config
  have hstring {name t : String} (hmem : (name,some (.string t)) ∈ d.slots config) :
      required (written (d.slots config)) name asString = some t := required_written hnodup hmem
  have hruntime : optional (written (d.slots config)) "runtime" RuntimeKind.deserialize = some d.runtime :=
    optional_skipped (g := RuntimeKind.serialize) hnodup (by simp [slots]) (fun kind _ => kind.serialize_ne_null)
      fun kind _ => kind.deserialize_serialize
  have hconfig : optional (written (d.slots config)) "runtime_config" RuntimeConfig.deserialize =
      config.elim (some none) (asOption RuntimeConfig.deserialize) := optional_written hnodup (by simp [slots])
  have hgpus : optional (written (d.slots config)) "gpus" asU32 = some d.gpus :=
    optional_skipped (g := fun n : UInt32 => ofNat n.toNat) hnodup (by simp [slots]) (fun n _ => by simp [ofNat])
      fun n _ => asU32_ofNat n
  have hreplicas : defaulted (written (d.slots config)) "replicas" 1 asU32 = some d.replicas :=
    (defaulted_written hnodup (by simp [slots])).trans (asU32_ofNat d.replicas)
  have hserving : defaulted (written (d.slots config)) "serving" {} Serving.deserialize = some d.serving :=
    (defaulted_written hnodup (by simp [slots])).trans d.serving.deserialize_serialize
  have hbudget : optional (written (d.slots config)) "budget" Budget.deserialize = some d.budget :=
    optional_skipped (g := Budget.serialize) hnodup (by simp [slots]) (fun b _ => b.serialize_ne_null)
      fun b hb => Budget.deserialize_serialize (hfinite b hb)
  have hidempotent {v : Bool} (hmem : ("idempotent",some (.bool v)) ∈ d.slots config) :
      defaulted (written (d.slots config)) "idempotent" true asBool = some v := defaulted_written hnodup hmem
  rw [deserialize,fieldsOf_object]
  simp only [Option.bind_eq_bind]
  rw [Option.bind_some,hstring (t := d.name) (by simp [slots]),Option.bind_some,
    hstring (t := d.model) (by simp [slots]),Option.bind_some,hruntime,Option.bind_some,hconfig]
  cases config.elim (some none) (asOption RuntimeConfig.deserialize) with
  | none => rfl
  | some c =>
    rw [Option.bind_some,hgpus,Option.bind_some,hreplicas,Option.bind_some,hserving,Option.bind_some,hbudget,
      Option.bind_some,hidempotent (v := d.idempotent) (by simp [slots]),Option.bind_some]
    rfl

theorem finite_of_reads_back {d : Deployment Json} {config : Option Json}
    (h : deserialize (.object (written (d.slots config))) = some d) : ∀ b ∈ d.budget, b.Finite := by
  simp only [deserialize,fieldsOf_object,Option.bind_eq_bind,Option.bind_eq_some_iff] at h
  obtain ⟨fields,hfields,name,-,model,-,runtime,-,c,-,gpus,-,replicas,-,serving,-,budget,hbudget,
    idempotent,-,hd⟩ := h
  obtain rfl := Option.some.inj hfields
  obtain rfl := Option.some.inj hd
  intro b hb
  obtain rfl : budget = some b := hb
  rw [optional_written (nodup_slots _ config) (by simp [slots] : ("budget",some b.serialize) ∈ _),Option.elim_some,
    asOption_of_ne_null b.serialize_ne_null] at hbudget
  obtain ⟨b',hread,hb'⟩ := Option.map_eq_some_iff.mp hbudget
  obtain rfl := Option.some.inj hb'
  exact Budget.finite_of_reads_back hread

theorem serialize_of_config {d : Deployment Json} {c : RuntimeConfig Json} (hc : d.runtimeConfig = some c) :
    d.serialize = c.serialize.map fun config => .object (written (d.slots (some config))) := by
  rw [serialize,hc]

theorem reads_back_of_config {d : Deployment Json} {c : RuntimeConfig Json} (hfinite : ∀ b ∈ d.budget, b.Finite)
    (hc : d.runtimeConfig = some c) : (∃ j, d.serialize = .ok j ∧ deserialize j = some d) ↔ c.ReadsBack := by
  rw [serialize_of_config hc]
  constructor
  · rintro ⟨j,hj,hback⟩
    cases hconfig : c.serialize with
    | error e =>
      rw [hconfig] at hj
      cases hj
    | ok config =>
      rw [hconfig] at hj
      obtain rfl := Except.ok.inj hj
      rw [deserialize_written hfinite,Option.elim_some,
        asOption_of_ne_null (RuntimeConfig.ne_null_of_serialize hconfig),Option.map_map] at hback
      obtain ⟨c',hread,hd⟩ := Option.map_eq_some_iff.mp hback
      obtain rfl : c' = c := Option.some.inj ((congrArg runtimeConfig hd).trans hc)
      exact ⟨config,hconfig,hread⟩
  · rintro ⟨config,hconfig,hread⟩
    refine ⟨.object (written (d.slots (some config))),by rw [hconfig]; rfl,?_⟩
    rw [deserialize_written hfinite,Option.elim_some,
      asOption_of_ne_null (RuntimeConfig.ne_null_of_serialize hconfig),hread,Option.map_some,Option.map_some,← hc]

theorem exists_slots_of_serialize {d : Deployment Json} {j : Json} (h : d.serialize = .ok j) :
    ∃ config, j = .object (written (d.slots config)) := by
  unfold serialize at h
  split at h
  · exact ⟨none,(Except.ok.inj h).symm⟩
  · rename_i c _
    cases hconfig : c.serialize with
    | error e =>
      rw [hconfig] at h
      cases h
    | ok config =>
      rw [hconfig] at h
      exact ⟨some config,(Except.ok.inj h).symm⟩

/-- A deployment is read back as it was if and only if its budget is finite and the body of its backend, where it
has one, is an object without a field `runtime` of its own. -/
theorem reads_back_iff_plain (d : Deployment Json) : (∃ j, d.serialize = .ok j ∧ deserialize j = some d) ↔
    (∀ b ∈ d.budget, b.Finite) ∧
      ∀ c ∈ d.runtimeConfig, ∀ b ∈ c.body, ∃ fields, b = .object fields ∧ ∀ field ∈ fields, field.1 ≠ "runtime" := by
  by_cases hfinite : ∀ b ∈ d.budget, b.Finite
  case neg =>
    refine iff_of_false ?_ fun h => hfinite h.1
    rintro ⟨j,hj,hback⟩
    obtain ⟨config,rfl⟩ := exists_slots_of_serialize hj
    exact hfinite (finite_of_reads_back hback)
  rw [and_iff_right hfinite]
  cases hc : d.runtimeConfig with
  | none =>
    refine iff_of_true ⟨_,by rw [serialize,hc],?_⟩ (by simp)
    rw [deserialize_written hfinite,Option.elim_none,Option.map_some,← hc]
  | some c =>
    rw [reads_back_of_config hfinite hc,c.readsBack_iff]
    simp [RuntimeConfig.Plain]

end Deployment
end RakkaInference
