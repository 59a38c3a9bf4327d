import Mathlib.Data.List.AList
import RakkaInference.Core.Deployment
import RakkaInference.Core.Error
import RakkaInference.Machine.Latest

/-! The catalog of deployments. Its manager takes messages one at a time; what it answers is a matter of the messages
before. -/
namespace RakkaInference
open Machine

structure Serving where
  maxConcurrent : UInt32 := 32
  onCapacityExhausted : CapacityPolicy := .queue

inductive Deployment.BudgetAction
  | reject
  | warn
  | throttle

structure Deployment.Budget where
  maxSpendPerHourUsd : Option F64 := none
  maxSpendPerDayUsd : Option F64 := none
  onExceeded : Deployment.BudgetAction

/-- The bodies are opaque here. -/
inductive RuntimeConfig (V : Type)
  | vllm (body : V)
  | tensorRt (body : V)
  | ort (body : V)
  | candle (body : V)
  | cudarc (body : V)
  | mistralRs (body : V)
  | openAi (body : V)
  | anthropic (body : V)
  | gemini (body : V)
  | liteLlm (body : V)
  | speechToText (body : V)
  | textToSpeech (body : V)
  | realtimeSpeech (body : V)
  | audio2Face (body : V)
  | custom (kind : String) (config : V)

structure Deployment (V : Type) where
  name : String
  model : String
  runtime : Option RuntimeKind := none
  runtimeConfig : Option (RuntimeConfig V) := none
  gpus : Option UInt32 := none
  replicas : UInt32 := 1
  serving : Serving := {}
  budget : Option Deployment.Budget := none
  idempotent : Bool := true

inductive DeploymentValidationError
  | emptyName
  | emptyModel
  | zeroReplicas
  deriving DecidableEq

instance : ToString DeploymentValidationError where
  toString
    | .emptyName => "deployment name must not be empty"
    | .emptyModel => "deployment model must not be empty"
    | .zeroReplicas => "deployment must have at least one replica"

variable {V : Type}

namespace Deployment

def validate (d : Deployment V) : Except DeploymentValidationError Unit :=
  if d.name = "" then .error .emptyName
  else if d.model = "" then .error .emptyModel
  else if d.replicas = 0 then .error .zeroReplicas
  else .ok ()

/-- What the manager may take into the catalog. -/
def Valid (d : Deployment V) : Prop := d.name ≠ "" ∧ d.model ≠ "" ∧ d.replicas ≠ 0

instance (d : Deployment V) : Decidable d.Valid := inferInstanceAs (Decidable (_ ∧ _ ∧ _))

theorem validate_eq_ok_iff (d : Deployment V) : d.validate = .ok () ↔ d.Valid := by
  unfold validate Valid
  split
  case isTrue h => simp [h]
  case isFalse hname =>
    split
    case isTrue h => simp [h]
    case isFalse hmodel =>
      split
      case isTrue h => simp [h]
      case isFalse hreplicas => simp [hname,hmodel,hreplicas]

end Deployment

inductive DeploymentState
  | pending
  | serving
  | draining
  | failed
  deriving DecidableEq

structure DeploymentRecord (V : Type) where
  deployment : Deployment V
  state : DeploymentState

inductive DeploymentManagerMsg (V : Type)
  | apply (deployment : Deployment V)
  | remove (name : String)
  | list
  | get (name : String)

inductive DeploymentManagerReply (V : Type)
  | done (res : Except InferenceError Unit)
  /-- In the order of the map. -/
  | records (rs : List (DeploymentRecord V))
  | record (r : Option (DeploymentRecord V))

abbrev Catalog (V : Type) := AList fun _ : String => DeploymentRecord V

namespace Catalog

/-- `DeploymentManagerActor::handle`. -/
def handle (records : Catalog V) : DeploymentManagerMsg V → Catalog V × DeploymentManagerReply V
  | .apply deployment =>
    match deployment.validate with
    | .ok () => (records.insert deployment.name ⟨deployment,.pending⟩,.done (.ok ()))
    | .error e => (records,.done (.error (.internal (toString e))))
  | .remove name => (records.erase name,.done (.ok ()))
  | .list => (records,.records (records.entries.map Sigma.snd))
  | .get name => (records,.record (records.lookup name))

def next (records : Catalog V) (m : DeploymentManagerMsg V) : Catalog V := (records.handle m).1

/-- What a message does to the record of a name. -/
def effect (m : DeploymentManagerMsg V) (name : String) : Option (Option (DeploymentRecord V)) :=
  match m with
  | .apply deployment =>
    if deployment.name = name ∧ deployment.Valid then some (some ⟨deployment,.pending⟩) else none
  | .remove n => if n = name then some none else none
  | _ => none

theorem writes_next : Writes (next (V := V)) (fun records name => records.lookup name) effect := by
  intro records m name
  cases m with
  | apply deployment =>
    simp only [next,handle,effect,← deployment.validate_eq_ok_iff]
    cases hv : deployment.validate with
    | error e => simp
    | ok u =>
      by_cases hname : deployment.name = name
      · subst hname
        simp [AList.lookup_insert]
      · simp [hname,AList.lookup_insert_ne (Ne.symm hname)]
  | remove n =>
    simp only [next,handle,effect]
    by_cases hname : n = name
    · subst hname
      simp [AList.lookup_erase]
    · simp [hname,AList.lookup_erase_ne (Ne.symm hname)]
  | list => rfl
  | get n => rfl

/-- The deployment was the last valid one applied under its name, and the name was not removed since. -/
def InForce (ms : List (DeploymentManagerMsg V)) (d : Deployment V) : Prop :=
  ∃ pre post, ms = pre++.apply d::post ∧ d.Valid ∧ .remove d.name ∉ post ∧
    ∀ d', .apply d' ∈ post → d'.name = d.name → ¬d'.Valid

theorem effect_eq_none_iff {m : DeploymentManagerMsg V} {name : String} : effect m name = none ↔
    m ≠ .remove name ∧ ∀ d, m = .apply d → d.name = name → ¬d.Valid := by
  cases m with
  | apply deployment =>
    rw [effect]
    split
    case isTrue h => simp [h.1,h.2]
    case isFalse h =>
      simp only [ne_eq,reduceCtorEq,not_false_eq_true,true_and,DeploymentManagerMsg.apply.injEq,forall_eq']
      exact ⟨fun _ hname hvalid => h ⟨hname,hvalid⟩,fun _ => trivial⟩
  | remove n =>
    rw [effect]
    split <;> simp_all
  | list => simp [effect]
  | get n => simp [effect]

theorem effect_eq_some_iff {m : DeploymentManagerMsg V} {name : String} {r : DeploymentRecord V} :
    effect m name = some (some r) ↔ ∃ d, m = .apply d ∧ d.name = name ∧ d.Valid ∧ r = ⟨d,.pending⟩ := by
  cases m with
  | apply deployment =>
    rw [effect]
    split
    case isTrue h =>
      constructor
      · intro heq
        exact ⟨deployment,rfl,h.1,h.2,(Option.some.inj (Option.some.inj heq)).symm⟩
      · rintro ⟨d,heq,-,-,rfl⟩
        cases heq
        rfl
    case isFalse h =>
      constructor
      · intro heq
        cases heq
      · rintro ⟨d,heq,hname,hvalid,-⟩
        cases heq
        exact absurd ⟨hname,hvalid⟩ h
  | remove n =>
    rw [effect]
    split <;> simp
  | list => simp [effect]
  | get n => simp [effect]

theorem lastWritten_iff {ms : List (DeploymentManagerMsg V)} {name : String} {r : DeploymentRecord V} :
    LastWritten effect ms name r ↔ ∃ d, d.name = name ∧ r = ⟨d,.pending⟩ ∧ InForce ms d := by
  constructor
  · rintro ⟨pre,m,post,rfl,hm,hpost⟩
    obtain ⟨d,rfl,rfl,hvalid,rfl⟩ := effect_eq_some_iff.mp hm
    refine ⟨d,rfl,rfl,pre,post,rfl,hvalid,?_,?_⟩
    · intro hmem
      exact (effect_eq_none_iff.mp (hpost _ hmem)).1 rfl
    · intro d' hmem hname
      exact (effect_eq_none_iff.mp (hpost _ hmem)).2 d' rfl hname
  · rintro ⟨d,rfl,rfl,pre,post,rfl,hvalid,hremove,happly⟩
    refine ⟨pre,.apply d,post,rfl,effect_eq_some_iff.mpr ⟨d,rfl,rfl,hvalid,rfl⟩,?_⟩
    intro m hm
    refine effect_eq_none_iff.mpr ⟨?_,?_⟩
    · rintro rfl
      exact hremove hm
    · rintro d' rfl
      exact happly d' hm

theorem lookup_iff (ms : List (DeploymentManagerMsg V)) (name : String) (r : DeploymentRecord V) :
    (ms.foldl next ∅).lookup name = some r ↔ ∃ d, d.name = name ∧ r = ⟨d,.pending⟩ ∧ InForce ms d := by
  rw [← lastWritten_iff]
  exact writes_next.lookup_foldl (fun name => AList.lookup_empty name) ms name r

/-- What the manager answers, given the messages it has had. -/
def Answers (ms : List (DeploymentManagerMsg V)) : DeploymentManagerMsg V → DeploymentManagerReply V → Prop
  | .apply d,reply => d.Valid ∧ reply = .done (.ok ()) ∨
      ∃ e, d.validate = .error e ∧ ¬d.Valid ∧ reply = .done (.error (.internal (toString e)))
  | .remove _,reply => reply = .done (.ok ())
  | .list,reply => ∃ rs, reply = .records rs ∧ (rs.map fun r => r.deployment.name).Nodup ∧
      ∀ r, r ∈ rs ↔ r.state = .pending ∧ InForce ms r.deployment
  | .get name,reply => ∃ o, reply = .record o ∧
      ∀ r, o = some r ↔ r.deployment.name = name ∧ r.state = .pending ∧ InForce ms r.deployment

/-- Records stand under their own names. -/
theorem name_of_mem {ms : List (DeploymentManagerMsg V)} {x : (_ : String) × DeploymentRecord V}
    (h : x ∈ (ms.foldl next ∅).entries) : x.2.deployment.name = x.1 := by
  obtain ⟨d,hname,heq,-⟩ := (lookup_iff ms x.1 x.2).mp (AList.mem_lookup_iff.mpr h)
  rw [heq]
  exact hname

/-- Whatever messages the manager has had, it answers the next from those in force: a deployment is there when it was
the last valid one applied under its name and was not removed since; an invalid one changes nothing and is refused
with the reason; and a list has each of them once. -/
theorem handle_answers (ms : List (DeploymentManagerMsg V)) (m : DeploymentManagerMsg V) :
    Answers ms m ((ms.foldl next ∅).handle m).2 := by
  cases m with
  | apply d =>
    have hvalid := d.validate_eq_ok_iff
    simp only [Answers,handle]
    cases hv : d.validate with
    | ok u => exact .inl ⟨hvalid.mp hv,rfl⟩
    | error e =>
      refine .inr ⟨e,rfl,?_,rfl⟩
      intro h
      rw [hvalid.mpr h] at hv
      cases hv
  | remove name => rfl
  | list =>
    refine ⟨_,rfl,?_,?_⟩
    · rw [List.map_map]
      have hkeys : (ms.foldl next ∅).entries.map ((fun r : DeploymentRecord V => r.deployment.name) ∘ Sigma.snd) =
          (ms.foldl next ∅).keys := List.map_congr_left fun x hx => name_of_mem hx
      rw [hkeys]
      exact AList.keys_nodup _
    · intro r
      constructor
      · intro hr
        obtain ⟨x,hx,rfl⟩ := List.mem_map.mp hr
        obtain ⟨d,-,heq,hforce⟩ := (lookup_iff ms x.1 x.2).mp (AList.mem_lookup_iff.mpr hx)
        rw [heq]
        exact ⟨rfl,hforce⟩
      · rintro ⟨hstate,hforce⟩
        have hlookup := (lookup_iff ms r.deployment.name r).mpr ⟨r.deployment,rfl,by rw [← hstate],hforce⟩
        exact List.mem_map.mpr ⟨⟨_,r⟩,AList.mem_lookup_iff.mp hlookup,rfl⟩
  | get name =>
    refine ⟨_,rfl,fun r => ?_⟩
    rw [lookup_iff]
    constructor
    · rintro ⟨d,hname,rfl,hforce⟩
      exact ⟨hname,rfl,hforce⟩
    · rintro ⟨hname,hstate,hforce⟩
      exact ⟨r.deployment,hname,by rw [← hstate],hforce⟩

end Catalog
end RakkaInference
