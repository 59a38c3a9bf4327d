import Mathlib.Algebra.BigOperators.Group.List.Basic
import RakkaInference.Core.Request

/-! The output of one request, put together from the chunks of its stream. Token counts are
words of 32 bits, and a sum that leaves its word wraps around. -/
namespace RakkaInference

namespace TokenUsage

def add (u v : TokenUsage) : TokenUsage :=
  ⟨u.inputTokens+v.inputTokens,u.outputTokens+v.outputTokens,u.reasoningTokens+v.reasoningTokens,
    u.cachedTokens+v.cachedTokens⟩

instance : Zero TokenUsage := ⟨{}⟩
instance : Add TokenUsage := ⟨add⟩

@[simp] theorem inputTokens_zero : (0 : TokenUsage).inputTokens = 0 := rfl
@[simp] theorem outputTokens_zero : (0 : TokenUsage).outputTokens = 0 := rfl
@[simp] theorem reasoningTokens_zero : (0 : TokenUsage).reasoningTokens = 0 := rfl
@[simp] theorem cachedTokens_zero : (0 : TokenUsage).cachedTokens = 0 := rfl

variable (u v w : TokenUsage)

@[simp] theorem inputTokens_add : (u+v).inputTokens = u.inputTokens+v.inputTokens := rfl
@[simp] theorem outputTokens_add : (u+v).outputTokens = u.outputTokens+v.outputTokens := rfl
@[simp] theorem reasoningTokens_add : (u+v).reasoningTokens = u.reasoningTokens+v.reasoningTokens := rfl
@[simp] theorem cachedTokens_add : (u+v).cachedTokens = u.cachedTokens+v.cachedTokens := rfl

theorem ext_iff' : u = v ↔ u.inputTokens = v.inputTokens ∧ u.outputTokens = v.outputTokens ∧
    u.reasoningTokens = v.reasoningTokens ∧ u.cachedTokens = v.cachedTokens := by
  cases u
  cases v
  simp

instance : AddCommMonoid TokenUsage where
  add_assoc u v w := by simp [ext_iff',UInt32.add_assoc]
  zero_add u := by simp [ext_iff']
  add_zero u := by simp [ext_iff']
  add_comm u v := by simp [ext_iff',UInt32.add_comm]
  nsmul := nsmulRec

instance : IsRightCancelAdd TokenUsage where
  add_right_cancel w u v h := by
    have hadd : u+w = v+w := h
    simpa [ext_iff'] using hadd

end TokenUsage

/-- Everything that one request has put out. -/
structure Tokens where
  requestId : String := ""
  text : String := ""
  usage : TokenUsage := {}
  finishReason : Option FinishReason := none
  deriving DecidableEq

namespace Tokens

def append (t : Tokens) (c : TokenChunk) : Tokens where
  requestId := t.requestId
  text := t.text++c.textDelta
  usage :=
    match c.usage with
    | some u => t.usage.add u
    | none => t.usage
  finishReason :=
    match c.finishReason with
    | some r => some r
    | none => t.finishReason

/-- The fold of `append`. -/
def collect (t : Tokens) (cs : List TokenChunk) : Tokens := cs.foldl append t

variable {t : Tokens} {c : TokenChunk} {cs : List TokenChunk}

@[simp] theorem collect_nil (t : Tokens) : t.collect [] = t := rfl

@[simp] theorem collect_cons (t : Tokens) (c : TokenChunk) (cs : List TokenChunk) :
    t.collect (c::cs) = (t.append c).collect cs := rfl

theorem collect_append (t : Tokens) (cs cs' : List TokenChunk) :
    t.collect (cs++cs') = (t.collect cs).collect cs' := List.foldl_append

theorem collect_snoc (t : Tokens) (cs : List TokenChunk) (c : TokenChunk) :
    t.collect (cs++[c]) = (t.collect cs).append c := collect_append t cs [c]

theorem usage_append (t : Tokens) (c : TokenChunk) : (t.append c).usage = t.usage+c.usage.getD 0 := by
  unfold append
  cases c.usage with
  | none => exact (add_zero t.usage).symm
  | some u => rfl

theorem finishReason_append (t : Tokens) (c : TokenChunk) :
    (t.append c).finishReason = c.finishReason.or t.finishReason := by
  unfold append
  cases c.finishReason <;> rfl

theorem text_collect (t : Tokens) (cs : List TokenChunk) :
    (t.collect cs).text = t.text++String.join (cs.map TokenChunk.textDelta) := by
  induction cs generalizing t with
  | nil => simp
  | cons c cs ih =>
    rw [collect_cons,ih,List.map_cons,String.join_cons,← String.append_assoc]
    rfl

theorem sum_usage_cons (c : TokenChunk) (cs : List TokenChunk) :
    ((c::cs).filterMap TokenChunk.usage).sum = c.usage.getD 0+(cs.filterMap TokenChunk.usage).sum := by
  cases hu : c.usage with
  | none => simp [hu]
  | some u => simp [hu]

/-- The usage of a stream is the sum of what its chunks report. -/
theorem usage_collect (t : Tokens) (cs : List TokenChunk) :
    (t.collect cs).usage = t.usage+(cs.filterMap TokenChunk.usage).sum := by
  induction cs generalizing t with
  | nil => simp
  | cons c cs ih =>
    rw [collect_cons,ih,usage_append,sum_usage_cons,add_assoc]

/-- The finish reason of a stream is the last one that a chunk reports. -/
theorem finishReason_collect (t : Tokens) (cs : List TokenChunk) :
    (t.collect cs).finishReason = (cs.filterMap TokenChunk.finishReason).getLast?.or t.finishReason := by
  induction cs generalizing t with
  | nil => rfl
  | cons c cs ih =>
    rw [collect_cons,ih,finishReason_append]
    cases hr : c.finishReason with
    | none => simp [hr]
    | some r =>
      rw [List.filterMap_cons_some hr,List.getLast?_cons]
      cases (cs.filterMap TokenChunk.finishReason).getLast? <;> rfl

/-- The same output, whatever request it is for. -/
def Agrees (t t' : Tokens) : Prop :=
  t.text = t'.text ∧ t.usage = t'.usage ∧ t.finishReason = t'.finishReason
  deriving Decidable

theorem Agrees.append {t t' : Tokens} (h : t.Agrees t') (c : TokenChunk) :
    (t.append c).Agrees (t'.append c) := by
  obtain ⟨htext,husage,hfinish⟩ := h
  refine ⟨congrArg (·++c.textDelta) htext,?_,?_⟩
  · rw [usage_append,usage_append,husage]
  · rw [finishReason_append,finishReason_append,hfinish]

/-- A stream and a single chunk have the same output when the texts concatenate to its text, the
reported usages sum up to its usage, and the last finish reason is its finish reason. -/
theorem agrees_append_iff (cs : List TokenChunk) (c : TokenChunk) :
    (({} : Tokens).collect cs).Agrees (({} : Tokens).append c) ↔
      String.join (cs.map TokenChunk.textDelta) = c.textDelta ∧
      (cs.filterMap TokenChunk.usage).sum = c.usage.getD 0 ∧
      (cs.filterMap TokenChunk.finishReason).getLast? = c.finishReason := by
  have htext : (({} : Tokens).append c).text = c.textDelta := String.empty_append
  have hzero : ({} : Tokens).usage = 0 := rfl
  have hnone : ({} : Tokens).finishReason = none := rfl
  rw [Agrees,text_collect,usage_collect,finishReason_collect,htext,usage_append,finishReason_append,
    hzero,hnone]
  simp

end Tokens

/-- The chunks of a stream that are no errors. -/
def okChunks (items : List (Except InferenceError TokenChunk)) : List TokenChunk :=
  items.filterMap Except.toOption

theorem okChunks_append (items items' : List (Except InferenceError TokenChunk)) :
    okChunks (items++items') = okChunks items++okChunks items' := List.filterMap_append

end RakkaInference
