import RakkaInference.Providers.Refusals
import RakkaInference.Remote.Worker

/-! A worker over the answers of a provider: which of them it meets with another request, and after which wait. -/
namespace RakkaInference
open Machine
variable {http : Http} {d : Decoders} {provider : ChatProvider} {slot : WorkerSlot} {batch : ExecuteBatch}
  {answers : ℕ → HttpAnswer} {answer : HttpAnswer} {e : InferenceError} {engine : RetryEngine} {k n after : ℕ}
  {events : List WorkerEvent}

namespace HttpAnswer

/-- The error of an answer that is no success. -/
def error (runner : ChatRunner) : HttpAnswer → Option InferenceError
  | invalidHeader message => some (.internal message)
  | unsent message => some (.networkError message)
  | refused now status retryAfter body => some (runner.classify now status retryAfter body)
  | success _ _ => none

/-- Another request may be answered in another way. -/
def Passing (http : Http) (provider : ChatProvider) : HttpAnswer → Prop
  | invalidHeader _ => False
  | unsent _ => True
  | refused _ status _ body => provider.Passing http status body
  | success _ _ => False

/-- A refusal of a rate limit, with the time that is to be waited. -/
def Asks (http : Http) (provider : ChatProvider) (asked : ℕ) : HttpAnswer → Prop
  | refused now status retryAfter body =>
    provider.Limits http status body ∧ parseRetryAfter http now retryAfter = some asked
  | _ => False

/-- The wait is the one that is asked for, where that is respected, and else the backoff. -/
def Waits (http : Http) (provider : ChatProvider) (engine : RetryEngine) (attempt : ℕ) (answer : HttpAnswer)
    (after : ℕ) : Prop :=
  (engine.policy.respectRetryAfter = true ∧ answer.Asks http provider after) ∨
    ((engine.policy.respectRetryAfter = true → ∀ asked, ¬answer.Asks http provider asked) ∧
      after = computeBackoff engine.backoff attempt)

theorem execute_of_error (h : answer.error (provider.runner http d) = some e) :
    (provider.runner http d).execute batch answer = .failed e := by
  cases answer with
  | invalidHeader message => exact congrArg _ (Option.some.inj h)
  | unsent message => exact congrArg _ (Option.some.inj h)
  | refused now status retryAfter body => exact congrArg _ (Option.some.inj h)
  | success events json => cases h

/-- The errors that are retried are those of the passing answers. -/
theorem isRetryable_iff_passing (h : answer.error (provider.runner http d) = some e) :
    e.isRetryable = true ↔ answer.Passing http provider := by
  cases answer with
  | success events json => cases h
  | invalidHeader message =>
    cases h
    exact ⟨nofun,False.elim⟩
  | unsent message =>
    cases h
    exact ⟨fun _ => trivial,fun _ => rfl⟩
  | refused now status retryAfter body =>
    obtain rfl := Option.some.inj h
    obtain ⟨hlimits,kind,he⟩ | ⟨-,hpassing,he⟩ | ⟨hpassing,he⟩ :=
      provider.classify_classified http d now status retryAfter body
    · rw [he]
      exact ⟨fun _ => .inl hlimits,fun _ => rfl⟩
    · rw [he]
      exact ⟨fun _ => hpassing,fun _ => rfl⟩
    · rw [he]
      exact ⟨nofun,fun h => absurd h hpassing⟩

theorem delay_waits (hpassing : answer.Passing http provider) (h : answer.error (provider.runner http d) = some e) :
    answer.Waits http provider engine k (engine.delay k e) := by
  cases answer with
  | success events json => cases h
  | invalidHeader message => exact hpassing.elim
  | unsent message =>
    cases h
    exact .inr ⟨fun _ _ => id,rfl⟩
  | refused now status retryAfter body =>
    obtain rfl := Option.some.inj h
    obtain ⟨hlimits,kind,he⟩ | ⟨hlimits,-,he⟩ | ⟨hnot,-⟩ :=
      provider.classify_classified http d now status retryAfter body
    · rw [he]
      cases hasked : parseRetryAfter http now retryAfter with
      | none =>
        refine .inr ⟨?_,rfl⟩
        rintro - asked ⟨-,h⟩
        rw [hasked] at h
        cases h
      | some asked =>
        unfold RetryEngine.delay
        dsimp only
        split
        case isTrue hrespect => exact .inl ⟨hrespect,hlimits,hasked⟩
        case isFalse hrespect => exact .inr ⟨fun h => absurd h hrespect,rfl⟩
    · rw [he]
      exact .inr ⟨fun _ _ h => hlimits h.1,rfl⟩
    · exact absurd hpassing hnot

end HttpAnswer

/-- What the attempts meet: the breaker lets them through, and each has its answer. -/
def httpInputs (runner : ChatRunner) (batch : ExecuteBatch) (answers : ℕ → HttpAnswer) (attempt : ℕ) :
    AttemptInput :=
  ⟨.ok (),runner.execute batch (answers attempt)⟩

/-- A request without success. -/
def refusedEvents (batch : ExecuteBatch) (e : InferenceError) : List WorkerEvent :=
  [.check (.ok ()),.execute batch,.ended (.failed e)]

/-- The events from one attempt up to another, when each of the answers between is met with another request. -/
inductive Resent (http : Http) (d : Decoders) (provider : ChatProvider) (engine : RetryEngine) (batch : ExecuteBatch)
    (answers : ℕ → HttpAnswer) : ℕ → ℕ → List WorkerEvent → Prop
  | here (k : ℕ) : Resent http d provider engine batch answers k k []
  | again {k n after : ℕ} {e : InferenceError} {events : List WorkerEvent} (hidempotent : engine.idempotent = true)
    (hlt : k < engine.policy.maxRetries.toNat) (he : (answers k).error (provider.runner http d) = some e)
    (hpassing : (answers k).Passing http provider) (hwaits : (answers k).Waits http provider engine k after)
    (rest : Resent http d provider engine batch answers (k+1) n events) :
    Resent http d provider engine batch answers k n (refusedEvents batch e++.sleep after::events)

namespace Resent

theorem le (h : Resent http d provider engine batch answers k n events) : k ≤ n := by
  induction h with
  | here k => exact Nat.le_refl k
  | again _ _ _ _ _ _ ih => exact Nat.le_of_succ_le ih

/-- There are no more retries than the policy has, and none of a request that may not be repeated. -/
theorem bounded (h : Resent http d provider engine batch answers k n events) :
    n = k ∨ (n ≤ engine.policy.maxRetries.toNat ∧ engine.idempotent = true) := by
  induction h with
  | here k => exact .inl rfl
  | again hidempotent hlt _ _ _ _ ih =>
    obtain rfl | hle := ih
    · exact .inr ⟨hlt,hidempotent⟩
    · exact .inr hle

theorem passing (h : Resent http d provider engine batch answers k n events) {i : ℕ} (hk : k ≤ i) (hn : i < n) :
    (answers i).Passing http provider := by
  induction h with
  | here k => omega
  | @again k _ _ _ _ _ _ _ hpassing _ _ ih =>
    obtain rfl | hlt := Nat.eq_or_lt_of_le hk
    · exact hpassing
    · exact ih hlt hn

/-- There is one request for each of the attempts. -/
theorem count (h : Resent http d provider engine batch answers k n events) :
    k+(events.filter fun | .execute _ => true | _ => false).length = n := by
  induction h with
  | here k => rfl
  | again _ _ _ _ _ _ ih =>
    rw [← ih]
    simp [refusedEvents]
    omega

end Resent

/-- How the attempts from one on come out when those before them are over. -/
structure Left (http : Http) (d : Decoders) (provider : ChatProvider) (slot : WorkerSlot) (batch : ExecuteBatch)
    (answers : ℕ → HttpAnswer) (room : Option ℕ) (n : ℕ) (out : Outcome) : Prop where
  /-- The answer is a success, and the attempt goes on with it. -/
  success : ∀ items json, answers n = .success items json →
    out = executeWithRetries slot batch (httpInputs (provider.runner http d) batch answers) room n
  /-- The last error is the result. -/
  gaveUp : ∀ e, (answers n).error (provider.runner http d) = some e →
    out = ⟨refusedEvents batch e,room,.error e⟩ ∧
      ¬(slot.retryEngine.idempotent = true ∧ n < slot.retryEngine.policy.maxRetries.toNat ∧
        (answers n).Passing http provider)

def Outcome.behind (events : List WorkerEvent) (out : Outcome) : Outcome := { out with events := events++out.events }

/-- One attempt: it is left, or its answer is met with another request. -/
theorem attempt_cases (http : Http) (d : Decoders) (provider : ChatProvider) (slot : WorkerSlot)
    (batch : ExecuteBatch) (answers : ℕ → HttpAnswer) (room : Option ℕ) (k : ℕ) :
    Left http d provider slot batch answers room k
      (executeWithRetries slot batch (httpInputs (provider.runner http d) batch answers) room k) ∨
    ∃ e after, slot.retryEngine.idempotent = true ∧ k < slot.retryEngine.policy.maxRetries.toNat ∧
      (answers k).error (provider.runner http d) = some e ∧ (answers k).Passing http provider ∧
      (answers k).Waits http provider slot.retryEngine k after ∧
      executeWithRetries slot batch (httpInputs (provider.runner http d) batch answers) room k =
        (executeWithRetries slot batch (httpInputs (provider.runner http d) batch answers) room (k+1)).behind
          (refusedEvents batch e++[.sleep after]) := by
  cases herror : (answers k).error (provider.runner http d) with
  | none =>
    refine .inl ⟨fun _ _ _ => rfl,?_⟩
    intro e he
    rw [herror] at he
    cases he
  | some e =>
    have hexecution : (httpInputs (provider.runner http d) batch answers k).execution = .failed e :=
      HttpAnswer.execute_of_error herror
    have hrun : runExecution k room (httpInputs (provider.runner http d) batch answers k).execution =
        ⟨[],room,.failed e⟩ := by
      rw [hexecution]
      rfl
    have hhow := congrArg Forwarding.how hrun
    cases hdecide : slot.retryEngine.decide k e with
    | giveUp =>
      refine .inl ⟨fun _ _ _ => rfl,?_⟩
      intro e' he'
      obtain rfl := Option.some.inj (herror.symm.trans he')
      refine ⟨?_,?_⟩
      · rw [executeWithRetries_gaveUp rfl hhow hdecide,hrun]
        rfl
      · rintro ⟨hidempotent,hlt,hpassing⟩
        have hretry := RetryEngine.decide_eq_retry_iff.mpr
          ⟨hidempotent,hlt,(HttpAnswer.isRetryable_iff_passing herror).mpr hpassing,rfl⟩
        rw [hdecide] at hretry
        cases hretry
    | retry after =>
      obtain ⟨hidempotent,hlt,hretryable,rfl⟩ := RetryEngine.decide_eq_retry_iff.mp hdecide
      have hpassing := (HttpAnswer.isRetryable_iff_passing herror).mp hretryable
      refine .inr ⟨e,_,hidempotent,hlt,rfl,hpassing,HttpAnswer.delay_waits hpassing herror,?_⟩
      rw [executeWithRetries_retried rfl hhow hdecide,hrun]
      rfl

/-- Every run of requests without success comes to an attempt with which it is left. -/
theorem resent_from (http : Http) (d : Decoders) (provider : ChatProvider) (slot : WorkerSlot) (batch : ExecuteBatch)
    (answers : ℕ → HttpAnswer) (room : Option ℕ) (k : ℕ) :
    ∃ n events out, Resent http d provider slot.retryEngine batch answers k n events ∧
      Left http d provider slot batch answers room n out ∧
      executeWithRetries slot batch (httpInputs (provider.runner http d) batch answers) room k =
        out.behind events := by
  induction hm : slot.retryEngine.policy.maxRetries.toNat-k generalizing k with
  | zero =>
    obtain hleft | ⟨_,_,_,hlt,-⟩ := attempt_cases http d provider slot batch answers room k
    · exact ⟨k,[],_,.here k,hleft,rfl⟩
    · omega
  | succ m ih =>
    obtain hleft | ⟨e,after,hidempotent,hlt,he,hpassing,hwaits,hout⟩ :=
      attempt_cases http d provider slot batch answers room k
    · exact ⟨k,[],_,.here k,hleft,rfl⟩
    · obtain ⟨n,events,out,hresent,hleft,hrest⟩ := ih (k+1) (by omega)
      refine ⟨n,_,out,.again hidempotent hlt he hpassing hwaits hresent,hleft,?_⟩
      rw [hout,hrest]
      simp [Outcome.behind]

/-- A worker sends its request again as long as the answers are passing ones and the policy has retries, with the
waits that the answers ask for, and is left with the first success or the last error. -/
theorem attempts_law (http : Http) (d : Decoders) (provider : ChatProvider) (slot : WorkerSlot)
    (batch : ExecuteBatch) (answers : ℕ → HttpAnswer) (room : Option ℕ) :
    ∃ n events out, Resent http d provider slot.retryEngine batch answers 0 n events ∧
      (∀ i < n, (answers i).Passing http provider) ∧
      (n = 0 ∨ n ≤ slot.retryEngine.policy.maxRetries.toNat ∧ slot.retryEngine.idempotent = true) ∧
      (events.filter fun | .execute _ => true | _ => false).length = n ∧
      Left http d provider slot batch answers room n out ∧
      executeWithRetries slot batch (httpInputs (provider.runner http d) batch answers) room 0 =
        out.behind events := by
  obtain ⟨n,events,out,hresent,hleft,hout⟩ := resent_from http d provider slot batch answers room 0
  refine ⟨n,events,out,hresent,fun i hi => hresent.passing (Nat.zero_le i) hi,hresent.bounded,?_,hleft,hout⟩
  have hcount := hresent.count
  rwa [Nat.zero_add] at hcount

end RakkaInference
