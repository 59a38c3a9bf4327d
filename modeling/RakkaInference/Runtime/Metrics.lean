import Mathlib.Algebra.Ring.Nat
import Mathlib.Data.List.Induction
import Mathlib.Logic.Function.Basic
import RakkaInference.Core.Tokens

/-! The counters of each deployment. The numbers of requests are words of 64 bits, and the token
counts are words of 32 bits. -/
namespace RakkaInference

inductive FailureKind
  | rateLimited
  | circuitOpen
  | timeout
  | contentFiltered
  | other
  deriving DecidableEq

structure DeploymentMetrics where
  requestsSucceeded : UInt64 := 0
  requestsFailed : UInt64 := 0
  rateLimited : UInt64 := 0
  circuitOpen : UInt64 := 0
  timedOut : UInt64 := 0
  contentFiltered : UInt64 := 0
  usage : TokenUsage := {}
  costUsd : Float := 0

/-- The entries by deployment. -/
abbrev MetricsSnapshot := String → Option DeploymentMetrics

inductive MetricsMsg
  | recordSuccess (deployment : String) (usage : TokenUsage) (costUsd : Float)
  | recordFailure (deployment : String) (kind : FailureKind)
  | snapshot

structure MetricsActor where
  state : MetricsSnapshot := fun _ => none
  /-- What was sent in reply to the snapshot messages. -/
  replies : List MetricsSnapshot := []

namespace DeploymentMetrics

def succeed (usage : TokenUsage) (costUsd : Float) (e : DeploymentMetrics) : DeploymentMetrics :=
  { e with
    requestsSucceeded := e.requestsSucceeded+1
    usage := e.usage.add usage
    costUsd := e.costUsd+costUsd }

def fail (kind : FailureKind) (e : DeploymentMetrics) : DeploymentMetrics :=
  let e := { e with requestsFailed := e.requestsFailed+1 }
  match kind with
  | .rateLimited => { e with rateLimited := e.rateLimited+1 }
  | .circuitOpen => { e with circuitOpen := e.circuitOpen+1 }
  | .timeout => { e with timedOut := e.timedOut+1 }
  | .contentFiltered => { e with contentFiltered := e.contentFiltered+1 }
  | .other => e

/-- The counter of a kind of failure, if there is one. -/
def counter (kind : FailureKind) (e : DeploymentMetrics) : Option UInt64 :=
  match kind with
  | .rateLimited => some e.rateLimited
  | .circuitOpen => some e.circuitOpen
  | .timeout => some e.timedOut
  | .contentFiltered => some e.contentFiltered
  | .other => none

variable (e : DeploymentMetrics) (kind kind' : FailureKind)

@[simp] theorem requestsSucceeded_fail : (e.fail kind).requestsSucceeded = e.requestsSucceeded := by
  cases kind <;> rfl

@[simp] theorem requestsFailed_fail : (e.fail kind).requestsFailed = e.requestsFailed+1 := by
  cases kind <;> rfl

@[simp] theorem usage_fail : (e.fail kind).usage = e.usage := by
  cases kind <;> rfl

theorem counter_fail : (e.fail kind').counter kind =
    (e.counter kind).map fun n => if kind' = kind then n+1 else n := by
  cases kind <;> cases kind' <;> rfl

end DeploymentMetrics

namespace MetricsActor

/-- `entry(..).or_default()`. -/
def entry (s : MetricsActor) (name : String) : DeploymentMetrics := (s.state name).getD {}

/-- Change an entry in place. -/
def modify (s : MetricsActor) (name : String) (f : DeploymentMetrics → DeploymentMetrics) : MetricsActor :=
  { s with state := Function.update s.state name (some (f (s.entry name))) }

def handle (s : MetricsActor) : MetricsMsg → MetricsActor
  | .recordSuccess deployment usage costUsd => s.modify deployment (.succeed usage costUsd)
  | .recordFailure deployment kind => s.modify deployment (.fail kind)
  | .snapshot => { s with replies := s.replies++[s.state] }

def run (msgs : List MetricsMsg) : MetricsActor := msgs.foldl handle {}

theorem run_snoc (msgs : List MetricsMsg) (msg : MetricsMsg) : run (msgs++[msg]) = (run msgs).handle msg := by
  rw [run,List.foldl_append]
  rfl

end MetricsActor

namespace MetricsMsg

/-- The deployment that a message names. -/
def deployment? : MetricsMsg → Option String
  | .recordSuccess deployment _ _ | .recordFailure deployment _ => some deployment
  | .snapshot => none

/-- The usage that a message records for a deployment. -/
def usage? (name : String) : MetricsMsg → Option TokenUsage
  | .recordSuccess deployment usage _ => if deployment = name then some usage else none
  | _ => none

/-- The failure that a message records for a deployment. -/
def failure? (name : String) : MetricsMsg → Option FailureKind
  | .recordFailure deployment kind => if deployment = name then some kind else none
  | _ => none

theorem usage?_of_ne {name : String} {msg : MetricsMsg} (h : msg.deployment? ≠ some name) :
    msg.usage? name = none := by
  cases msg with
  | recordSuccess deployment usage costUsd => simpa [usage?,deployment?] using h
  | _ => rfl

theorem failure?_of_ne {name : String} {msg : MetricsMsg} (h : msg.deployment? ≠ some name) :
    msg.failure? name = none := by
  cases msg with
  | recordFailure deployment kind => simpa [failure?,deployment?] using h
  | _ => rfl

end MetricsMsg

/-- The usages that were recorded for a deployment. -/
def usagesOf (msgs : List MetricsMsg) (name : String) : List TokenUsage :=
  msgs.filterMap (MetricsMsg.usage? name)

/-- The failures that were recorded for a deployment. -/
def failuresOf (msgs : List MetricsMsg) (name : String) : List FailureKind :=
  msgs.filterMap (MetricsMsg.failure? name)

def Named (msgs : List MetricsMsg) (name : String) : Prop := ∃ msg ∈ msgs, msg.deployment? = some name

/-- The four token counts of a usage. -/
def tokenCounts : List (TokenUsage → UInt32) :=
  [TokenUsage.inputTokens,TokenUsage.outputTokens,TokenUsage.reasoningTokens,TokenUsage.cachedTokens]

/-- The exact sum of a token count. -/
def exactSum (count : TokenUsage → UInt32) (us : List TokenUsage) : ℕ := (us.map fun u => (count u).toNat).sum

/-- An entry has the totals of the messages for its deployment. -/
structure Totals (msgs : List MetricsMsg) (name : String) (e : DeploymentMetrics) : Prop where
  succeeded : e.requestsSucceeded.toNat = (usagesOf msgs name).length
  failed : e.requestsFailed.toNat = (failuresOf msgs name).length
  kinds : ∀ kind, ∀ n ∈ e.counter kind, n.toNat = (failuresOf msgs name).count kind
  tokens : ∀ count ∈ tokenCounts, (count e.usage).toNat = exactSum count (usagesOf msgs name)

/-- A snapshot has the entries of the deployments that were named, with their totals. -/
def SnapshotLaw (msgs : List MetricsMsg) (snap : MetricsSnapshot) : Prop :=
  ∀ name, (Named msgs name → ∃ e, snap name = some e ∧ Totals msgs name e) ∧
    (¬ Named msgs name → snap name = none)

/-- The words of an entry after some usages and failures. -/
structure Booked (us : List TokenUsage) (fs : List FailureKind) (e : DeploymentMetrics) : Prop where
  succeeded : e.requestsSucceeded = .ofNat us.length
  failed : e.requestsFailed = .ofNat fs.length
  kinds : ∀ kind, ∀ n ∈ e.counter kind, n = .ofNat (fs.count kind)
  usage : e.usage = us.sum

namespace Booked
variable {us : List TokenUsage} {fs : List FailureKind} {e : DeploymentMetrics}

theorem nil : Booked [] [] {} := by
  refine ⟨rfl,rfl,?_,rfl⟩
  intro kind n hn
  cases kind <;> cases hn <;> rfl

theorem succeed (h : Booked us fs e) (usage : TokenUsage) (costUsd : Float) :
    Booked (us++[usage]) fs (e.succeed usage costUsd) := by
  refine ⟨?_,h.failed,?_,?_⟩
  · rw [List.length_append,UInt64.ofNat_add,← h.succeeded]
    rfl
  · intro kind n hn
    apply h.kinds kind n
    cases kind <;> exact hn
  · rw [List.sum_append,← h.usage,List.sum_singleton]
    rfl

theorem fail (h : Booked us fs e) (kind : FailureKind) : Booked us (fs++[kind]) (e.fail kind) := by
  refine ⟨?_,?_,?_,?_⟩
  · rw [DeploymentMetrics.requestsSucceeded_fail,h.succeeded]
  · rw [DeploymentMetrics.requestsFailed_fail,List.length_append,UInt64.ofNat_add,← h.failed]
    rfl
  · intro kind' n hn
    rw [DeploymentMetrics.counter_fail] at hn
    obtain ⟨m,hm,rfl⟩ := Option.map_eq_some_iff.1 hn
    rw [List.count_append,h.kinds kind' m hm,UInt64.ofNat_add]
    by_cases heq : kind = kind'
    · rw [if_pos heq,heq,List.count_singleton_self]
      rfl
    · have hzero : List.count kind' [kind] = 0 := List.count_eq_zero_of_not_mem (by simpa [eq_comm] using heq)
      rw [if_neg heq,hzero]
      simp
  · rw [DeploymentMetrics.usage_fail,h.usage]

end Booked

namespace MetricsActor
variable {msgs : List MetricsMsg} {name : String} {s : MetricsActor} {msg : MetricsMsg}

/-- A message for another deployment leaves an entry as it is. -/
theorem handle_frame (h : msg.deployment? ≠ some name) : (s.handle msg).state name = s.state name := by
  cases msg with
  | snapshot => rfl
  | _ =>
    refine Function.update_of_ne ?_ _ _
    rintro rfl
    exact h rfl

theorem usagesOf_snoc : usagesOf (msgs++[msg]) name = usagesOf msgs name++(msg.usage? name).toList := by
  rw [usagesOf,List.filterMap_append]
  cases h : msg.usage? name <;> simp [usagesOf,h]

theorem failuresOf_snoc :
    failuresOf (msgs++[msg]) name = failuresOf msgs name++(msg.failure? name).toList := by
  rw [failuresOf,List.filterMap_append]
  cases h : msg.failure? name <;> simp [failuresOf,h]

theorem named_snoc_iff : Named (msgs++[msg]) name ↔ Named msgs name ∨ msg.deployment? = some name := by
  simp [Named,or_and_right,exists_or]

/-- The books of a deployment: its entry, or no entry when it was never named. -/
structure Kept (msgs : List MetricsMsg) (name : String) (s : MetricsActor) : Prop where
  booked : Booked (usagesOf msgs name) (failuresOf msgs name) (s.entry name)
  named : (s.state name).isSome ↔ Named msgs name

theorem Kept.handle (h : Kept msgs name s) (msg : MetricsMsg) : Kept (msgs++[msg]) name (s.handle msg) := by
  by_cases hname : msg.deployment? = some name
  · refine ⟨?_,?_⟩
    · rw [usagesOf_snoc,failuresOf_snoc]
      cases msg with
      | recordSuccess deployment usage costUsd =>
        obtain rfl : deployment = name := Option.some.inj hname
        simpa [MetricsMsg.usage?,MetricsMsg.failure?,MetricsActor.handle,modify,entry] using
          h.booked.succeed usage costUsd
      | recordFailure deployment kind =>
        obtain rfl : deployment = name := Option.some.inj hname
        simpa [MetricsMsg.usage?,MetricsMsg.failure?,MetricsActor.handle,modify,entry] using
          h.booked.fail kind
      | snapshot => exact nomatch hname
    · rw [named_snoc_iff]
      refine iff_of_true ?_ (.inr hname)
      cases msg with
      | snapshot => exact nomatch hname
      | _ =>
        obtain rfl := Option.some.inj hname
        simp [MetricsActor.handle,modify]
  · refine ⟨?_,?_⟩
    · rw [usagesOf_snoc,failuresOf_snoc,MetricsMsg.usage?_of_ne hname,MetricsMsg.failure?_of_ne hname,entry,
        handle_frame hname]
      simpa [entry] using h.booked
    · rw [named_snoc_iff,handle_frame hname,h.named]
      simp [hname]

theorem kept_run (msgs : List MetricsMsg) (name : String) : Kept msgs name (run msgs) := by
  induction msgs using List.reverseRecOn with
  | nil => exact ⟨Booked.nil,by simp [run,Named]⟩
  | append_singleton msgs msg ih =>
    rw [run_snoc]
    exact ih.handle msg

/-- A count of a sum wraps around. -/
theorem toNat_sum {count : TokenUsage → UInt32} (hzero : count 0 = 0)
    (hadd : ∀ u v, count (u+v) = count u+count v) (us : List TokenUsage) :
    (count us.sum).toNat = exactSum count us % 2^32 := by
  induction us with
  | nil => simp [exactSum,hzero]
  | cons u us ih =>
    rw [List.sum_cons,hadd,UInt32.toNat_add,ih]
    simp [exactSum]

theorem toNat_sum_of_mem {count : TokenUsage → UInt32} (h : count ∈ tokenCounts) (us : List TokenUsage) :
    (count us.sum).toNat = exactSum count us % 2^32 := by
  simp only [tokenCounts,List.mem_cons,List.not_mem_nil,or_false] at h
  obtain rfl | rfl | rfl | rfl := h <;> exact toNat_sum rfl (fun _ _ => rfl) us

/-- The entry of a deployment has its totals when the token counts stay in their words. -/
theorem totals_of_booked {e : DeploymentMetrics} (hlen : msgs.length < 2^64)
    (h : Booked (usagesOf msgs name) (failuresOf msgs name) e)
    (hsmall : ∀ count ∈ tokenCounts, exactSum count (usagesOf msgs name) < 2^32) : Totals msgs name e := by
  have husages : (usagesOf msgs name).length < 2^64 := (List.length_filterMap_le ..).trans_lt hlen
  have hfailures : (failuresOf msgs name).length < 2^64 := (List.length_filterMap_le ..).trans_lt hlen
  refine ⟨?_,?_,?_,?_⟩
  · rw [h.succeeded]
    exact UInt64.toNat_ofNat_of_lt' husages
  · rw [h.failed]
    exact UInt64.toNat_ofNat_of_lt' hfailures
  · intro kind n hn
    rw [h.kinds kind n hn]
    exact UInt64.toNat_ofNat_of_lt' (List.count_le_length.trans_lt hfailures)
  · intro count hcount
    rw [h.usage,toNat_sum_of_mem hcount,Nat.mod_eq_of_lt (hsmall count hcount)]

/-- A snapshot taken after the messages is right, and on the way no message changed the entry of a
deployment that it does not name. -/
structure Law (msgs : List MetricsMsg) : Prop where
  snapshot : ∃ snap, (run (msgs++[.snapshot])).replies = (run msgs).replies++[snap] ∧ SnapshotLaw msgs snap
  frame : ∀ before msg after, msgs = before++msg::after → ∀ name, msg.deployment? ≠ some name →
    (run (before++[msg])).state name = (run before).state name

/-- The metrics are right when each of the four token counts of every deployment sums up to less
than a word. -/
theorem metrics_totals_iff (msgs : List MetricsMsg) (hlen : msgs.length < 2^64) :
    Law msgs ↔ ∀ name, ∀ count ∈ tokenCounts, exactSum count (usagesOf msgs name) < 2^32 := by
  have hreply : (run (msgs++[.snapshot])).replies = (run msgs).replies++[(run msgs).state] := by
    rw [run_snoc]
    rfl
  refine ⟨?_,?_⟩
  · rintro ⟨⟨snap,-,hlaw⟩,-⟩ name count hcount
    by_cases hname : Named msgs name
    · obtain ⟨e,-,htotals⟩ := (hlaw name).1 hname
      rw [← htotals.tokens count hcount]
      exact UInt32.toNat_lt _
    · have hnone : usagesOf msgs name = [] := by
        rw [usagesOf,List.filterMap_eq_nil_iff]
        exact fun msg hmsg => MetricsMsg.usage?_of_ne fun heq => hname ⟨msg,hmsg,heq⟩
      simp [hnone,exactSum]
  · intro hsmall
    refine ⟨⟨_,hreply,?_⟩,?_⟩
    · intro name
      have hkept := kept_run msgs name
      refine ⟨?_,?_⟩
      · intro hname
        obtain ⟨e,he⟩ := Option.isSome_iff_exists.1 (hkept.named.2 hname)
        have hbooked := hkept.booked
        rw [entry,he] at hbooked
        exact ⟨e,he,totals_of_booked hlen hbooked (hsmall name)⟩
      · intro hname
        rw [← hkept.named,Option.not_isSome_iff_eq_none] at hname
        exact hname
    · rintro before msg after - name hname
      rw [run_snoc]
      exact handle_frame hname

theorem metrics_totals_small :
    Law [.recordSuccess "a" ⟨5,2,0,1⟩ 0,.recordFailure "b" .timeout,.recordSuccess "a" ⟨7,3,0,0⟩ 0] := by
  refine (metrics_totals_iff [.recordSuccess "a" ⟨5,2,0,1⟩ 0,.recordFailure "b" .timeout,
    .recordSuccess "a" ⟨7,3,0,0⟩ 0] (by decide)).2 ?_
  intro name count hcount
  by_cases hname : "a" = name
  · subst hname
    revert count
    decide +kernel
  · simp [usagesOf,List.filterMap_cons,MetricsMsg.usage?,hname,exactSum]

/-- Two usages of half a word come to nothing. -/
theorem metrics_totals_wrap :
    let msgs : List MetricsMsg :=
      [.recordSuccess "a" { outputTokens := 2147483648 } 0,.recordSuccess "a" { outputTokens := 2147483648 } 0]
    msgs.length < 2^64 ∧ exactSum TokenUsage.outputTokens (usagesOf msgs "a") = 2^32 ∧
      ((run msgs).state "a").map (fun e => e.usage.outputTokens) = some 0 ∧ ¬ Law msgs := by
  refine ⟨by decide,by decide +kernel,by decide +kernel,?_⟩
  rintro ⟨⟨snap,-,hlaw⟩,-⟩
  obtain ⟨e,-,htotals⟩ := (hlaw "a").1 ⟨_,List.mem_cons_self,rfl⟩
  have hwords := htotals.tokens TokenUsage.outputTokens (by simp [tokenCounts])
  have hexact : exactSum TokenUsage.outputTokens (usagesOf [.recordSuccess "a" { outputTokens := 2147483648 } 0,
      .recordSuccess "a" { outputTokens := 2147483648 } 0] "a") = 2^32 := by decide +kernel
  exact absurd (UInt32.toNat_lt e.usage.outputTokens) (by rw [hwords,hexact]; decide)

end MetricsActor
end RakkaInference
