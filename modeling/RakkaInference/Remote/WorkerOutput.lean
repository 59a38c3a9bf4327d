import Mathlib.Algebra.BigOperators.Intervals
import Mathlib.Algebra.Order.BigOperators.Group.Finset
import RakkaInference.Remote.WorkerTrace

/-! What the caller of a dispatch receives. Chunks are forwarded as they arrive, so an
attempt that fails in the middle of its stream has already put its chunks on the output
when it is retried. -/
namespace RakkaInference
open WorkerEvent

/-- The chunks of a stream up to its first error. -/
def okPrefix : List (Except InferenceError TokenChunk) → List TokenChunk
  | .ok chunk::items => chunk::okPrefix items
  | _ => []

def firstError : List (Except InferenceError TokenChunk) → Option InferenceError
  | [] => none
  | .ok _::items => firstError items
  | .error err::_ => some err

namespace Execution

/-- The chunks that the attempt produces. -/
def chunks : Execution → List TokenChunk
  | .failed _ => []
  | .streaming items => okPrefix items

def failure : Execution → Option InferenceError
  | .failed err => some err
  | .streaming items => firstError items

end Execution

/-- The chunks that reached the caller, each with the attempt that it came from. -/
def WorkerEvent.delivered? : WorkerEvent → Option (ℕ × TokenChunk)
  | .send attempt chunk true => some (attempt,chunk)
  | _ => none

def received (trace : List WorkerEvent) : List (ℕ × TokenChunk) := trace.filterMap delivered?

/-- All that the caller receives comes from one attempt, and is a prefix of what that
attempt produced. -/
def FromOneAttempt (slot : WorkerSlot) (job : Job) : Prop :=
  ∃ k, (received (dispatch slot job)).map Prod.snd <+: (job.inputs k).execution.chunks ∧
    ∀ p ∈ received (dispatch slot job), p.1 = k

/-- What the receiver takes of a list. -/
def takeRoom {α : Type*} : Option ℕ → List α → List α
  | none,l => l
  | some r,l => l.take r

/-- The receiver takes this many messages. -/
def Fits (room : Option ℕ) (n : ℕ) : Prop := ∀ r, room = some r → n ≤ r

theorem takeRoom_of_fits {α : Type*} {room : Option ℕ} {l : List α} (h : Fits room l.length) :
    takeRoom room l = l := by
  cases room with
  | none => rfl
  | some r => exact List.take_of_length_le (h r rfl)

theorem takeRoom_prefix {α : Type*} (room : Option ℕ) (l : List α) : takeRoom room l <+: l := by
  cases room with
  | none => exact List.prefix_rfl
  | some r => exact List.take_prefix r l

theorem takeRoom_ne_nil_iff {α : Type*} {room : Option ℕ} {l : List α} :
    takeRoom room l ≠ [] ↔ l ≠ [] ∧ Fits room 1 := by
  cases room with
  | none => simp [takeRoom,Fits]
  | some r =>
    simp only [takeRoom,Fits,ne_eq,List.take_eq_nil_iff,not_or,Option.some.injEq,forall_eq',
      Nat.one_le_iff_ne_zero]
    exact and_comm

/-- Everything that forwarding a stream does: it delivers what the receiver takes, and
unless the receiver is gone by then it ends as the stream does. -/
theorem forward_spec (attempt : ℕ) (items : List (Except InferenceError TokenChunk)) (room : Option ℕ) :
    received (forward attempt room items).events =
      (takeRoom room (okPrefix items)).map (Prod.mk attempt) ∧
    (Fits room (okPrefix items).length →
      (forward attempt room items).room = room.map (·-(okPrefix items).length) ∧
      (forward attempt room items).how =
        match firstError items with
        | none => .completed
        | some err => .failed err) ∧
    (¬ Fits room (okPrefix items).length → (forward attempt room items).how = .cancelled) := by
  induction items generalizing room with
  | nil => cases room <;> simp [forward,received,okPrefix,takeRoom,firstError,Fits]
  | cons item items ih =>
    cases item with
    | error err => cases room <;> simp [forward,received,okPrefix,takeRoom,firstError,Fits]
    | ok chunk =>
      cases room with
      | none =>
        obtain ⟨h1,h2,h3⟩ := ih none
        simp only [forward,received,okPrefix,takeRoom,firstError,Option.map_none] at *
        refine ⟨by simp [delivered?,h1],fun _ => h2 (by simp [Fits]),fun h => ?_⟩
        exact absurd (by simp [Fits]) h
      | some r =>
        cases r with
        | zero => simp [forward,received,okPrefix,takeRoom,Fits,delivered?,List.filterMap_cons]
        | succ r =>
          obtain ⟨h1,h2,h3⟩ := ih (some r)
          simp only [forward,received,okPrefix,takeRoom,firstError,Option.map_some,Nat.pred_succ,
            List.length_cons,Fits,Option.some.injEq,forall_eq',List.take_succ_cons] at *
          refine ⟨by simp [delivered?,h1],fun h => ?_,fun h => h3 (by omega)⟩
          obtain ⟨h4,h5⟩ := h2 (by omega)
          exact ⟨by rw [h4]; congr 1; omega,h5⟩

theorem runExecution_spec (attempt : ℕ) (room : Option ℕ) (x : Execution) :
    received (runExecution attempt room x).events =
      (takeRoom room x.chunks).map (Prod.mk attempt) ∧
    (Fits room x.chunks.length →
      (runExecution attempt room x).room = room.map (·-x.chunks.length) ∧
      (runExecution attempt room x).how =
        match x.failure with
        | none => .completed
        | some err => .failed err) ∧
    (¬ Fits room x.chunks.length → (runExecution attempt room x).how = .cancelled) := by
  cases x with
  | failed err =>
    cases room <;> simp [runExecution,received,Execution.chunks,Execution.failure,takeRoom,Fits]
  | streaming items => exact forward_spec attempt items room

/-- An attempt that ends in a failure has delivered all its chunks. -/
theorem fits_of_failed {attempt : ℕ} {room : Option ℕ} {x : Execution} {err : InferenceError}
    (h : (runExecution attempt room x).how = .failed err) :
    Fits room x.chunks.length ∧ x.failure = some err := by
  obtain ⟨-,hfit,hgone⟩ := runExecution_spec attempt room x
  by_cases hf : Fits room x.chunks.length
  · refine ⟨hf,?_⟩
    have hhow := (hfit hf).2
    rw [h] at hhow
    cases hx : x.failure with
    | none => simp [hx] at hhow
    | some e =>
      simp only [hx,AttemptEnd.failed.injEq] at hhow
      rw [hhow]
  · rw [hgone hf] at h
    contradiction

section Attempts
variable {engine : RetryEngine} {inputs : ℕ → AttemptInput} {k j : ℕ} {room : Option ℕ}

/-- The attempt passes its check, fails, and is retried. -/
def Retried (engine : RetryEngine) (inputs : ℕ → AttemptInput) (l : ℕ) : Prop :=
  (inputs l).check = .ok () ∧
    ∃ err after, (inputs l).execution.failure = some err ∧ engine.decide l err = .retry after

/-- Attempt `j` is made, from attempt `k` on and if the receiver stays. -/
def Reached (engine : RetryEngine) (inputs : ℕ → AttemptInput) (k j : ℕ) : Prop :=
  k ≤ j ∧ (∀ l, k ≤ l → l < j → Retried engine inputs l) ∧ (inputs j).check = .ok ()

/-- The chunks that the attempts from `k` to before `j` produce. -/
def produced (inputs : ℕ → AttemptInput) (k j : ℕ) : ℕ :=
  ∑ l ∈ Finset.Ico k j,(inputs l).execution.chunks.length

theorem reached_self_iff : Reached engine inputs k k ↔ (inputs k).check = .ok () := by
  constructor
  · exact fun h => h.2.2
  · exact fun h => ⟨le_rfl,fun l h1 h2 => by omega,h⟩

theorem reached_iff_of_ne (hj : j ≠ k) :
    Reached engine inputs k j ↔ Retried engine inputs k ∧ Reached engine inputs (k+1) j := by
  constructor
  · rintro ⟨hle,hall,hc⟩
    exact ⟨hall k le_rfl (by omega),by omega,fun l h1 h2 => hall l (by omega) h2,hc⟩
  · rintro ⟨hk,hle,hall,hc⟩
    refine ⟨by omega,fun l h1 h2 => ?_,hc⟩
    by_cases hl : l = k
    · exact hl ▸ hk
    · exact hall l (by omega) h2

/-- The chunks of one attempt among those received. -/
def ofAttempt (j : ℕ) (out : List (ℕ × TokenChunk)) : List TokenChunk :=
  (out.filter fun p => p.1 = j).map Prod.snd

theorem ofAttempt_append (j : ℕ) (out out' : List (ℕ × TokenChunk)) :
    ofAttempt j (out++out') = ofAttempt j out++ofAttempt j out' := by
  simp [ofAttempt]

theorem ofAttempt_tagged (l : List TokenChunk) :
    ofAttempt j (l.map (Prod.mk k)) = if j = k then l else [] := by
  have hcongr : (fun _ : TokenChunk => decide (k = j)) = fun _ => decide (j = k) := by
    funext _
    exact decide_eq_decide.mpr eq_comm
  rw [ofAttempt,List.filter_map,Function.comp_def,hcongr]
  by_cases h : j = k
  · simp [h,Function.comp_def]
  · simp [h]

theorem received_attemptEvents (batch : ExecuteBatch) (f : Forwarding) :
    received (attemptEvents batch f) = received f.events := by
  simp [received,attemptEvents,delivered?,List.filterMap_cons]

theorem produced_of_ne (hj : j ≠ k) (hle : k ≤ j) :
    produced inputs k j = (inputs k).execution.chunks.length+produced inputs (k+1) j :=
  Finset.sum_eq_sum_Ico_succ_bot (by omega) _

/-- A receiver that is gone before `k` is over takes nothing afterwards. -/
theorem takeRoom_eq_nil_of_not_fits (hf : ¬ Fits room (inputs k).execution.chunks.length)
    (hj : j ≠ k) (hle : k ≤ j) (l : List TokenChunk) :
    takeRoom (room.map (·-produced inputs k j)) l = [] := by
  rw [produced_of_ne hj hle]
  cases room with
  | none => exact absurd (by simp [Fits]) hf
  | some r =>
    simp only [Fits,Option.some.injEq,forall_eq',not_le] at hf
    simp only [Option.map_some,takeRoom,List.take_eq_nil_iff]
    omega

/-- What is delivered when no attempt comes after `k`. -/
theorem ofAttempt_last (batch : ExecuteBatch) (hc : (inputs k).check = .ok ())
    (hlast : ∀ j, j ≠ k → Reached engine inputs k j → ¬ Fits room (inputs k).execution.chunks.length) :
    ∀ j, (Reached engine inputs k j →
      ofAttempt j (received (attemptEvents batch (runExecution k room (inputs k).execution))) =
        takeRoom (room.map (·-produced inputs k j)) (inputs j).execution.chunks) ∧
    (¬ Reached engine inputs k j →
      ofAttempt j (received (attemptEvents batch (runExecution k room (inputs k).execution))) = []) := by
  intro j
  rw [received_attemptEvents,(runExecution_spec k room (inputs k).execution).1,ofAttempt_tagged]
  by_cases hj : j = k
  · subst hj
    rw [if_pos rfl]
    refine ⟨fun _ => ?_,fun hr => absurd (reached_self_iff.mpr hc) hr⟩
    simp [produced]
  · rw [if_neg hj]
    refine ⟨fun hr => ?_,fun _ => rfl⟩
    exact (takeRoom_eq_nil_of_not_fits (hlast j hj hr) hj hr.1 _).symm

/-- What attempt `j` delivers: what is left of the receiver's room after the attempts
before it, or nothing where it is not made. -/
theorem ofAttempt_received (slot : WorkerSlot) (batch : ExecuteBatch) (inputs : ℕ → AttemptInput)
    (room : Option ℕ) (k : ℕ) : ∀ j,
    (Reached slot.retryEngine inputs k j →
      ofAttempt j (received (executeWithRetries slot batch inputs room k).events) =
        takeRoom (room.map (·-produced inputs k j)) (inputs j).execution.chunks) ∧
    (¬ Reached slot.retryEngine inputs k j →
      ofAttempt j (received (executeWithRetries slot batch inputs room k).events) = []) := by
  induction room,k using executeWithRetries_induction slot inputs with
  | refused room k err hc =>
    intro j
    rw [executeWithRetries_refused hc]
    refine ⟨fun hr => ?_,fun _ => rfl⟩
    have hk : (inputs k).check = .ok () := by
      by_cases hj : j = k
      · exact hj ▸ hr.2.2
      · exact ((reached_iff_of_ne hj).mp hr).1.1
    rw [hc] at hk
    contradiction
  | finished room k hc hf =>
    rw [executeWithRetries_finished hc hf]
    refine ofAttempt_last batch hc fun j hj hr hfit => ?_
    obtain ⟨-,err,after,hfail,-⟩ := ((reached_iff_of_ne hj).mp hr).1
    have hhow := ((runExecution_spec k room (inputs k).execution).2.1 hfit).2
    rw [hfail] at hhow
    exact hf err hhow
  | gaveUp room k err hc hf hd =>
    rw [executeWithRetries_gaveUp hc hf hd]
    refine ofAttempt_last batch hc fun j hj hr _ => ?_
    obtain ⟨-,e,after,hfail,hretry⟩ := ((reached_iff_of_ne hj).mp hr).1
    cases hfail.symm.trans (fits_of_failed hf).2
    rw [hd] at hretry
    contradiction
  | retried room k err after hc hf hd ih =>
    intro j
    obtain ⟨hfit,hfail⟩ := fits_of_failed hf
    obtain ⟨hrec,hroom,-⟩ := runExecution_spec k room (inputs k).execution
    rw [(hroom hfit).1] at ih
    have hevents : received (executeWithRetries slot batch inputs room k).events =
        (inputs k).execution.chunks.map (Prod.mk k)++
          received (executeWithRetries slot batch inputs
            (room.map (·-(inputs k).execution.chunks.length)) (k+1)).events := by
      rw [executeWithRetries_retried hc hf hd,(hroom hfit).1]
      simp only [received,List.filterMap_append,List.filterMap_cons,delivered?]
      rw [← received,received_attemptEvents,hrec,takeRoom_of_fits hfit]
    rw [hevents,ofAttempt_append,ofAttempt_tagged]
    by_cases hj : j = k
    · subst hj
      have hnot : ¬ Reached slot.retryEngine inputs (j+1) j := fun h => by have := h.1; omega
      rw [if_pos rfl,(ih j).2 hnot,List.append_nil]
      refine ⟨fun _ => ?_,fun hr => absurd (reached_self_iff.mpr hc) hr⟩
      simp [produced,takeRoom_of_fits hfit]
    · rw [if_neg hj,List.nil_append]
      refine ⟨fun hr => ?_,fun hr => (ih j).2 fun h => hr ?_⟩
      · rw [(ih j).1 ((reached_iff_of_ne hj).mp hr).2,produced_of_ne hj hr.1]
        simp only [Option.map_map,Function.comp_def,Nat.sub_sub]
      · exact (reached_iff_of_ne hj).mpr ⟨⟨hc,err,after,hfail,hd⟩,h⟩

theorem received_dispatch (slot : WorkerSlot) (job : Job) : received (dispatch slot job) =
    received (executeWithRetries slot job.request.batch job.inputs job.room 0).events := by
  have hclose : ∀ out, received (closing out) = [] := by
    intro out
    unfold closing
    cases out.result <;> rfl
  rw [dispatch,received,List.filterMap_append]
  change _++received (closing _) = _
  rw [hclose,List.append_nil]
  rfl

theorem ofAttempt_ne_nil_iff {out : List (ℕ × TokenChunk)} :
    ofAttempt j out ≠ [] ↔ ∃ p ∈ out, p.1 = j := by
  simp [ofAttempt,List.filter_eq_nil_iff]

/-- Which attempts deliver something, by what they meet. -/
theorem exists_received_iff (slot : WorkerSlot) (job : Job) :
    (∃ p ∈ received (dispatch slot job), p.1 = j) ↔
      Reached slot.retryEngine job.inputs 0 j ∧ (job.inputs j).execution.chunks ≠ [] ∧
        Fits job.room (produced job.inputs 0 j+1) := by
  have hfit : Fits (job.room.map (·-produced job.inputs 0 j)) 1 ↔
      Fits job.room (produced job.inputs 0 j+1) := by
    cases job.room with
    | none => simp [Fits]
    | some r =>
      simp only [Fits,Option.map_some,Option.some.injEq,forall_eq']
      omega
  obtain ⟨hmade,hnot⟩ := ofAttempt_received slot job.request.batch job.inputs job.room 0 j
  rw [← ofAttempt_ne_nil_iff,received_dispatch]
  by_cases hr : Reached slot.retryEngine job.inputs 0 j
  · rw [hmade hr,takeRoom_ne_nil_iff,hfit]
    exact (and_iff_right hr).symm
  · rw [hnot hr]
    exact iff_of_false (by simp) fun h => hr h.1

/-- Attempt `i` produces a chunk and is retried, and later attempt `j` produces a chunk for
a receiver that is still there. -/
structure Mixes (engine : RetryEngine) (job : Job) (i j : ℕ) : Prop where
  lt : i < j
  early : (job.inputs i).execution.chunks ≠ []
  retried : ∀ l < j, Retried engine job.inputs l
  passes : (job.inputs j).check = .ok ()
  late : (job.inputs j).execution.chunks ≠ []
  room : Fits job.room (produced job.inputs 0 j+1)

theorem mixes_iff (slot : WorkerSlot) (job : Job) {i j : ℕ} :
    Mixes slot.retryEngine job i j ↔ i < j ∧ (∃ p ∈ received (dispatch slot job), p.1 = i) ∧
      ∃ p ∈ received (dispatch slot job), p.1 = j := by
  rw [exists_received_iff,exists_received_iff]
  constructor
  · rintro ⟨hlt,hearly,hret,hpass,hlate,hroom⟩
    have hmono : produced job.inputs 0 i ≤ produced job.inputs 0 j :=
      Finset.sum_le_sum_of_subset (Finset.Ico_subset_Ico_right hlt.le)
    refine ⟨hlt,⟨⟨Nat.zero_le _,fun l _ hl => hret l (by omega),(hret i hlt).1⟩,hearly,fun r hr => ?_⟩,
      ⟨Nat.zero_le _,fun l _ hl => hret l hl,hpass⟩,hlate,hroom⟩
    have := hroom r hr
    omega
  · rintro ⟨hlt,⟨-,hearly,-⟩,⟨⟨-,hret,hpass⟩,hlate,hroom⟩⟩
    exact ⟨hlt,hearly,fun l hl => hret l (Nat.zero_le _) hl,hpass,hlate,hroom⟩

/-- The caller receives a prefix of what one attempt produced exactly when no attempt that
has produced a chunk is retried into another one that does. -/
theorem fromOneAttempt_iff (slot : WorkerSlot) (job : Job) :
    FromOneAttempt slot job ↔ ∀ i j, ¬ Mixes slot.retryEngine job i j := by
  constructor
  · rintro ⟨k,-,hall⟩ i j hmix
    obtain ⟨hlt,⟨p,hp,rfl⟩,q,hq,rfl⟩ := (mixes_iff slot job).mp hmix
    rw [hall p hp,hall q hq] at hlt
    omega
  · intro h
    cases hout : received (dispatch slot job) with
    | nil => exact ⟨0,by simp [hout],by simp [hout]⟩
    | cons p rest =>
      have hsame : ∀ q ∈ received (dispatch slot job), q.1 = p.1 := by
        intro q hq
        have hp : p ∈ received (dispatch slot job) := by simp [hout]
        rcases Nat.lt_trichotomy q.1 p.1 with hlt | heq | hlt
        · exact absurd ((mixes_iff slot job).mpr ⟨hlt,⟨q,hq,rfl⟩,p,hp,rfl⟩) (h _ _)
        · exact heq
        · exact absurd ((mixes_iff slot job).mpr ⟨hlt,⟨p,hp,rfl⟩,q,hq,rfl⟩) (h _ _)
      refine ⟨p.1,?_,hsame⟩
      have hof : (received (dispatch slot job)).map Prod.snd =
          ofAttempt p.1 (received (dispatch slot job)) := by
        rw [ofAttempt,List.filter_eq_self.mpr fun q hq => by simp [hsame q hq]]
      obtain ⟨hmade,hnot⟩ := ofAttempt_received slot job.request.batch job.inputs job.room 0 p.1
      rw [hof,received_dispatch]
      by_cases hr : Reached slot.retryEngine job.inputs 0 p.1
      · rw [hmade hr]
        exact takeRoom_prefix _ _
      · rw [hnot hr]
        exact List.nil_prefix

/-- The first attempt yields one chunk and then a server error, the second one chunk. -/
def brokenThenWhole : Job where
  request := ⟨.normal,0,⟨"r","m",[],{},true,1⟩,0⟩
  inputs := fun
    | 0 => ⟨.ok (),.streaming [.ok ⟨"r","a",none,none,none⟩,.error (.serverError 503 none)]⟩
    | _ => ⟨.ok (),.streaming [.ok ⟨"r","b",none,none,none⟩]⟩
  room := none

/-- With the default policy the caller receives the partial text of the failed attempt
followed by the text of the retry. -/
theorem fromOneAttempt_fails_midstream :
    received (dispatch ⟨{},.new {} true⟩ brokenThenWhole) =
      [(0,⟨"r","a",none,none,none⟩),(1,⟨"r","b",none,none,none⟩)] ∧
    (∀ k, ¬ (received (dispatch ⟨{},.new {} true⟩ brokenThenWhole)).map Prod.snd <+:
      (brokenThenWhole.inputs k).execution.chunks) ∧
    ¬ FromOneAttempt ⟨{},.new {} true⟩ brokenThenWhole := by
  have hc : ∀ k, (brokenThenWhole.inputs k).check = .ok () := fun k => by cases k <;> rfl
  have hf : (runExecution 0 brokenThenWhole.room (brokenThenWhole.inputs 0).execution).how =
      .failed (.serverError 503 none) := rfl
  have hd : ∃ after, (RetryEngine.new {} true).decide 0 (.serverError 503 none) = .retry after := ⟨_,rfl⟩
  obtain ⟨after,hd⟩ := hd
  have hout : received (dispatch ⟨{},.new {} true⟩ brokenThenWhole) =
      [(0,⟨"r","a",none,none,none⟩),(1,⟨"r","b",none,none,none⟩)] := by
    rw [dispatch,executeWithRetries_retried (hc 0) hf hd,
      executeWithRetries_finished (hc 1) (by simp [runExecution,brokenThenWhole,forward])]
    rfl
  have hlen : ∀ k, ¬ (received (dispatch ⟨{},.new {} true⟩ brokenThenWhole)).map Prod.snd <+:
      (brokenThenWhole.inputs k).execution.chunks := by
    intro k hpre
    have hle := hpre.length_le
    rw [hout] at hle
    cases k <;> simp [brokenThenWhole,Execution.chunks,okPrefix] at hle
  refine ⟨hout,hlen,?_⟩
  intro hattempt
  obtain ⟨k,hpre,-⟩ := hattempt
  exact hlen k hpre

end Attempts
end RakkaInference
