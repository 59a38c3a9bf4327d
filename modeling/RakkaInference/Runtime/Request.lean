import Mathlib.Data.List.Induction
import RakkaInference.Core.Tokens
import RakkaInference.Machine.Endings

/-! The actor of one request. It forwards the chunks of the engine to the gateway, puts them
together, and stops with the first chunk that is terminal. -/
namespace RakkaInference
open Machine

/-- What the coordinator says when it is asked for a route. The route itself is not used. -/
inductive RouteAnswer
  | routed
  | refused (e : InferenceError)
  | timeout

inductive RequestMsg
  /-- The answer is the one that the coordinator gives if it is asked. -/
  | dispatch (deployment : String) (batch : ExecuteBatch) (answer : RouteAnswer)
  | chunk (item : Except InferenceError TokenChunk)
  | cancel

structure RequestActor where
  dispatched : Bool := false
  accumulator : Tokens := {}
  /-- The sender of the one-shot channel is still there. -/
  done : Bool := true
  /-- What was sent on the one-shot channel. -/
  received : List Tokens := []
  /-- What was sent to the gateway. -/
  output : List (Except InferenceError TokenChunk) := []
  stopped : Bool := false

namespace RequestActor

def finish (s : RequestActor) : RequestActor :=
  if s.done then { s with done := false, received := s.received++[s.accumulator], accumulator := {} } else s

def stopSelf (s : RequestActor) : RequestActor := { s with stopped := true }

def send (s : RequestActor) (item : Except InferenceError TokenChunk) : RequestActor :=
  { s with output := s.output++[item] }

def dispatch (s : RequestActor) (batch : ExecuteBatch) (answer : RouteAnswer) : RequestActor :=
  if s.dispatched then s
  else
    let s := { s with dispatched := true, accumulator := { s.accumulator with requestId := batch.requestId } }
    match answer with
    | .routed => s
    | .refused e => ((s.send (.error e)).finish).stopSelf
    | .timeout => ((s.send (.error (.internal "coordinator timeout"))).finish).stopSelf

def isTerminal : Except InferenceError TokenChunk → Bool
  | .ok c => c.finishReason.isSome
  | .error _ => true

/-- Add a chunk to the accumulator, unless it is an error. -/
def accumulate (s : RequestActor) : Except InferenceError TokenChunk → RequestActor
  | .ok c => { s with accumulator := s.accumulator.append c }
  | .error _ => s

def handle (s : RequestActor) : RequestMsg → RequestActor
  | .dispatch _ batch answer => s.dispatch batch answer
  | .chunk item =>
    let s := (s.accumulate item).send item
    if isTerminal item then s.finish.stopSelf else s
  | .cancel => s.finish.stopSelf

/-- A message is taken from the mailbox. An actor that has stopped takes none. -/
def receive (s : RequestActor) (msg : RequestMsg) : RequestActor := if s.stopped then s else s.handle msg

def run (msgs : List RequestMsg) : RequestActor := msgs.foldl receive {}

theorem run_snoc (msgs : List RequestMsg) (msg : RequestMsg) :
    run (msgs++[msg]) = (run msgs).receive msg := by
  rw [run,List.foldl_append]
  rfl

/-- A stopped actor is the same after any further messages. -/
theorem run_append_of_stopped {msgs : List RequestMsg} (h : (run msgs).stopped = true)
    (rest : List RequestMsg) : run (msgs++rest) = run msgs := by
  induction rest using List.reverseRecOn with
  | nil => rw [List.append_nil]
  | append_singleton rest msg ih =>
    rw [← List.append_assoc,run_snoc,ih,receive,if_pos h]

end RequestActor

def RequestMsg.item? : RequestMsg → Option (Except InferenceError TokenChunk)
  | .chunk item => some item
  | _ => none

/-- The items of the chunk messages. -/
def chunkItems (msgs : List RequestMsg) : List (Except InferenceError TokenChunk) :=
  msgs.filterMap RequestMsg.item?

theorem chunkItems_snoc (msgs : List RequestMsg) (msg : RequestMsg) :
    chunkItems (msgs++[msg]) = chunkItems msgs++msg.item?.toList := by
  rw [chunkItems,List.filterMap_append]
  cases h : msg.item? <;> simp [chunkItems,h]

/-- A message that stops the actor only when it brings a terminal chunk. -/
def RequestMsg.isQuiet : RequestMsg → Bool
  | .dispatch _ _ .routed | .chunk _ => true
  | _ => false

namespace RequestActor
variable {msgs : List RequestMsg} {msg : RequestMsg} {s : RequestActor} {t : Tokens}

/-- The fold over the chunks of the messages. -/
def folded (msgs : List RequestMsg) : Tokens := ({} : Tokens).collect (okChunks (chunkItems msgs))

theorem folded_of_none (h : msg.item? = none) : folded (msgs++[msg]) = folded msgs := by
  rw [folded,chunkItems_snoc,h,Option.toList_none,List.append_nil,folded]

theorem folded_ok (c : TokenChunk) : folded (msgs++[.chunk (.ok c)]) = (folded msgs).append c := by
  rw [folded,chunkItems_snoc,okChunks_append]
  exact Tokens.collect_snoc _ _ c

theorem folded_error (e : InferenceError) : folded (msgs++[.chunk (.error e)]) = folded msgs := by
  rw [folded,chunkItems_snoc,okChunks_append]
  exact congrArg ({} : Tokens).collect (List.append_nil _)

/-- An actor that has handled the messages and not stopped. -/
structure Running (msgs : List RequestMsg) (s : RequestActor) : Prop where
  running : s.stopped = false
  done : s.done = true
  received : s.received = []
  accumulator : s.accumulator.Agrees (folded msgs)
  output : s.output = chunkItems msgs
  unended : ∀ item ∈ chunkItems msgs, isTerminal item = false

/-- An actor that has stopped with the output. -/
def Ended (t : Tokens) (s : RequestActor) : Prop :=
  s.stopped = true ∧ ∃ got, s.received = [got] ∧ got.Agrees t

theorem ended_finish (hdone : s.done = true) (hreceived : s.received = []) (h : s.accumulator.Agrees t) :
    Ended t s.finish.stopSelf := by
  refine ⟨rfl,s.accumulator,?_,h⟩
  rw [stopSelf,finish,if_pos hdone,hreceived,List.nil_append]

theorem output_finish (s : RequestActor) : s.finish.stopSelf.output = s.output := by
  unfold finish stopSelf
  split <;> rfl

/-- What comes of one more message. -/
inductive Handled (msgs : List RequestMsg) (msg : RequestMsg) (s : RequestActor) : Prop
  | running (h : Running (msgs++[msg]) s)
  | terminal {item : Except InferenceError TokenChunk} (hmsg : msg = .chunk item)
      (hitem : isTerminal item = true) (houtput : s.output = chunkItems (msgs++[msg]))
      (h : Ended (folded (msgs++[msg])) s)
  | aborted (hmsg : msg.isQuiet = false) (h : Ended (folded (msgs++[msg])) s)

theorem Running.dispatch (h : Running msgs s) (deployment : String) (batch : ExecuteBatch)
    (answer : RouteAnswer) :
    Handled msgs (.dispatch deployment batch answer) (s.dispatch batch answer) := by
  have hfolded : folded (msgs++[.dispatch deployment batch answer]) = folded msgs := folded_of_none rfl
  have hitems : chunkItems (msgs++[.dispatch deployment batch answer]) = chunkItems msgs := by
    rw [chunkItems_snoc]
    exact List.append_nil _
  unfold RequestActor.dispatch
  split
  · refine .running ⟨h.running,h.done,h.received,?_,?_,?_⟩
    · rw [hfolded]; exact h.accumulator
    · rw [hitems]; exact h.output
    · rw [hitems]; exact h.unended
  · cases answer with
    | routed =>
      refine .running ⟨h.running,h.done,h.received,?_,?_,?_⟩
      · rw [hfolded]; exact h.accumulator
      · rw [hitems]; exact h.output
      · rw [hitems]; exact h.unended
    | refused e =>
      apply Handled.aborted rfl
      rw [hfolded]
      exact ended_finish h.done h.received h.accumulator
    | timeout =>
      apply Handled.aborted rfl
      rw [hfolded]
      exact ended_finish h.done h.received h.accumulator

/-- The accumulator and the output are up to date before the chunk is looked at. -/
theorem Running.accumulate (h : Running msgs s) (item : Except InferenceError TokenChunk) :
    (s.accumulate item).accumulator.Agrees (folded (msgs++[.chunk item])) ∧
      ((s.accumulate item).send item).output = chunkItems (msgs++[.chunk item]) := by
  have houtput : ((s.accumulate item).send item).output = s.output++[item] := by
    cases item <;> rfl
  refine ⟨?_,?_⟩
  · cases item with
    | ok c =>
      rw [folded_ok]
      exact h.accumulator.append c
    | error e =>
      rw [folded_error]
      exact h.accumulator
  · rw [houtput,h.output,chunkItems_snoc]
    rfl

theorem Running.chunk (h : Running msgs s) (item : Except InferenceError TokenChunk) :
    Handled msgs (.chunk item) (s.handle (.chunk item)) := by
  obtain ⟨haccumulator,houtput⟩ := h.accumulate item
  have hdone : ((s.accumulate item).send item).done = true := by
    cases item <;> exact h.done
  have hreceived : ((s.accumulate item).send item).received = [] := by
    cases item <;> exact h.received
  have hrunning : ((s.accumulate item).send item).stopped = false := by
    cases item <;> exact h.running
  simp only [RequestActor.handle]
  by_cases hitem : isTerminal item = true
  · rw [if_pos hitem]
    refine .terminal rfl hitem ?_ (ended_finish hdone hreceived haccumulator)
    rw [output_finish,houtput]
  · rw [if_neg hitem]
    refine .running ⟨hrunning,hdone,hreceived,haccumulator,houtput,?_⟩
    intro x hx
    rw [chunkItems_snoc,List.mem_append] at hx
    cases hx with
    | inl hx => exact h.unended x hx
    | inr hx =>
      obtain rfl : x = item := List.mem_singleton.1 hx
      exact Bool.not_eq_true _ ▸ hitem

theorem Running.handle (h : Running msgs s) (msg : RequestMsg) : Handled msgs msg (s.handle msg) := by
  cases msg with
  | dispatch deployment batch answer => exact h.dispatch deployment batch answer
  | chunk item => exact h.chunk item
  | cancel =>
    apply Handled.aborted rfl
    rw [folded_of_none rfl]
    exact ended_finish h.done h.received h.accumulator

theorem running_nil : Running [] (run []) := ⟨rfl,rfl,rfl,⟨rfl,rfl,rfl⟩,rfl,nofun⟩

/-- The actor runs through all messages, or up to the one that stops it. -/
inductive Outcome (msgs : List RequestMsg) : Prop
  | running (h : Running msgs (run msgs))
  | terminal {before after : List RequestMsg} {item : Except InferenceError TokenChunk}
      (hmsgs : msgs = before++.chunk item::after) (hbefore : Running before (run before))
      (hitem : isTerminal item = true)
      (houtput : (run (before++[.chunk item])).output = chunkItems (before++[.chunk item]))
      (h : Ended (folded (before++[.chunk item])) (run (before++[.chunk item])))
  | aborted {before after : List RequestMsg} {msg : RequestMsg} (hmsgs : msgs = before++msg::after)
      (hbefore : Running before (run before)) (hmsg : msg.isQuiet = false)
      (h : Ended (folded (before++[msg])) (run (before++[msg])))

theorem outcome_run (msgs : List RequestMsg) : Outcome msgs := by
  induction msgs using List.reverseRecOn with
  | nil => exact .running running_nil
  | append_singleton msgs msg ih =>
    cases ih with
    | running h =>
      have hrun : run (msgs++[msg]) = (run msgs).handle msg := by
        rw [run_snoc,receive,if_neg (by simp [h.running])]
      have hhandled := h.handle msg
      rw [← hrun] at hhandled
      cases hhandled with
      | running h' => exact .running h'
      | terminal hmsg hitem houtput h' =>
        subst hmsg
        exact .terminal rfl h hitem houtput h'
      | aborted hmsg h' => exact .aborted rfl h hmsg h'
    | @terminal before after item hmsgs hbefore hitem houtput h =>
      have hall : msgs++[msg] = before++.chunk item::(after++[msg]) := by simp [hmsgs]
      exact .terminal hall hbefore hitem houtput h
    | @aborted before after last hmsgs hbefore hlast h =>
      have hall : msgs++[msg] = before++last::(after++[msg]) := by simp [hmsgs]
      exact .aborted hall hbefore hlast h

theorem Ended.run_eq {before : List RequestMsg} (h : Ended t (run (before++[msg])))
    (after : List RequestMsg) : run (before++msg::after) = run (before++[msg]) := by
  rw [List.append_cons,run_append_of_stopped h.1]

/-- The one-shot channel got one value, put together from all the items, and the gateway got every
item. -/
def Complete (items : List (Except InferenceError TokenChunk)) (s : RequestActor) : Prop :=
  (∃ got, s.received = [got] ∧ got.Agrees (({} : Tokens).collect (okChunks items))) ∧ s.output = items

theorem chunkItems_append_cons (before after : List RequestMsg) (msg : RequestMsg) :
    chunkItems (before++msg::after) = chunkItems (before++[msg])++chunkItems after := by
  rw [chunkItems,List.append_cons,List.filterMap_append]
  rfl

/-- A message sequence without a cancel or a failed route is complete when its items end once. -/
theorem complete_iff (hquiet : ∀ msg ∈ msgs, msg.isQuiet = true) :
    Complete (chunkItems msgs) (run msgs) ↔ EndsOnce isTerminal (chunkItems msgs) := by
  cases outcome_run msgs with
  | running h =>
    refine iff_of_false ?_ (not_endsOnce_of_forall h.unended)
    rintro ⟨⟨got,hgot,-⟩,-⟩
    rw [h.received] at hgot
    exact nomatch hgot
  | @terminal before after item hmsgs hbefore hitem houtput h =>
    have hitems : chunkItems msgs = chunkItems (before++[.chunk item])++chunkItems after := by
      rw [hmsgs,chunkItems_append_cons]
    have hends : EndsOnce isTerminal (chunkItems (before++[.chunk item])) := by
      rw [chunkItems_snoc]
      exact endsOnce_snoc_iff.2 ⟨hitem,hbefore.unended⟩
    rw [hitems,hends.append_iff]
    refine ⟨?_,?_⟩
    · rintro ⟨-,hall⟩
      rw [hmsgs,h.run_eq,houtput] at hall
      exact List.self_eq_append_right.1 hall
    · intro hafter
      rw [hmsgs,h.run_eq,hafter,List.append_nil]
      exact ⟨h.2,houtput⟩
  | @aborted before after msg hmsgs hbefore hmsg h =>
    rw [hquiet msg (by simp [hmsgs])] at hmsg
    exact nomatch hmsg

/-- The actor puts together what the engine emits when the items end once; and in any case it hands
out at most one value, which is the fold over the chunks that it handled. -/
theorem request_accumulates_iff (msgs : List RequestMsg) :
    ((∀ msg ∈ msgs, msg.isQuiet = true) →
      (Complete (chunkItems msgs) (run msgs) ↔ EndsOnce isTerminal (chunkItems msgs))) ∧
    ((run msgs).received = [] ∨
      ∃ before msg after got, msgs = before++msg::after ∧ (run before).stopped = false ∧
        (run (before++[msg])).stopped = true ∧ (run msgs).received = [got] ∧
        got.Agrees (folded (before++[msg]))) := by
  refine ⟨complete_iff,?_⟩
  cases outcome_run msgs with
  | running h => exact .inl h.received
  | @terminal before after item hmsgs hbefore hitem houtput h =>
    obtain ⟨hstopped,got,hgot,hagrees⟩ := h
    rw [← Ended.run_eq ⟨hstopped,got,hgot,hagrees⟩ after,← hmsgs] at hgot
    exact .inr ⟨before,_,after,got,hmsgs,hbefore.running,hstopped,hgot,hagrees⟩
  | @aborted before after msg hmsgs hbefore hmsg h =>
    obtain ⟨hstopped,got,hgot,hagrees⟩ := h
    rw [← Ended.run_eq ⟨hstopped,got,hgot,hagrees⟩ after,← hmsgs] at hgot
    exact .inr ⟨before,msg,after,got,hmsgs,hbefore.running,hstopped,hgot,hagrees⟩

/-- The usage comes with the finish reason. -/
theorem request_accumulates_hello :
    let items : List (Except InferenceError TokenChunk) := [.ok { requestId := "r", textDelta := "Hel" },
      .ok { requestId := "r", textDelta := "lo", usage := some ⟨5,2,0,0⟩, finishReason := some .stop }]
    Complete items (run (.dispatch "d" ⟨"r","m",[],{},true,7⟩ .routed::items.map .chunk)) := by
  intro items
  refine ((request_accumulates_iff (.dispatch "d" ⟨"r","m",[],{},true,7⟩ .routed::items.map .chunk)).1 ?_).2 ?_
  · decide
  · exact ⟨[_],_,rfl,rfl,by decide⟩

/-- The usage comes after the finish reason, in a chunk that the actor does not handle. -/
theorem request_drops_late_usage :
    let items : List (Except InferenceError TokenChunk) :=
      [.ok { requestId := "r", textDelta := "Hi", finishReason := some .stop },
       .ok { requestId := "r", textDelta := "", usage := some ⟨5,1,0,0⟩ }]
    let s := run (items.map .chunk)
    s.received = [{ text := "Hi", finishReason := some .stop }] ∧ s.output.length = 1 ∧
      ({} : Tokens).collect (okChunks items) =
        { text := "Hi", usage := ⟨5,1,0,0⟩, finishReason := some .stop } ∧
      ¬ Complete items s := by
  refine ⟨by decide +kernel,by decide,by decide +kernel,?_⟩
  rintro ⟨-,houtput⟩
  exact absurd (congrArg List.length houtput) (by decide)

end RequestActor
end RakkaInference
