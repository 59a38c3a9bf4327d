import RakkaInference.Core.Tokens
import RakkaInference.Machine.Runs
import RakkaInference.Machine.Slices
import RakkaInference.Machine.Slots

/-! The requests of one vLLM engine and the tasks that drive them. A task steps the shared engine
and keeps what the step returned for its own request. -/
namespace RakkaInference.Vllm
open Machine

/-- One completion of a request. The texts and the token counts are those of the whole output so
far. -/
structure CompletionOutput where
  text : String
  finishReason : Option String := none
  tokenIds : Option ℕ := none

/-- What a step of the engine returns for a request. -/
structure RequestOutput where
  requestId : String
  outputs : List CompletionOutput
  finished : Bool
  promptTokenIds : Option ℕ := none

inductive Status
  | running
  | finished
  | aborted
  deriving DecidableEq

/-- Where the task of a request is. -/
inductive Phase
  /-- At the call of `step`. -/
  | polling
  /-- At the call of `has_unfinished_requests`. -/
  | checking
  /-- At `tx.send` of a chunk. -/
  | sending (chunk : TokenChunk) (finished : Bool)
  /-- At `tx.send` of the error that ends the task. -/
  | raising (e : InferenceError)
  | ended

structure Request where
  /-- The id that the engine knows the request by. -/
  id : String
  chunkRequestId : String
  /-- What the engine has generated. -/
  text : String := ""
  status : Status := .running
  phase : Phase := .polling
  lastTextLen : ℕ := 0
  /-- What the task has put on the channel. -/
  stream : List (Except InferenceError TokenChunk) := []
  /-- The consumer has dropped the stream. -/
  gone : Bool := false
  /-- A call of the engine has raised an error in the task. -/
  raised : Bool := false

def mapFinishReason : Option String → FinishReason
  | some "stop" => .stop
  | some "length" => .length
  | some "abort" => .stop
  | _ => .stop

namespace Request

/-- The first output for the request. -/
def own (r : Request) (outputs : List RequestOutput) : Option RequestOutput :=
  outputs.find? fun o => o.requestId = r.id

/-- The engine reports progress of a running request, with a text that was appended to. -/
def accepts (r : Request) (outputs : List RequestOutput) : Bool :=
  match r.own outputs with
  | none => true
  | some o => r.status = .running && match o.outputs with
    | first::_ => r.text.toList.isPrefixOf first.text.toList
    | [] => false

/-- The engine's record of the request after a step. -/
def advance (r : Request) (outputs : List RequestOutput) : Request :=
  match r.own outputs with
  | none => r
  | some o => { r with
      text := (o.outputs.head?.map CompletionOutput.text).getD r.text
      status := if o.finished then .finished else r.status }

/-- The new part of the text; a slice off a character boundary panics. -/
def delta (r : Request) (textTotal : String) : Option String :=
  if r.lastTextLen < byteLen textTotal then sliceFrom textTotal r.lastTextLen else some ""

def chunkOf (r : Request) (o : RequestOutput) (first : CompletionOutput) (delta : String) : TokenChunk where
  requestId := r.chunkRequestId
  textDelta := delta
  usage :=
    if o.finished then some
      { inputTokens := (o.promptTokenIds.map UInt32.ofNat).getD 0
        outputTokens := (first.tokenIds.map UInt32.ofNat).getD 0 }
    else none
  finishReason := if o.finished then some (mapFinishReason first.finishReason) else none

/-- The task looks for its request in what the step returned. -/
def collect (r : Request) (outputs : List RequestOutput) : Request :=
  match r.own outputs with
  | none => { r with phase := .checking }
  | some o =>
    match o.outputs with
    | [] => { r with phase := .checking }
    | first::_ =>
      match r.delta first.text with
      | some delta => { r with
          lastTextLen := byteLen first.text
          phase := .sending (r.chunkOf o first delta) o.finished }
      | none => { r with phase := .ended }

end Request

/-- The steps of a task besides the step of the engine. -/
inductive TaskAction
  /-- `has_unfinished_requests` returns with this answer. -/
  | check (unfinished : Bool)
  /-- A call of the engine raises an error. -/
  | raises (e : String)
  /-- `tx.send` returns. -/
  | send
  /-- The consumer drops the stream. -/
  | drop

/-- One step of the task of a request. -/
def Request.task (r : Request) : TaskAction → Option Request
  | .check unfinished =>
    match r.phase with
    | .checking => some { r with phase := if unfinished then .polling else .ended }
    | _ => none
  | .raises e =>
    match r.phase with
    | .polling => some { r with
        phase := .raising (.internal s!"vllm step: internal: python: {e}"), raised := true }
    | .checking => some { r with phase := .raising (.internal s!"python: {e}"), raised := true }
    | _ => none
  | .send =>
    match r.phase with
    | .sending chunk finished =>
      -- the request is aborted when nobody reads the stream
      if r.gone then some { r with
        status := if r.status = .running then .aborted else r.status
        phase := .ended }
      else some { r with
        stream := r.stream++[.ok chunk]
        phase := if finished then .ended else .polling }
    | .raising e => some { r with
        stream := if r.gone then r.stream else r.stream++[.error e]
        phase := .ended }
    | _ => none
  | .drop => some { r with gone := true }

structure VllmEngine where
  requestSeq : ℕ := 1
  requests : List Request := []

inductive Action
  /-- A call of `generate` for a batch with this request id. -/
  | generate (requestId : String)
  /-- The task of a request steps the engine. -/
  | step (k : ℕ) (outputs : List RequestOutput)
  | task (k : ℕ) (a : TaskAction)

namespace VllmEngine

/-- The engine says that it has unfinished requests as long as one of them is running. -/
def answers (s : VllmEngine) : TaskAction → Bool
  | .check unfinished => unfinished || s.requests.all fun r => r.status ≠ .running
  | _ => true

def step (s : VllmEngine) : Action → Option VllmEngine
  | .generate requestId => some
      { requestSeq := s.requestSeq+1
        requests := s.requests++[{ id := s!"{requestId}-{s.requestSeq}", chunkRequestId := requestId }] }
  | .step k outputs =>
    match s.requests[k]? with
    | some r =>
      match r.phase with
      | .polling =>
        if s.requests.all fun r => r.accepts outputs then some { s with
          requests := (s.requests.map fun r => r.advance outputs).set k ((r.advance outputs).collect outputs) }
        else none
      | _ => none
    | none => none
  | .task k a =>
    if s.answers a then do
      let r ← s.requests[k]?
      let r' ← r.task a
      some { s with requests := s.requests.set k r' }
    else none

end VllmEngine

/-- The text that the chunks bring together. -/
def joined (cs : List TokenChunk) : String := String.join (cs.map TokenChunk.textDelta)

/-- A chunk of a generation that goes on. -/
def IsOpen (c : TokenChunk) : Prop := c.finishReason = none ∧ c.usage = none

/-- One chunk has a finish reason and a usage, and it is the last one. -/
def ClosedOnce (cs : List TokenChunk) : Prop :=
  ∃ init last, cs = init++[last] ∧ (last.finishReason.isSome ∧ last.usage.isSome) ∧ ∀ c ∈ init, IsOpen c

namespace Request

/-- The consumer keeps reading, and the engine has not failed the task. -/
def reading (r : Request) : Bool := !r.gone && !r.raised

/-- The chunk that the task is about to put on the channel. -/
def hand (r : Request) : List (Except InferenceError TokenChunk) :=
  match r.phase with
  | .sending chunk _ => [.ok chunk]
  | _ => []

def produced (r : Request) : List (Except InferenceError TokenChunk) := r.stream++r.hand

/-- The chunks are the whole generated text, and close it once. -/
def Complete (r : Request) : Prop := ∃ cs, r.produced = cs.map .ok ∧ joined cs = r.text ∧ ClosedOnce cs

/-- A finished request has its whole stream, on the channel or just before it, and the stream does
not end before the request is finished. -/
def Law (r : Request) : Prop :=
  r.reading = true → (r.status = .finished → r.Complete) ∧ (r.phase = .ended → r.status = .finished)

end Request

def Phase.isOpen : Phase → Bool
  | .polling | .checking => true
  | .sending _ finished => !finished
  | .raising _ | .ended => false

def Phase.isClosing : Phase → Bool
  | .sending _ finished => finished
  | .ended => true
  | _ => false

namespace Request

/-- How far a request is that is still read. -/
inductive Stage (r : Request) (cs : List TokenChunk) : Prop
  | running (hstatus : r.status = .running) (hphase : r.phase.isOpen = true) (hopen : ∀ c ∈ cs, IsOpen c)
      (hlen : r.lastTextLen = byteLen (joined cs)) (rest : String) (htext : r.text = joined cs++rest)
  | finished (hstatus : r.status = .finished) (hphase : r.phase.isClosing = true) (hclosed : ClosedOnce cs)
      (htext : joined cs = r.text)

def Kept (r : Request) : Prop :=
  r.reading = true → ∃ cs : List TokenChunk, r.produced = cs.map .ok ∧ Stage r cs

variable {r r' : Request} {cs : List TokenChunk} {outputs : List RequestOutput} {o : RequestOutput}
  {first : CompletionOutput} {others : List CompletionOutput} {a : TaskAction}

theorem joined_snoc (cs : List TokenChunk) (c : TokenChunk) : joined (cs++[c]) = joined cs++c.textDelta := by
  simp [joined]

theorem kept_fresh (id chunkRequestId : String) : Kept { id, chunkRequestId } := by
  intro _
  exact ⟨[],rfl,.running rfl rfl nofun rfl "" rfl⟩

theorem Kept.law (h : Kept r) : Law r := by
  intro hreading
  obtain ⟨cs,hproduced,hstage⟩ := h hreading
  cases hstage with
  | running hstatus hphase _ _ _ _ =>
    refine ⟨fun hfinished => ?_,fun hended => ?_⟩
    · rw [hstatus] at hfinished
      exact nomatch hfinished
    · rw [hended] at hphase
      exact nomatch hphase
  | finished hstatus hphase hclosed htext => exact ⟨fun _ => ⟨cs,hproduced,htext,hclosed⟩,fun _ => hstatus⟩

theorem not_closedOnce (h : ∀ c ∈ cs, IsOpen c) : ¬ ClosedOnce cs := by
  rintro ⟨init,last,rfl,⟨hfinish,-⟩,-⟩
  rw [(h last (by simp)).1] at hfinish
  exact nomatch hfinish

/-- What the engine says about a request that it reports. -/
theorem accepts_of_own (ho : r.own outputs = some o) (h : r.accepts outputs = true) :
    r.status = .running ∧ ∃ first others more, o.outputs = first::others ∧ first.text = r.text++more := by
  simp only [accepts,ho,Bool.and_eq_true,decide_eq_true_eq] at h
  obtain ⟨hstatus,hgrows⟩ := h
  refine ⟨hstatus,?_⟩
  cases houtputs : o.outputs with
  | nil => simp [houtputs] at hgrows
  | cons first others =>
    simp only [houtputs,List.isPrefixOf_iff_prefix] at hgrows
    obtain ⟨more,hmore⟩ := hgrows
    refine ⟨first,others,String.ofList more,rfl,?_⟩
    rw [← String.toList_inj,String.toList_append,String.toList_ofList,hmore]

theorem advance_of_own (ho : r.own outputs = some o) (hfirst : o.outputs = first::others) :
    r.advance outputs =
      { r with text := first.text, status := if o.finished then .finished else r.status } := by
  simp [advance,ho,hfirst]

theorem reading_advance (r : Request) (outputs : List RequestOutput) :
    (r.advance outputs).reading = r.reading := by
  unfold advance
  split <;> rfl

theorem own_advance (r : Request) (outputs outputs' : List RequestOutput) :
    (r.advance outputs).own outputs' = r.own outputs' := by
  unfold advance
  split <;> rfl

theorem reading_collect (r : Request) (outputs : List RequestOutput) :
    (r.collect outputs).reading = r.reading := by
  fun_cases collect r outputs <;> rfl

/-- What the task does with the output for its request. -/
theorem collect_of_own (ho : r.own outputs = some o) (hfirst : o.outputs = first::others) {new : String}
    (hdelta : r.delta first.text = some new) :
    r.collect outputs =
      { r with lastTextLen := byteLen first.text, phase := .sending (r.chunkOf o first new) o.finished } := by
  simp only [collect,ho,hfirst,hdelta]

/-- The task of another request takes what a step returns, and it is not the end. -/
theorem Kept.advance (h : Kept r) (haccepts : r.accepts outputs = true)
    (hgoes : r.reading = true → ∀ o ∈ r.own outputs, o.finished = false) : Kept (r.advance outputs) := by
  intro hreading
  rw [reading_advance] at hreading
  obtain ⟨cs,hproduced,hstage⟩ := h hreading
  cases ho : r.own outputs with
  | none =>
    rw [Request.advance,ho]
    exact ⟨cs,hproduced,hstage⟩
  | some o =>
    obtain ⟨hrunning,first,others,more,hfirst,hmore⟩ := accepts_of_own ho haccepts
    rw [advance_of_own ho hfirst,hgoes hreading o ho]
    refine ⟨cs,hproduced,?_⟩
    cases hstage with
    | running hstatus hphase hopen hlen rest htext =>
      refine .running hstatus hphase hopen hlen (rest++more) ?_
      rw [hmore,htext,String.append_assoc]
    | finished hstatus _ _ _ =>
      rw [hrunning] at hstatus
      exact nomatch hstatus

/-- The task finds what was appended since it looked last. -/
theorem delta_of_append {old new : String} (hlen : r.lastTextLen = byteLen old) :
    r.delta (old++new) = some new := by
  rw [delta,hlen,byteLen_append]
  split
  · exact sliceFrom_append old new
  · rw [eq_empty_of_byteLen new (by omega)]

/-- The chunk of an output brings what the chunks before it did not, and the end with the end. -/
theorem stage_collected (hstatus : r.status = .running) (hopen : ∀ c ∈ cs, IsOpen c) {new : String}
    (htotal : first.text = joined cs++new) :
    Stage { r with
      text := first.text
      status := if o.finished then .finished else r.status
      lastTextLen := byteLen first.text
      phase := .sending (r.chunkOf o first new) o.finished } (cs++[r.chunkOf o first new]) := by
  have hjoined : joined (cs++[r.chunkOf o first new]) = first.text := by
    rw [joined_snoc,htotal]
    rfl
  cases hfinished : o.finished with
  | true =>
    refine .finished rfl rfl ⟨cs,_,rfl,?_,hopen⟩ hjoined
    simp [chunkOf,hfinished]
  | false =>
    refine .running hstatus rfl ?_ (congrArg byteLen hjoined.symm) "" (by simp [hjoined])
    intro c hc
    obtain hc | hc := List.mem_append.mp hc
    · exact hopen c hc
    · rw [List.mem_singleton.mp hc]
      simp [chunkOf,hfinished,IsOpen]

/-- The task of a request takes what its own step returns. -/
theorem Kept.collect (h : Kept r) (hpolling : r.phase = .polling) (haccepts : r.accepts outputs = true) :
    Kept ((r.advance outputs).collect outputs) := by
  intro hreading
  rw [reading_collect,reading_advance] at hreading
  obtain ⟨cs,hproduced,hstage⟩ := h hreading
  have hstream : r.stream = cs.map .ok := by simpa [produced,hand,hpolling] using hproduced
  cases hstage with
  | finished _ hphase _ _ =>
    rw [hpolling] at hphase
    exact nomatch hphase
  | running hstatus hphase hopen hlen rest htext =>
    cases ho : r.own outputs with
    | none =>
      have hcollect : (r.advance outputs).collect outputs = { r with phase := .checking } := by
        simp [Request.collect,Request.advance,ho]
      rw [hcollect]
      exact ⟨cs,by simpa [produced,hand] using hstream,.running hstatus rfl hopen hlen rest htext⟩
    | some o =>
      obtain ⟨-,first,others,more,hfirst,hmore⟩ := accepts_of_own ho haccepts
      have htotal : first.text = joined cs++(rest++more) := by
        rw [hmore,htext,String.append_assoc]
      have hdelta : (r.advance outputs).delta first.text = some (rest++more) := by
        rw [advance_of_own ho hfirst,htotal]
        exact delta_of_append hlen
      rw [collect_of_own ((own_advance r outputs outputs).trans ho) hfirst hdelta,advance_of_own ho hfirst]
      refine ⟨cs++[r.chunkOf o first (rest++more)],?_,stage_collected hstatus hopen htotal⟩
      simp [produced,hand,hstream,chunkOf]

/-- A task does not look at the engine when its request is finished. -/
theorem Stage.not_checking (h : Stage r cs) (hphase : r.phase = .checking) :
    r.status = .running ∧ Stage { r with phase := .polling } cs := by
  cases h with
  | running hstatus _ hopen hlen rest htext => exact ⟨hstatus,.running hstatus rfl hopen hlen rest htext⟩
  | finished _ hclosing _ _ =>
    rw [hphase] at hclosing
    exact nomatch hclosing

/-- The chunk goes from the hand to the channel. -/
theorem Stage.sent {chunk : TokenChunk} {finished : Bool} (h : Stage r cs)
    (hphase : r.phase = .sending chunk finished) :
    Stage { r with
      stream := r.stream++[.ok chunk], phase := if finished then .ended else .polling } cs := by
  cases h with
  | running hstatus hopening hopen hlen rest htext =>
    rw [hphase] at hopening
    obtain rfl : finished = false := by simpa [Phase.isOpen] using hopening
    exact .running hstatus rfl hopen hlen rest htext
  | finished hstatus hclosing hclosed htext =>
    rw [hphase] at hclosing
    obtain rfl : finished = true := hclosing
    exact .finished hstatus rfl hclosed htext

/-- The other steps of a task. -/
theorem Kept.task (h : Kept r) (hanswer : r.status = .running → a ≠ .check false)
    (hr : r.task a = some r') : Kept r' := by
  revert hr
  fun_cases Request.task r a
  all_goals rintro ⟨⟩
  case case1 unfinished hphase =>
    intro hreading
    obtain ⟨cs,hproduced,hstage⟩ := h hreading
    obtain ⟨hrunning,hpolling⟩ := hstage.not_checking hphase
    obtain rfl : unfinished = true := by simpa using hanswer hrunning
    exact ⟨cs,by simpa [produced,hand,hphase] using hproduced,hpolling⟩
  case case3 e hphase =>
    intro hreading
    simp [reading] at hreading
  case case4 e hphase =>
    intro hreading
    simp [reading] at hreading
  case case6 chunk finished hphase hgone =>
    intro hreading
    simp [reading,hgone] at hreading
  case case7 chunk finished hphase hgone =>
    intro hreading
    obtain ⟨cs,hproduced,hstage⟩ := h hreading
    refine ⟨cs,?_,hstage.sent hphase⟩
    rw [← hproduced]
    cases finished <;> simp [produced,hand,hphase]
  case case8 e hphase =>
    intro hreading
    obtain ⟨cs,hproduced,hstage⟩ := h hreading
    cases hstage with
    | running _ hopening _ _ _ _ => simp [hphase,Phase.isOpen] at hopening
    | finished _ hclosing _ _ => simp [hphase,Phase.isClosing] at hclosing
  case case10 =>
    intro hreading
    simp [reading] at hreading

/-- The end of a request that another task was given is lost. -/
theorem Kept.not_law_advance (h : Kept r) (hreading : r.reading = true) (haccepts : r.accepts outputs = true)
    (ho : r.own outputs = some o) (hfinished : o.finished = true) : ¬ Law (r.advance outputs) := by
  intro hlaw
  obtain ⟨hrunning,first,others,more,hfirst,-⟩ := accepts_of_own ho haccepts
  obtain ⟨cs,hproduced,hstage⟩ := h hreading
  have hstatus : (r.advance outputs).status = .finished := by
    rw [advance_of_own ho hfirst,hfinished]
    rfl
  have hsame : (r.advance outputs).produced = r.produced := by
    rw [advance_of_own ho hfirst]
    rfl
  obtain ⟨cs',hproduced',-,hclosed⟩ := (hlaw ((reading_advance r outputs).trans hreading)).1 hstatus
  rw [hsame,hproduced] at hproduced'
  obtain rfl : cs = cs' := List.map_injective_iff.2 (fun _ _ => Except.ok.inj) hproduced'
  cases hstage with
  | running _ _ hopen _ _ _ => exact not_closedOnce hopen hclosed
  | finished hstatus' _ _ _ =>
    rw [hrunning] at hstatus'
    exact nomatch hstatus'

end Request

namespace VllmEngine
variable {s t : VllmEngine} {a : Action}

/-- Everything that an action can do. -/
inductive Move (s : VllmEngine) : Action → VllmEngine → Prop
  | generate (requestId : String) : Move s (.generate requestId)
      { requestSeq := s.requestSeq+1
        requests := s.requests++[{ id := s!"{requestId}-{s.requestSeq}", chunkRequestId := requestId }] }
  | step {k : ℕ} {outputs : List RequestOutput} {r : Request} (hr : s.requests[k]? = some r)
      (hphase : r.phase = .polling) (haccepts : ∀ x ∈ s.requests, x.accepts outputs = true) :
      Move s (.step k outputs) { s with
        requests := (s.requests.map fun x => x.advance outputs).set k ((r.advance outputs).collect outputs) }
  | task {k : ℕ} {b : TaskAction} {r r' : Request} (hr : s.requests[k]? = some r)
      (hanswers : s.answers b = true) (hr' : r.task b = some r') :
      Move s (.task k b) { s with requests := s.requests.set k r' }

theorem move_of_step (h : s.step a = some t) : Move s a t := by
  revert h
  fun_cases step s a
  case case6 k b hanswers =>
    simp only [Option.bind_eq_bind,Option.bind_eq_some_iff,Option.some.injEq]
    rintro ⟨r,hr,r',hr',rfl⟩
    exact .task hr hanswers hr'
  all_goals rintro ⟨⟩
  case case1 requestId => exact .generate requestId
  case case2 k outputs r hr hphase hall => exact .step hr hphase (List.all_eq_true.mp hall)

def Kept (s : VllmEngine) : Prop := ∀ r ∈ s.requests, r.Kept

/-- What every request of the engine may rely on. -/
def Law (s : VllmEngine) : Prop := ∀ r ∈ s.requests, r.Law

/-- The end of a request that is still read is returned to the request's own task. -/
def Own (s : VllmEngine) : Action → Prop
  | .step k outputs => ∀ j r, s.requests[j]? = some r → j ≠ k → r.reading = true →
      ∀ o ∈ r.own outputs, o.finished = false
  | _ => True

theorem Kept.law (h : Kept s) : Law s := fun r hr => (h r hr).law

/-- The answer is not no while a request is running. -/
theorem ne_check_false {r : Request} {b : TaskAction} (hanswers : s.answers b = true) (hr : r ∈ s.requests)
    (hrunning : r.status = .running) : b ≠ .check false := by
  rintro rfl
  have hnone : ∀ r ∈ s.requests, r.status ≠ .running := by simpa [answers] using hanswers
  exact hnone r hr hrunning

/-- The requests after a step of the engine: the one whose task made the call, and the others. -/
theorem getElem?_stepped {k j : ℕ} {outputs : List RequestOutput} {r' x : Request}
    (hx : ((s.requests.map fun x => x.advance outputs).set k r')[j]? = some x) :
    (j = k ∧ x = r') ∨ ∃ r, s.requests[j]? = some r ∧ j ≠ k ∧ x = r.advance outputs := by
  by_cases hjk : k = j
  · subst hjk
    left
    obtain ⟨hlt,-⟩ := List.getElem?_eq_some_iff.mp hx
    rw [List.length_set] at hlt
    rw [List.getElem?_set_self hlt] at hx
    exact ⟨rfl,(Option.some.inj hx).symm⟩
  · right
    rw [List.getElem?_set_ne hjk,List.getElem?_map,Option.map_eq_some_iff] at hx
    obtain ⟨r,hr,rfl⟩ := hx
    exact ⟨r,hr,Ne.symm hjk,rfl⟩

theorem Kept.step (h : Kept s) (hown : Own s a) (hstep : s.step a = some t) : Kept t := by
  cases move_of_step hstep with
  | generate requestId => exact all_of_snoc h (Request.kept_fresh _ _)
  | @step k outputs r hr hphase haccepts =>
    intro x hx
    obtain ⟨j,hj⟩ := List.mem_iff_getElem?.mp hx
    have hmem := List.mem_of_getElem? hr
    obtain ⟨-,rfl⟩ | ⟨r',hr',hjk,rfl⟩ := getElem?_stepped hj
    · exact (h r hmem).collect hphase (haccepts r hmem)
    · have hmem' := List.mem_of_getElem? hr'
      exact (h r' hmem').advance (haccepts r' hmem') (hown j r' hr' hjk)
  | @task k b r r' hr hanswers hr' =>
    have hmem := List.mem_of_getElem? hr
    exact all_of_set h ((h r hmem).task (ne_check_false hanswers hmem) hr')

/-- A step that gives the end of a request to the task of another one breaks the law. -/
theorem Kept.not_law (h : Kept s) (hown : ¬ Own s a) (hstep : s.step a = some t) : ¬ Law t := by
  cases move_of_step hstep with
  | generate requestId => exact absurd trivial hown
  | task hr hanswers hr' => exact absurd trivial hown
  | @step k outputs r hr hphase haccepts =>
    simp only [Own,not_forall] at hown
    obtain ⟨j,r',hr',hjk,hreading,o,ho,hfinished⟩ := hown
    have hmem' := List.mem_of_getElem? hr'
    intro hlaw
    apply (h r' hmem').not_law_advance hreading (haccepts r' hmem') ho (by simpa using hfinished)
    apply hlaw
    apply List.mem_of_getElem? (i := j)
    rw [List.getElem?_set_ne (Ne.symm hjk),List.getElem?_map,hr']
    rfl

/-- The streams of all requests are complete exactly when no task takes the end of a request that
is not its own. -/
theorem streams_complete_iff {as : List Action} (h : exec step {} as = some t) :
    Always step Law {} as ↔ Throughout step Own {} as := by
  apply always_iff_throughout (J := Kept) (fun _ hs => hs.law) (fun _ _ _ hs hown hst => hs.step hown hst)
    (fun _ _ _ hs hown hst => hs.not_law hown hst) (s := {}) _ h
  intro r hr
  exact nomatch hr

/-- One request: its own task gets the end. -/
theorem streams_complete_alone :
    ∃ t : VllmEngine, exec step {} [.generate "a",
        .step 0 [{ requestId := "a-1", outputs := [{ text := "Hi" }], finished := true }],
        .task 0 .send] = some t ∧ Law t := by
  have hrun : ∃ t : VllmEngine, exec step {} [.generate "a",
      .step 0 [{ requestId := "a-1", outputs := [{ text := "Hi" }], finished := true }],
      .task 0 .send] = some t := ⟨_,rfl⟩
  obtain ⟨t,ht⟩ := hrun
  refine ⟨t,ht,(streams_complete_iff ht).mpr ?_ _ t List.prefix_rfl ht⟩
  refine ⟨trivial,fun u hu => ⟨?_,fun _ _ => ⟨trivial,fun _ _ => trivial⟩⟩⟩
  obtain rfl := Option.some.inj hu
  intro j r hr hj
  cases j with
  | zero => exact absurd rfl hj
  | succ j => exact nomatch hr

/-- Two requests end in one step. The task of the second one made the call, and the stream of the
first one ends with nothing on it. -/
theorem streams_lose_the_end :
    ∃ t r, exec step {} [.generate "a",.generate "b",
        .step 1 [{ requestId := "a-1", outputs := [{ text := "Hi" }], finished := true },
          { requestId := "b-2", outputs := [{ text := "Ho" }], finished := true }],
        .task 1 .send,.step 0 [],.task 0 (.check false)] = some t ∧
      t.requests[0]? = some r ∧ r.reading = true ∧ r.phase = .ended ∧ r.text = "Hi" ∧ r.stream = [] ∧ ¬ Law t := by
  refine ⟨_,_,rfl,rfl,rfl,rfl,rfl,rfl,?_⟩
  intro hlaw
  obtain ⟨cs,hproduced,hjoined,-⟩ := (hlaw _ (List.mem_cons_self ..) rfl).1 rfl
  obtain rfl : cs = [] := List.map_eq_nil_iff.mp hproduced.symm
  change "" = "Hi" at hjoined
  exact absurd hjoined (by decide)

end VllmEngine
end RakkaInference.Vllm
