import RakkaInference.Machine.Drain
import RakkaInference.Speech.TranscribeLaw

/-! How a transcription session comes to its end: the tasks and a caller that reads on are never stuck on one
another's channels. -/
namespace RakkaInference.Stt
open Machine

/-- The steps that need neither the provider nor more audio. -/
def SessionAction.Driven : SessionAction → Prop
  | .feed | .recv | .sent _ | .report | .emit | .take => True
  | .push _ | .hangUp | .hear _ | .leave => False

/-- The steps that the uplink task has left to do for what it has. -/
def Uplink.left : Uplink → ℕ
  | .draining => 3
  | .sending _ => 4
  | .closing => 1
  | .failing _ => 2
  | .done _ => 0

def Source.left : Source → ℕ
  | .cutting bytes offset => 8*(bytes.length-offset)+1
  | .caller | .gone => 0

/-- A bound for the steps that are left. -/
def Session.left (s : Session) : ℕ :=
  s.source.left+4*s.input.length+s.uplink.left+2*(s.items.getD []).length+s.out.length

variable {ε ρ : Type} {p : Provider ε ρ} {requestId : String} {emitInterim : Bool} {s t : Session}
  {a : SessionAction}

theorem left_step (hdriven : a.Driven) (hstep : s.step p requestId emitInterim a = some t) : t.left < s.left := by
  unfold Session.left
  cases a with
  | feed =>
    obtain ⟨bytes,offset,hsource,⟨hlt,-,-,rfl⟩ | ⟨-,rfl⟩⟩ := feed_cases hstep
    · simp only [hsource,Source.left,List.length_append,List.length_singleton]
      have hchunk : staticChunkBytes = 4096 := rfl
      omega
    · simp only [hsource,Source.left]
      omega
  | recv =>
    obtain ⟨huplink,⟨rest,hinput,rfl⟩ | ⟨chunk,rest,hinput,-,rfl⟩ | ⟨hinput,-,rfl⟩⟩ := recv_cases hstep
    all_goals simp only [huplink,hinput,Uplink.left,List.length_cons]
    all_goals omega
  | sent result =>
    obtain ⟨chunk,huplink,rfl⟩ | ⟨chunk,e,huplink,rfl⟩ | ⟨huplink,rfl⟩ | ⟨huplink,rfl⟩ := sent_cases hstep
    all_goals simp only [huplink,Uplink.left]
    all_goals omega
  | report =>
    obtain ⟨e,huplink,⟨-,rfl⟩ | ⟨-,rfl⟩⟩ := report_cases hstep
    all_goals simp only [huplink,Uplink.left,List.length_append,List.length_singleton]
    all_goals omega
  | emit =>
    obtain ⟨item,rest,hitems,⟨-,rfl⟩ | ⟨-,rfl⟩⟩ := emit_cases hstep
    all_goals simp only [hitems,Option.getD_some,List.length_cons,List.length_append,List.length_nil]
    all_goals omega
  | take =>
    obtain ⟨item,rest,hout,rfl⟩ := take_cases hstep
    simp only [hout,List.length_cons]
    omega
  | push _ | hangUp | hear _ | leave => exact hdriven.elim

/-- A task that cuts a payload has a channel with room for something. -/
def Roomy (s : Session) : Prop := ∀ bytes offset, s.source = .cutting bytes offset → 0 < s.capacity

/-- Nothing is left to be taken; each task is over, or waits for what only the provider or the caller can give. -/
structure Rest (s : Session) : Prop where
  out : s.out = []
  downlink : s.items = none ∨ s.items = some []
  uplink : s.uplink.isDone = true ∨ s.uplink = .draining ∧ s.input = [] ∧ s.source = .caller

theorem rest_of_stuck (hroom : Roomy s) (h : Stuck (Session.step p requestId emitInterim) SessionAction.Driven s) :
    Rest s := by
  have hout : s.out = [] := by
    cases hout : s.out with
    | nil => rfl
    | cons item rest =>
      have htake := h .take trivial
      simp [Session.step,Session.take,hout] at htake
  have hplace : s.out.length < outCapacity := by
    rw [hout]
    decide
  refine ⟨hout,?_,?_⟩
  · have hemit := h .emit trivial
    cases hitems : s.items with
    | none => exact .inl rfl
    | some items =>
      cases items with
      | nil => exact .inr rfl
      | cons item rest =>
        cases hlistening : s.listening <;> simp [Session.step,Session.emit,hitems,hlistening,hplace] at hemit
  · cases huplink : s.uplink with
    | done failure => exact .inl rfl
    | sending chunk =>
      have hsent := h (.sent (.ok ())) trivial
      simp [Session.step,Session.sent,huplink] at hsent
    | closing =>
      have hsent := h (.sent (.ok ())) trivial
      simp [Session.step,Session.sent,huplink] at hsent
    | failing e =>
      have hreport := h .report trivial
      cases hlistening : s.listening <;> simp [Session.step,Session.report,huplink,hlistening,hplace] at hreport
    | draining =>
      right
      have hrecv := h .recv trivial
      cases hinput : s.input with
      | cons chunk rest =>
        by_cases hnil : chunk = [] <;> simp [Session.step,Session.recv,huplink,hinput,hnil] at hrecv
      | nil =>
        refine ⟨rfl,rfl,?_⟩
        cases hsource : s.source with
        | caller => rfl
        | gone => simp [Session.step,Session.recv,huplink,hinput,hsource] at hrecv
        | cutting bytes offset =>
          -- the channel is empty, so that the task can go on
          have hfeed := h .feed trivial
          have hpos := hroom bytes offset hsource
          by_cases hlt : offset < bytes.length
          · simp [Session.step,Session.feed,hsource,huplink,Uplink.isDone,hinput,hpos,hlt] at hfeed
          · simp [Session.step,Session.feed,hsource,hlt] at hfeed

theorem Roomy.step (h : Roomy s) (hstep : s.step p requestId emitInterim a = some t) : Roomy t := by
  have hkeep : ∀ u : Session, u.capacity = s.capacity → (u.source = .gone ∨ u.source = s.source) → Roomy u := by
    rintro u hcap (hgone | hsame) bytes offset hsource
    · rw [hgone] at hsource
      cases hsource
    · rw [hcap]
      exact h bytes offset (hsame ▸ hsource)
  cases a with
  | feed =>
    obtain ⟨bytes,offset,hsource,⟨-,-,-,rfl⟩ | ⟨-,rfl⟩⟩ := feed_cases hstep
    · intro b o _
      exact h bytes offset hsource
    · exact hkeep _ rfl (.inl rfl)
  | push chunk =>
    obtain ⟨-,-,rfl⟩ := push_cases hstep
    exact hkeep _ rfl (.inr rfl)
  | hangUp =>
    obtain ⟨-,rfl⟩ := hangUp_cases hstep
    exact hkeep _ rfl (.inl rfl)
  | recv =>
    obtain ⟨-,⟨rest,-,rfl⟩ | ⟨chunk,rest,-,-,rfl⟩ | ⟨-,-,rfl⟩⟩ := recv_cases hstep
    all_goals exact hkeep _ rfl (.inr rfl)
  | sent result =>
    obtain ⟨chunk,-,rfl⟩ | ⟨chunk,e,-,rfl⟩ | ⟨-,rfl⟩ | ⟨-,rfl⟩ := sent_cases hstep
    all_goals exact hkeep _ rfl (.inr rfl)
  | report =>
    obtain ⟨e,-,⟨-,rfl⟩ | ⟨-,rfl⟩⟩ := report_cases hstep
    all_goals exact hkeep _ rfl (.inr rfl)
  | hear frame =>
    obtain ⟨-,rfl⟩ := hear_cases hstep
    exact hkeep _ rfl (.inr rfl)
  | emit =>
    obtain ⟨item,rest,-,⟨-,rfl⟩ | ⟨-,rfl⟩⟩ := emit_cases hstep
    all_goals exact hkeep _ rfl (.inr rfl)
  | take =>
    obtain ⟨item,rest,-,rfl⟩ := take_cases hstep
    exact hkeep _ rfl (.inr rfl)
  | leave =>
    obtain ⟨-,rfl⟩ := leave_cases hstep
    exact hkeep _ rfl (.inr rfl)

theorem Opened.roomy {read : String → Except String (List UInt8)} {input : AudioInput} (h : Opened read input s) :
    Roomy s := by
  cases h with
  | static _ => exact fun _ _ _ => Nat.succ_pos 7
  | stream _ _ =>
    intro bytes offset hsource
    cases hsource

/-- What the driven steps leave as it is. -/
structure Kept (s t : Session) : Prop where
  heard : t.heard = s.heard
  listening : t.listening = s.listening
  reading : t.items = none → s.items = none
  caller : t.source = .caller → s.source = .caller

theorem kept_step (hdriven : a.Driven) (hstep : s.step p requestId emitInterim a = some t) : Kept s t := by
  cases a with
  | feed =>
    obtain ⟨bytes,offset,hsource,⟨-,-,-,rfl⟩ | ⟨-,rfl⟩⟩ := feed_cases hstep
    all_goals exact ⟨rfl,rfl,id,fun h => by cases h⟩
  | recv =>
    obtain ⟨-,⟨rest,-,rfl⟩ | ⟨chunk,rest,-,-,rfl⟩ | ⟨-,-,rfl⟩⟩ := recv_cases hstep
    all_goals exact ⟨rfl,rfl,id,id⟩
  | sent result =>
    obtain ⟨chunk,-,rfl⟩ | ⟨chunk,e,-,rfl⟩ | ⟨-,rfl⟩ | ⟨-,rfl⟩ := sent_cases hstep
    all_goals exact ⟨rfl,rfl,id,id⟩
  | report =>
    obtain ⟨e,-,⟨-,rfl⟩ | ⟨-,rfl⟩⟩ := report_cases hstep
    all_goals exact ⟨rfl,rfl,id,id⟩
  | emit =>
    obtain ⟨item,rest,-,⟨-,rfl⟩ | ⟨-,rfl⟩⟩ := emit_cases hstep
    all_goals exact ⟨rfl,rfl,fun h => (by cases h),id⟩
  | take =>
    obtain ⟨item,rest,-,rfl⟩ := take_cases hstep
    exact ⟨rfl,rfl,id,id⟩
  | push _ | hangUp | hear _ | leave => exact hdriven.elim

theorem kept_run {as : List SessionAction} (hdriven : ∀ a ∈ as, a.Driven)
    (hrun : exec (Session.step p requestId emitInterim) s as = some t) : Kept s t := by
  refine exec_invariant (I := Kept s) (P := fun _ a => a.Driven) ?_ ⟨rfl,rfl,id,id⟩
    (throughout_of_forall (fun _ a ha => hdriven a ha) s) hrun
  intro u a v hu ha hstep
  have hv := kept_step ha hstep
  exact ⟨hv.heard.trans hu.heard,hv.listening.trans hu.listening,hu.reading ∘ hv.reading,hu.caller ∘ hv.caller⟩

/-- Where the steps lead once the provider and the caller have nothing to add. -/
structure Drains (p : Provider ε ρ) (requestId : String) (emitInterim : Bool) (s : Session) : Prop where
  bounded : ∀ as t, (∀ a ∈ as, a.Driven) → exec (Session.step p requestId emitInterim) s as = some t →
    as.length ≤ s.left
  rests : ∃ as t, (∀ a ∈ as, a.Driven) ∧ exec (Session.step p requestId emitInterim) s as = some t ∧
    Stuck (Session.step p requestId emitInterim) SessionAction.Driven t
  rest : ∀ as t, (∀ a ∈ as, a.Driven) → exec (Session.step p requestId emitInterim) s as = some t →
    Stuck (Session.step p requestId emitInterim) SessionAction.Driven t → Rest t ∧
      (s.items ≠ none → s.source ≠ .caller → t.ended ∧
        (s.listening = true → Woven (reports p t) (results p requestId emitInterim s) t.taken))

theorem drains_run {read : String → Except String (List UInt8)} {batch : AudioBatch} {opts : TranscribeOptions}
    {as : List SessionAction} (h : Opened read batch.input s)
    (hrun : exec (Session.step p batch.requestId opts.interimResults) s as = some t) :
    Drains p batch.requestId opts.interimResults t := by
  have hall : Roomy t := exec_preserves (fun s a t hs hstep => hs.step hstep) h.roomy hrun
  refine ⟨?_,?_,?_⟩
  · intro bs u hdriven hu
    have hle := exec_length_add_le (I := fun _ => True) (P := SessionAction.Driven) (fun _ _ _ _ _ => trivial)
      (fun _ _ _ _ ha hstep => left_step ha hstep) trivial hdriven hu
    omega
  · exact exists_exec_stuck (I := fun _ => True) (fun _ _ _ _ _ => trivial)
      (fun _ _ _ _ ha hstep => left_step ha hstep) trivial
  · intro bs u hdriven hu hstuck
    have hrest := rest_of_stuck (exec_preserves (fun s a t hs hstep => hs.step hstep) hall hu) hstuck
    refine ⟨hrest,fun hitems hcaller => ?_⟩
    have hkept := kept_run hdriven hu
    have hended : u.ended := by
      refine ⟨?_,?_,hrest.out⟩
      · rcases hrest.uplink with hdone | ⟨-,-,hsource⟩
        · exact hdone
        · exact absurd (hkept.caller hsource) hcaller
      · rcases hrest.downlink with hnone | hnil
        · exact absurd (hkept.reading hnone) hitems
        · exact hnil
    refine ⟨hended,fun hlistening => ?_⟩
    have hlaw := (sessionLaw_run h (exec_append_iff.mpr ⟨t,hrun,hu⟩)).ended hended (hkept.listening.trans hlistening)
    have hsame : results p batch.requestId opts.interimResults u =
        results p batch.requestId opts.interimResults t := by
      rw [results,results,hkept.heard]
    rw [hsame] at hlaw
    exact hlaw.1

/-- What becomes of every run of the tasks that a call has started. -/
def StartedDrains (batch : AudioBatch) (provider : String → TranscribeOptions → Provider ε ρ)
    (started : Started) : Prop :=
  let p := provider batch.requestId started.opts
  ∀ as t, exec (Session.step p batch.requestId started.opts.interimResults) started.session as = some t →
    Drains p batch.requestId started.opts.interimResults t

/-- Once the provider has ended the socket and the caller has hung up, a caller that reads on gets all of the
results, and the error of the uplink where there was one, after a bounded number of steps in any order. -/
theorem transcription_drains (o : Outside) (batch : AudioBatch) (flag : Bool) :
    (∀ (fromStr : String → Except String Deepgram.InboundEnvelope) (started : Started),
      Deepgram.executeAudio o flag batch = .ok started → StartedDrains batch (Deepgram.provider fromStr) started) ∧
    ∀ (fromStr : String → Except String AssemblyAi.InboundEnvelope) (started : Started),
      AssemblyAi.executeAudio o flag batch = .ok started →
      StartedDrains batch (AssemblyAi.provider fromStr) started := by
  constructor
  · intro fromStr started hstart as t hrun
    exact drains_run (deepgram_opened hstart) hrun
  · intro fromStr started hstart as t hrun
    exact drains_run (assemblyAi_opened hstart) hrun

/-- The first frame is lost, and the socket is over. -/
def lostCall : List SessionAction := [.feed,.recv,.sent (.error "connection reset"),.hear (.ok none)]

/-- The error of the uplink is not out yet. -/
theorem transcription_drains_lost : ∃ started t,
    Deepgram.executeAudio someOutside false someBatch = .ok started ∧
    exec (Session.step (Deepgram.provider envelopeOf "r" started.opts) "r" started.opts.interimResults)
      started.session lostCall = some t ∧
    t.uplink = .failing "connection reset" ∧
    Drains (Deepgram.provider envelopeOf "r" started.opts) "r" started.opts.interimResults t := by
  refine ⟨_,_,rfl,rfl,rfl,?_⟩
  exact (transcription_drains someOutside someBatch false).1 envelopeOf _ rfl lostCall _ rfl

end RakkaInference.Stt
