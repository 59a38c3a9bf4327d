import RakkaInference.Machine.Runs
import RakkaInference.Runtime.Forward

/-! The engine for realtime sessions. A session outlives the handler that admitted it: its
task opens it with the runner and then relays what the runner's adapter sends, through a
bounded channel, until the adapter has let go of all its senders or the caller of its
receiver. -/
namespace RakkaInference
open Machine
variable {α : Type}

/-- Why a session gave its slot back. -/
inductive SessionEnd
  | openError (e : InferenceError)
  /-- The relay is drained and no sender is left. -/
  | closed
  /-- A send to the caller failed. -/
  | callerGone

inductive RelayPhase (α : Type)
  /-- Before `runner.lock().await` has returned. -/
  | waiting
  /-- In `open_session`, with the lock. -/
  | opening
  /-- At `relay_rx.recv().await`. -/
  | receiving
  /-- At `caller_outbound.send(out_msg).await`. -/
  | sending (msg : α)
  | ended (cause : SessionEnd)

structure RelaySession (α : Type) where
  phase : RelayPhase α := .waiting
  /-- The relay channel, oldest message first. -/
  queue : List α := []
  /-- The senders of the relay on the runner's side. -/
  senders : ℕ := 1
  /-- The caller has dropped its receiver. -/
  gone : Bool := false
  /-- What the runner has put on the relay. -/
  outbox : List α := []
  /-- What was put on the caller's channel. -/
  received : List α := []
  /-- Sends to the caller after it was gone. -/
  lateSends : ℕ := 0
  released : ℕ := 0
  /-- What the caller was told of its session. -/
  admission : Option (Except InferenceError Unit) := none

inductive RelayStep (α : Type)
  | lock
  /-- `open_session` returns. -/
  | opened (res : Except InferenceError Unit)
  /-- The relay loop goes on by a receive or a send. -/
  | relay
  | runnerSend (msg : α)
  | runnerClone
  | runnerDrop
  | callerDrop

namespace RelaySession

def live (x : RelaySession α) : Bool :=
  match x.phase with
  | .ended _ => false
  | _ => true

def holdsRunner (x : RelaySession α) : Bool :=
  match x.phase with
  | .opening => true
  | _ => false

/-- The runner has the batch, and with it the first sender of the relay. -/
def handedOver (x : RelaySession α) : Bool :=
  match x.phase with
  | .waiting => false
  | _ => true

def relay (x : RelaySession α) : Option (RelaySession α) :=
  match x.phase with
  | .receiving =>
    match x.queue with
    | msg::queue => some { x with phase := .sending msg, queue := queue }
    | [] => if x.senders = 0 then some { x with phase := .ended .closed, released := x.released+1 } else none
  | .sending msg =>
    if x.gone then some { x with
      phase := .ended .callerGone
      lateSends := x.lateSends+1
      released := x.released+1 }
    else some { x with phase := .receiving, received := x.received++[msg] }
  | _ => none

/-- One step of a session, of its task, of the runner's adapter or of its caller. The end
of the loop and the decrement are one step; a relay that is gone takes no message. -/
def step (relayCap : ℕ) (runnerFree : Bool) (x : RelaySession α) : RelayStep α → Option (RelaySession α)
  | .lock =>
    match x.phase with
    | .waiting => if runnerFree then some { x with phase := .opening } else none
    | _ => none
  | .opened res =>
    match x.phase,res with
    | .opening,.ok _ => some { x with phase := .receiving, admission := some (.ok ()) }
    | .opening,.error e => some { x with
        phase := .ended (.openError e)
        released := x.released+1
        admission := some (.error e) }
    | _,_ => none
  | .relay => x.relay
  | .runnerSend msg =>
    if x.handedOver ∧ x.live ∧ x.senders ≠ 0 ∧ x.queue.length < relayCap then
      some { x with queue := x.queue++[msg], outbox := x.outbox++[msg] }
    else none
  | .runnerClone => if x.handedOver ∧ x.senders ≠ 0 then some { x with senders := x.senders+1 } else none
  | .runnerDrop => if x.handedOver ∧ x.senders ≠ 0 then some { x with senders := x.senders-1 } else none
  | .callerDrop => some { x with gone := true }

variable {x y : RelaySession α} {relayCap : ℕ} {free : Bool} {a : RelayStep α}

/-- Everything that the relay loop can do. -/
inductive RelayMove (x : RelaySession α) : RelaySession α → Prop
  | receive {msg : α} {queue : List α} (hp : x.phase = .receiving) (hq : x.queue = msg::queue) :
      RelayMove x { x with phase := .sending msg, queue := queue }
  | close (hp : x.phase = .receiving) (hq : x.queue = []) (hs : x.senders = 0) :
      RelayMove x { x with phase := .ended .closed, released := x.released+1 }
  | fail {msg : α} (hp : x.phase = .sending msg) (hg : x.gone = true) :
      RelayMove x { x with
        phase := .ended .callerGone, lateSends := x.lateSends+1, released := x.released+1 }
  | pass {msg : α} (hp : x.phase = .sending msg) (hg : x.gone = false) :
      RelayMove x { x with phase := .receiving, received := x.received++[msg] }

theorem relayMove_of_relay (h : x.relay = some y) : x.RelayMove y := by
  revert h
  fun_cases relay x
  all_goals rintro ⟨⟩
  case case1 hp msg queue hq => exact .receive hp hq
  case case2 hp hq hs => exact .close hp hq hs
  case case4 msg hp hg => exact .fail hp hg
  case case5 msg hp hg => exact .pass hp (by simpa using hg)

/-- Everything that a session can do. -/
inductive Move (relayCap : ℕ) (free : Bool) (x : RelaySession α) : RelayStep α → RelaySession α → Prop
  | lock (hp : x.phase = .waiting) (hf : free = true) : Move relayCap free x .lock { x with phase := .opening }
  | accept {u : Unit} (hp : x.phase = .opening) :
      Move relayCap free x (.opened (.ok u)) { x with phase := .receiving, admission := some (.ok ()) }
  | refuse {e : InferenceError} (hp : x.phase = .opening) :
      Move relayCap free x (.opened (.error e)) { x with
        phase := .ended (.openError e), released := x.released+1, admission := some (.error e) }
  | relay {y : RelaySession α} (hy : x.RelayMove y) : Move relayCap free x .relay y
  | runnerSend {msg : α} (hh : x.handedOver = true) (hl : x.live = true) (hq : x.queue.length < relayCap) :
      Move relayCap free x (.runnerSend msg) { x with queue := x.queue++[msg], outbox := x.outbox++[msg] }
  | runnerClone (hh : x.handedOver = true) (hs : x.senders ≠ 0) :
      Move relayCap free x .runnerClone { x with senders := x.senders+1 }
  | runnerDrop (hh : x.handedOver = true) (hs : x.senders ≠ 0) :
      Move relayCap free x .runnerDrop { x with senders := x.senders-1 }
  | callerDrop : Move relayCap free x .callerDrop { x with gone := true }

theorem move_of_step (h : x.step relayCap free a = some y) : Move relayCap free x a y := by
  revert h
  fun_cases step relayCap free x a
  case case7 => exact fun h => .relay (relayMove_of_relay h)
  all_goals rintro ⟨⟩
  case case1 hp hf => exact .lock hp hf
  case case4 u hp => exact .accept hp
  case case5 e hp => exact .refuse hp
  case case8 msg hguard => exact .runnerSend hguard.1 hguard.2.1 hguard.2.2.2
  case case10 hguard => exact .runnerClone hguard.1 hguard.2
  case case12 hguard => exact .runnerDrop hguard.1 hguard.2
  case case14 => exact .callerDrop

/-- Where the messages of the runner are: with the caller, in the hand of the relay loop or
in the channel, in this order. -/
def Relayed (x : RelaySession α) : Prop :=
  match x.phase with
  | .waiting => x.outbox = [] ∧ x.queue = [] ∧ x.received = []
  | .opening => x.outbox = x.queue ∧ x.received = []
  | .receiving => x.outbox = x.received++x.queue
  | .sending msg => x.outbox = x.received++msg::x.queue
  | .ended .closed => x.outbox = x.received ∧ x.senders = 0
  | .ended .callerGone => x.gone = true ∧ ∃ msg, x.outbox = x.received++msg::x.queue
  | .ended (.openError e) => x.received = [] ∧ x.admission = some (.error e)

/-- How many sends to a caller that is gone the session has made. -/
def lateSendsOf : RelayPhase α → ℕ
  | .ended .callerGone => 1
  | _ => 0

/-- What holds of a session at every moment. -/
structure Law (relayCap : ℕ) (x : RelaySession α) : Prop where
  relayed : x.Relayed
  released : x.released = if x.live then 0 else 1
  lateSends : x.lateSends = lateSendsOf x.phase
  bounded : x.queue.length ≤ relayCap

theorem Law.fresh (relayCap : ℕ) : Law relayCap ({} : RelaySession α) where
  relayed := ⟨rfl,rfl,rfl⟩
  released := rfl
  lateSends := rfl
  bounded := Nat.zero_le _

theorem Law.relay (hx : x.Law relayCap) (h : x.RelayMove y) : y.Law relayCap := by
  obtain ⟨hrelayed,hreleased,hlate,hbounded⟩ := hx
  cases h with
  | receive hp hq =>
    simp only [Relayed,live,hp,hq] at hrelayed hreleased
    rw [hq] at hbounded
    exact ⟨hrelayed,hreleased,by rw [hlate,hp]; rfl,Nat.le_of_succ_le hbounded⟩
  | close hp hq hs =>
    simp only [Relayed,live,hp,hq,List.append_nil] at hrelayed hreleased
    exact ⟨⟨hrelayed,hs⟩,congrArg (·+1) hreleased,by rw [hlate,hp]; rfl,hbounded⟩
  | fail hp hg =>
    simp only [Relayed,live,lateSendsOf,hp] at hrelayed hreleased hlate
    exact ⟨⟨hg,_,hrelayed⟩,congrArg (·+1) hreleased,congrArg (·+1) hlate,hbounded⟩
  | pass hp hg =>
    simp only [Relayed,live,hp] at hrelayed hreleased
    refine ⟨?_,hreleased,by rw [hlate,hp]; rfl,hbounded⟩
    simpa [Relayed] using hrelayed

/-- Senders that come and go, and a caller that goes, do not move a message. -/
theorem Relayed.of_frame (h : x.Relayed) {senders : ℕ} {gone : Bool} (hs : x.senders = 0 → senders = 0)
    (hg : x.gone = true → gone = true) : Relayed { x with senders := senders, gone := gone } := by
  unfold Relayed at *
  split at h <;> simp_all

theorem Law.of_frame (hx : x.Law relayCap) {senders : ℕ} {gone : Bool} (hs : x.senders = 0 → senders = 0)
    (hg : x.gone = true → gone = true) : Law relayCap { x with senders := senders, gone := gone } where
  relayed := hx.relayed.of_frame hs hg
  released := hx.released
  lateSends := hx.lateSends
  bounded := hx.bounded

theorem Law.step (hx : x.Law relayCap) (h : x.step relayCap free a = some y) : y.Law relayCap := by
  cases move_of_step h with
  | lock hp hf =>
    obtain ⟨hrelayed,hreleased,hlate,hbounded⟩ := hx
    simp only [Relayed,live,hp] at hrelayed hreleased
    obtain ⟨ho,hq,hr⟩ := hrelayed
    exact ⟨⟨ho.trans hq.symm,hr⟩,hreleased,by rw [hlate,hp]; rfl,hbounded⟩
  | accept hp =>
    obtain ⟨hrelayed,hreleased,hlate,hbounded⟩ := hx
    simp only [Relayed,live,hp] at hrelayed hreleased
    obtain ⟨ho,hr⟩ := hrelayed
    refine ⟨?_,hreleased,by rw [hlate,hp]; rfl,hbounded⟩
    simp only [Relayed,ho,hr,List.nil_append]
  | refuse hp =>
    obtain ⟨hrelayed,hreleased,hlate,hbounded⟩ := hx
    simp only [Relayed,live,hp] at hrelayed hreleased
    exact ⟨⟨hrelayed.2,rfl⟩,congrArg (·+1) hreleased,by rw [hlate,hp]; rfl,hbounded⟩
  | relay hy => exact hx.relay hy
  | runnerSend hh hl hq =>
    refine ⟨?_,hx.released,hx.lateSends,by simpa using Nat.succ_le_of_lt hq⟩
    have hrelayed := hx.relayed
    unfold Relayed at *
    split at hrelayed <;> simp_all [handedOver,live]
  | runnerClone hh hs => exact hx.of_frame (fun h => absurd h hs) id
  | runnerDrop hh hs => exact hx.of_frame (fun h => absurd h hs) id
  | callerDrop => exact hx.of_frame id fun _ => rfl

/-- A session that has ended stays so, and the lock is taken while it is free. -/
theorem step_frame (h : x.step relayCap free a = some y) :
    (x.live = false → y.live = false) ∧ (y.holdsRunner = true → x.holdsRunner = true ∨ free = true) := by
  cases move_of_step h with
  | lock hp hf => simp [live,hp,hf]
  | accept hp => simp [live,holdsRunner,hp]
  | refuse hp => simp [live,holdsRunner]
  | relay hy =>
    cases hy with
    | receive hp hq => simp [live,holdsRunner,hp]
    | close hp hq hs => simp [live,holdsRunner]
    | fail hp hg => simp [live,holdsRunner]
    | pass hp hg => simp [live,holdsRunner,hp]
  | _ => exact ⟨id,.inl⟩

/-- The three moments at which a session gives its slot back: the open error, the receive
that finds the relay drained and without a sender, and the first send to a caller that is
gone. -/
def Due (x : RelaySession α) (a : RelayStep α) : Prop :=
  (∃ e, a = .opened (.error e) ∧ x.phase = .opening) ∨
  (a = .relay ∧ (x.phase = .receiving ∧ x.queue = [] ∧ x.senders = 0 ∨
    ∃ msg, x.phase = .sending msg ∧ x.gone = true))

theorem Due.step (h : x.Due a) (relayCap : ℕ) (free : Bool) :
    x.live = true ∧ ∃ y, x.step relayCap free a = some y ∧ y.live = false := by
  rcases h with ⟨e,rfl,hp⟩ | ⟨rfl,⟨hp,hq,hs⟩ | ⟨msg,hp,hg⟩⟩
  · refine ⟨by simp [live,hp],{ x with
      phase := .ended (.openError e), released := x.released+1, admission := some (.error e) },?_,rfl⟩
    simp only [RelaySession.step,hp]
  · refine ⟨by simp [live,hp],{ x with phase := .ended .closed, released := x.released+1 },?_,rfl⟩
    simp only [RelaySession.step,relay,hp,hq,if_pos hs]
  · refine ⟨by simp [live,hp],{ x with
      phase := .ended .callerGone, lateSends := x.lateSends+1, released := x.released+1 },?_,rfl⟩
    simp only [RelaySession.step,relay,hp,if_pos hg]

theorem due_of_step (h : x.step relayCap free a = some y) (hx : x.live = true) (hy : y.live = false) :
    x.Due a := by
  cases move_of_step h with
  | lock hp hf => exact nomatch hy
  | accept hp => exact nomatch hy
  | refuse hp => exact .inl ⟨_,rfl,hp⟩
  | relay hmove =>
    cases hmove with
    | receive hp hq => exact nomatch hy
    | close hp hq hs => exact .inr ⟨rfl,.inl ⟨hp,hq,hs⟩⟩
    | fail hp hg => exact .inr ⟨rfl,.inr ⟨_,hp,hg⟩⟩
    | pass hp hg => exact nomatch hy
  -- the runner and the caller leave the phase alone
  | _ => exact nomatch hx.symm.trans hy

end RelaySession

structure RealtimeEngine (α : Type) where
  inFlight : ℕ := 0
  sessions : List (RelaySession α) := []
  /-- The sessions that were refused. -/
  refusals : List InferenceError := []

inductive RealtimeEngineAction (α : Type)
  | openSession
  | session (i : ℕ) (a : RelayStep α)

namespace RealtimeEngine

def tryAdmit (maxConcurrent inFlight : ℕ) : Except InferenceError ℕ :=
  RakkaInference.tryAdmit "realtime engine at capacity" maxConcurrent inFlight

def runnerFree (s : RealtimeEngine α) : Bool := s.sessions.all fun x => !x.holdsRunner

/-- The step of a session that ends it decrements the counter. -/
def step (maxConcurrent relayCap : ℕ) (s : RealtimeEngine α) :
    RealtimeEngineAction α → Option (RealtimeEngine α)
  | .openSession =>
    match tryAdmit maxConcurrent s.inFlight with
    | .error e => some { s with refusals := s.refusals++[e] }
    | .ok n => some { s with inFlight := n, sessions := s.sessions++[{}] }
  | .session i a => do
    let x ← s.sessions[i]?
    let y ← x.step relayCap s.runnerFree a
    some { s with
      inFlight := if x.live && !y.live then s.inFlight-1 else s.inFlight
      sessions := s.sessions.set i y }

variable {s t : RealtimeEngine α} {cap relayCap : ℕ} {a : RealtimeEngineAction α}

/-- The slots in use are the sessions that are opening or relaying, and every session keeps
its own law. -/
structure Law (cap relayCap : ℕ) (s : RealtimeEngine α) : Prop where
  inFlight_eq : s.inFlight = s.sessions.countP RelaySession.live
  inFlight_le : s.inFlight ≤ cap
  exclusive : s.sessions.countP RelaySession.holdsRunner ≤ 1
  session : ∀ x ∈ s.sessions, x.Law relayCap

/-- A session ends when it is due, and only then; the slot that it gives back was its own.
A refused session leaves nothing. -/
structure StepLaw (cap relayCap : ℕ) (s : RealtimeEngine α) (a : RealtimeEngineAction α) : Prop where
  ends : ∀ i b x y, a = .session i b → s.sessions[i]? = some x → x.step relayCap s.runnerFree b = some y →
    x.live = true → y.live = false → x.Due b ∧ 0 < s.inFlight
  frees : ∀ i b x, a = .session i b → s.sessions[i]? = some x → x.Due b →
    ∃ t, step cap relayCap s a = some t ∧ t.inFlight+1 = s.inFlight
  refused : a = .openSession → cap ≤ s.inFlight →
    step cap relayCap s a = some { s with refusals := s.refusals++[.backpressure "realtime engine at capacity"] }

theorem Law.init (cap relayCap : ℕ) : Law cap relayCap ({} : RealtimeEngine α) where
  inFlight_eq := rfl
  inFlight_le := Nat.zero_le _
  exclusive := Nat.zero_le _
  session := by simp

theorem Law.counted (h : Law cap relayCap s) : Counted cap RelaySession.live s.inFlight s.sessions :=
  ⟨h.inFlight_eq,h.inFlight_le⟩

/-- One session takes a step. -/
theorem Law.set (h : Law cap relayCap s) {i : ℕ} {b : RelayStep α} {x y : RelaySession α}
    (hx : s.sessions[i]? = some x) (hy : x.step relayCap s.runnerFree b = some y) :
    Law cap relayCap { s with
      inFlight := if x.live && !y.live then s.inFlight-1 else s.inFlight
      sessions := s.sessions.set i y } := by
  obtain ⟨hlive,hlock⟩ := RelaySession.step_frame hy
  have hnext : Counted cap RelaySession.live (if x.live && !y.live then s.inFlight-1 else s.inFlight)
      (s.sessions.set i y) := by
    cases hxl : x.live with
    | false =>
      simp only [Bool.false_and,Bool.false_eq_true,if_false]
      exact h.counted.update hx ((hlive hxl).trans hxl.symm)
    | true =>
      cases hyl : y.live with
      | false => exact (h.counted.release hx hxl hyl).2
      | true => exact h.counted.update hx (hyl.trans hxl.symm)
  exact
    { inFlight_eq := hnext.eq
      inFlight_le := hnext.le
      exclusive := countP_set_le_one h.exclusive hx fun hyh => (hlock hyh).imp_right List.all_eq_true.mp
      session := all_of_set h.session ((h.session x (List.mem_of_getElem? hx)).step hy) }

theorem Law.step (h : Law cap relayCap s) (hstep : RealtimeEngine.step cap relayCap s a = some t) :
    Law cap relayCap t := by
  cases a with
  | openSession =>
    simp only [RealtimeEngine.step] at hstep
    split at hstep
    case h_1 e he =>
      obtain rfl := Option.some.inj hstep
      exact { h with }
    case h_2 n hn =>
      obtain rfl := Option.some.inj hstep
      obtain ⟨hroom,rfl⟩ := tryAdmit_eq_ok_iff.mp hn
      have hnext := h.counted.take hroom (x := ({} : RelaySession α)) rfl
      exact
        { inFlight_eq := hnext.eq
          inFlight_le := hnext.le
          exclusive := by
            rw [List.countP_append]
            exact h.exclusive
          session := all_of_snoc h.session (RelaySession.Law.fresh relayCap) }
  | session i b =>
    simp only [RealtimeEngine.step,Option.bind_eq_bind,Option.bind_eq_some_iff,Option.some.injEq] at hstep
    obtain ⟨x,hx,y,hy,rfl⟩ := hstep
    exact h.set hx hy

theorem Law.stepLaw (h : Law cap relayCap s) (a : RealtimeEngineAction α) : StepLaw cap relayCap s a where
  ends := by
    intro i b x y _ hx hst hxl hyl
    exact ⟨RelaySession.due_of_step hst hxl hyl,(h.counted.release hx hxl hyl).1⟩
  frees := by
    rintro i b x rfl hx hdue
    obtain ⟨hxl,y,hy,hyl⟩ := hdue.step relayCap s.runnerFree
    have hpos := (h.counted.release hx hxl hyl).1
    refine ⟨{ s with inFlight := s.inFlight-1, sessions := s.sessions.set i y },?_,?_⟩
    · simp [RealtimeEngine.step,hx,hy,hxl,hyl]
    · exact Nat.sub_add_cancel hpos
  refused := by
    rintro rfl hfull
    simp only [RealtimeEngine.step,tryAdmit,RakkaInference.tryAdmit,if_pos hfull]

end RealtimeEngine
end RakkaInference
