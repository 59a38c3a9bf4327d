import RakkaInference.Core.Audio
import RakkaInference.Core.Request
import RakkaInference.Machine.Runs
import RakkaInference.Machine.Slots

/-! The session adapter of the Gemini Live runner. The downlink runs inside the adapter and
ends with it; the uplink is a task of its own that the adapter spawns when it is first
polled, with a clone of the outbound sender and the sending half of the socket. -/
namespace RakkaInference.GeminiLive
open Machine

/-- The payloads that are sent to the server. -/
inductive ClientPayload
  | turn (text : String)
  | turnComplete
  | mediaChunk (mimeType data : String)

def ClientPayload.toJson : ClientPayload → Json
  | .turn text => .object [("clientContent",.object
      [("turns",.array [.object [("role",.string "user"),("parts",.array
        [.object [("text",.string text)]])]]),("turnComplete",.bool true)])]
  | .turnComplete => .object [("clientContent",.object [("turnComplete",.bool true)])]
  | .mediaChunk mimeType data => .object [("realtimeInput",.object [("mediaChunks",.array
      [.object [("mimeType",.string mimeType),("data",.string data)]])])]

structure ModelPart where
  /-- The data of the inline blob. -/
  inlineData : Option String := none
  text : Option String := none

structure ServerContent where
  modelTurn : Option (List ModelPart) := none
  turnComplete : Option Bool := none

inductive Inbound
  | setupComplete
  | serverContent (sc : ServerContent)
  | toolCall
  | other

/-- The JSON and base64 libraries, as the adapter uses them. -/
structure Codec where
  toStr : Json → Option String
  value : String → Option Json
  fromStr : String → Option Inbound
  encode : List UInt8 → String
  decode : String → Option (List UInt8)

/-- `val.get("error").is_some()`, where the text parses. -/
def Codec.hasError (c : Codec) (text : String) : Bool :=
  match c.value text with
  | some (.object fields) => fields.any fun field => field.1 == "error"
  | _ => false

def partOuts (c : Codec) (part : ModelPart) : List RealtimeOut :=
  (match part.inlineData.bind c.decode with
    | some pcm => [.audioFrame pcm ⟨24000,1,.pcm16Le⟩]
    | none => [])++
  match part.text with
  | some text => [.transcript .assistant text false]
  | none => []

/-- The messages of a model turn, in order. -/
def contentOuts (c : Codec) (sc : ServerContent) : List RealtimeOut :=
  (sc.modelTurn.getD []).flatMap (partOuts c)

/-- The signal that closes a turn. -/
def turnSignal (sc : ServerContent) : Option RealtimeOut :=
  if sc.turnComplete = some true then some (.transcript .assistant "" true) else none

inductive DownlinkPhase
  | receiving
  /-- At the send of a part; if it fails, the task returns. -/
  | emitting (out : RealtimeOut) (rest : List RealtimeOut) (signal : Option RealtimeOut)
  /-- At the send of the turn signal, whose failure is ignored. -/
  | signalling (out : RealtimeOut)
  /-- At the send of an error, whose failure is ignored; then the loop is left. -/
  | failing (e : InferenceError)
  /-- At the send of `Done`. -/
  | finishing

def DownlinkPhase.emit : List RealtimeOut → Option RealtimeOut → DownlinkPhase
  | out::rest,signal => .emitting out rest signal
  | [],some out => .signalling out
  | [],none => .receiving

inductive AdapterPhase
  | unpolled
  | running (downlink : DownlinkPhase)
  | ended

inductive UplinkPhase
  | unspawned
  | receiving
  /-- At `tx.send`. -/
  | forwarding
  /-- At the send of an error on the outbound channel. -/
  | reporting (e : InferenceError)
  | ended

def UplinkPhase.alive : UplinkPhase → Bool
  | .unspawned | .ended => false
  | _ => true

/-- A frame that was handed to the socket, and whether the adapter had ended by then. -/
structure Forwarded where
  frame : Ws.Frame
  afterEnd : Bool

structure Session where
  adapter : AdapterPhase := .unpolled
  uplink : UplinkPhase := .unspawned
  /-- The receiver of the outbound channel was dropped. -/
  gone : Bool := false
  forwarded : List Forwarded := []
  /-- What was put on the outbound channel. -/
  outbound : List RealtimeOut := []

inductive SessionAction
  /-- The adapter is polled for the first time. -/
  | poll
  /-- `RealtimeSession::cancel`. -/
  | cancel
  /-- `inbound.recv()` returns in the uplink. -/
  | inbound (msg : Option RealtimeIn)
  /-- `tx.send` returns. -/
  | wsSend (ok : Bool)
  /-- The uplink's send on the outbound channel returns. -/
  | uplinkSend
  /-- `rx.next()` returns in the downlink. -/
  | server (frame : Ws.Received)
  /-- The downlink's send on the outbound channel returns. -/
  | downlinkSend
  | dropReceiver

/-- The message that the downlink is sending. -/
def DownlinkPhase.message : DownlinkPhase → Option RealtimeOut
  | .receiving => none
  | .emitting out _ _ => some out
  | .signalling out => some out
  | .failing e => some (.error e)
  | .finishing => some .done

/-- Where its send leaves the adapter. -/
def DownlinkPhase.after (gone : Bool) : DownlinkPhase → AdapterPhase
  | .emitting _ rest signal => if gone then .ended else .running (.emit rest signal)
  | .receiving | .signalling _ => .running .receiving
  | .failing _ => .running .finishing
  | .finishing => .ended

theorem DownlinkPhase.after_ne_unpolled (d : DownlinkPhase) (gone : Bool) : d.after gone ≠ .unpolled := by
  cases d with
  | emitting out rest signal => cases gone <;> simp [after]
  | _ => simp [after]

theorem DownlinkPhase.after_eq_ended_iff {gone : Bool} {d : DownlinkPhase} :
    d.after gone = .ended ↔ d = .finishing ∨ gone = true ∧ ∃ out rest signal, d = .emitting out rest signal := by
  cases d with
  | emitting out rest signal => cases gone <;> simp [after]
  | _ => simp [after]

namespace Session

def ended (s : Session) : Bool :=
  match s.adapter with
  | .ended => true
  | _ => false

/-- The senders of the outbound channel that the runtime holds. -/
def senders (s : Session) : ℕ := (if s.ended then 0 else 1)+if s.uplink.alive then 1 else 0

/-- Put a message on the outbound channel; nothing happens when the receiver is gone. -/
def put (s : Session) (out : RealtimeOut) : Session :=
  if s.gone then s else { s with outbound := s.outbound++[out] }

/-- Send a payload to the server, if it serialises. -/
def forward (c : Codec) (s : Session) (payload : ClientPayload) : Session :=
  match c.toStr payload.toJson with
  | some json => { s with uplink := .forwarding, forwarded := s.forwarded++[⟨.text json,s.ended⟩] }
  | none => s

/-- One round of the uplink. -/
def uplinkTask (c : Codec) (s : Session) : Option RealtimeIn → Session
  | none => { s with uplink := .ended }
  | some (.text text) => s.forward c (.turn text)
  | some (.audioFrame pcm params) =>
    if params.format ≠ .pcm16Le then
      { s with uplink := .reporting (.unsupportedAudioFormat
          s!"Gemini Live requires Pcm16Le; got {params.format.debug}") }
    else s.forward c (.mediaChunk s!"audio/pcm;rate={params.sampleRateHz}" (c.encode pcm))
  | some .commit => s.forward c .turnComplete
  | some .interrupt => { s with uplink := .reporting (.unsupported "interrupt" .realtimeSpeech) }
  | some .close => { s with uplink := .ended }

/-- What the downlink does with what the socket returns. -/
def downlinkTask (c : Codec) : Ws.Received → DownlinkPhase
  | .ok (some (.text text)) =>
    if c.hasError text then .failing (.serverError 500 (some text))
    else match c.fromStr text with
      | some (.serverContent sc) => .emit (contentOuts c sc) (turnSignal sc)
      | _ => .receiving
  | .ok (some (.close _ _)) | .ok none => .finishing
  | .ok (some _) => .receiving
  | .error e => .failing (.networkError s!"gemini live ws recv: {e}")

/-- A send of the downlink returns. -/
def downlinkSend (s : Session) : DownlinkPhase → Option Session
  | .receiving => none
  | .emitting out rest signal =>
    if s.gone then some { s with adapter := .ended }
    else some { s.put out with adapter := .running (.emit rest signal) }
  | .signalling out => some { s.put out with adapter := .running .receiving }
  | .failing e => some { s.put (.error e) with adapter := .running .finishing }
  | .finishing => some { s.put .done with adapter := .ended }

def step (c : Codec) (s : Session) : SessionAction → Option Session
  | .poll =>
    match s.adapter with
    | .unpolled => some { s with adapter := .running .receiving, uplink := .receiving }
    | _ => none
  -- the uplink is not part of the future that is aborted
  | .cancel => some { s with adapter := .ended }
  | .inbound msg =>
    match s.uplink with
    | .receiving => some (s.uplinkTask c msg)
    | _ => none
  | .wsSend ok =>
    match s.uplink with
    | .forwarding => some { s with uplink := if ok then .receiving else .ended }
    | _ => none
  | .uplinkSend =>
    match s.uplink with
    | .reporting e => some { s.put (.error e) with uplink := .ended }
    | _ => none
  | .server frame =>
    match s.adapter with
    | .running .receiving => some { s with adapter := .running (downlinkTask c frame) }
    | _ => none
  | .downlinkSend =>
    match s.adapter with
    | .running d => s.downlinkSend d
    | _ => none
  | .dropReceiver => some { s with gone := true }

variable {c : Codec} {s t : Session} {a : SessionAction}

/-- Everything that an action can do. -/
inductive Move (c : Codec) (s : Session) : SessionAction → Session → Prop
  | poll (hp : s.adapter = .unpolled) :
      Move c s .poll { s with adapter := .running .receiving, uplink := .receiving }
  | cancel : Move c s .cancel { s with adapter := .ended }
  | inbound {msg : Option RealtimeIn} (hu : s.uplink = .receiving) :
      Move c s (.inbound msg) (s.uplinkTask c msg)
  | wsSend {ok : Bool} (hu : s.uplink = .forwarding) :
      Move c s (.wsSend ok) { s with uplink := if ok then .receiving else .ended }
  | uplinkSend {e : InferenceError} (hu : s.uplink = .reporting e) :
      Move c s .uplinkSend { s.put (.error e) with uplink := .ended }
  | server {frame : Ws.Received} (hd : s.adapter = .running .receiving) :
      Move c s (.server frame) { s with adapter := .running (downlinkTask c frame) }
  | downlinkSend {d : DownlinkPhase} {t : Session} (hd : s.adapter = .running d)
      (hsend : s.downlinkSend d = some t) : Move c s .downlinkSend t
  | dropReceiver : Move c s .dropReceiver { s with gone := true }

theorem move_of_step (h : step c s a = some t) : Move c s a t := by
  revert h
  fun_cases step c s a
  case case12 d hd => exact .downlinkSend hd
  all_goals rintro ⟨⟩
  case case1 hp => exact .poll hp
  case case3 => exact .cancel
  case case4 msg hu => exact .inbound hu
  case case6 ok hu => exact .wsSend hu
  case case8 e hu => exact .uplinkSend hu
  case case10 frame hd => exact .server hd
  case case14 => exact .dropReceiver

@[simp] theorem put_adapter (s : Session) (out : RealtimeOut) : (s.put out).adapter = s.adapter := by
  unfold put
  split <;> rfl

@[simp] theorem put_uplink (s : Session) (out : RealtimeOut) : (s.put out).uplink = s.uplink := by
  unfold put
  split <;> rfl

@[simp] theorem put_gone (s : Session) (out : RealtimeOut) : (s.put out).gone = s.gone := by
  unfold put
  split <;> rfl

@[simp] theorem put_forwarded (s : Session) (out : RealtimeOut) : (s.put out).forwarded = s.forwarded := by
  unfold put
  split <;> rfl

/-- The uplink leaves the adapter and the outbound channel alone, and hands at most one
frame to the socket. -/
theorem uplinkTask_frame (c : Codec) (s : Session) (msg : Option RealtimeIn) :
    (s.uplinkTask c msg).adapter = s.adapter ∧ (s.uplinkTask c msg).gone = s.gone ∧
    (s.uplinkTask c msg).outbound = s.outbound ∧
    ((s.uplinkTask c msg).forwarded = s.forwarded ∨
      ∃ frame, (s.uplinkTask c msg).forwarded = s.forwarded++[⟨frame,s.ended⟩]) := by
  have hforward : ∀ payload, (s.forward c payload).adapter = s.adapter ∧
      (s.forward c payload).gone = s.gone ∧ (s.forward c payload).outbound = s.outbound ∧
      ((s.forward c payload).forwarded = s.forwarded ∨
        ∃ frame, (s.forward c payload).forwarded = s.forwarded++[⟨frame,s.ended⟩]) := by
    intro payload
    unfold forward
    split
    · exact ⟨rfl,rfl,rfl,.inr ⟨_,rfl⟩⟩
    · exact ⟨rfl,rfl,rfl,.inl rfl⟩
  fun_cases uplinkTask c s msg
  all_goals first | exact hforward _ | exact ⟨rfl,rfl,rfl,.inl rfl⟩

theorem ended_iff : s.ended = true ↔ s.adapter = .ended := by
  unfold ended
  split <;> simp_all

/-- What a send of the downlink does: it puts its message, and the adapter goes on. -/
theorem downlinkSend_eq_some_iff {d : DownlinkPhase} :
    s.downlinkSend d = some t ↔ ∃ out, d.message = some out ∧ t = { s.put out with adapter := d.after s.gone } := by
  cases d with
  | receiving => simp [downlinkSend,DownlinkPhase.message]
  | emitting out rest signal =>
    cases hg : s.gone with
    | true => simp [downlinkSend,DownlinkPhase.message,DownlinkPhase.after,put,hg,eq_comm]
    | false => simp [downlinkSend,DownlinkPhase.message,DownlinkPhase.after,hg,eq_comm]
  | signalling out => simp [downlinkSend,DownlinkPhase.message,DownlinkPhase.after,eq_comm]
  | failing e => simp [downlinkSend,DownlinkPhase.message,DownlinkPhase.after,eq_comm]
  | finishing => simp [downlinkSend,DownlinkPhase.message,DownlinkPhase.after,eq_comm]

/-- When the adapter has ended, no sender of the outbound channel is left and no message of
the caller has been forwarded since. -/
def Law (s : Session) : Prop :=
  (s.ended = true → s.senders = 0) ∧ ∀ e ∈ s.forwarded, e.afterEnd = false

/-- A step that ends the adapter: the cancellation, the last send of the downlink, and a
send of it that finds the receiver gone. -/
def Ends (s : Session) : SessionAction → Prop
  | .cancel => s.ended = false
  | .downlinkSend => s.adapter = .running .finishing ∨
      s.gone = true ∧ ∃ out rest signal, s.adapter = .running (.emitting out rest signal)
  | _ => False

/-- The uplink is over, or was never spawned, by the time the adapter ends. -/
def UplinkOver (s : Session) (a : SessionAction) : Prop := Ends s a → s.uplink.alive = false

structure Kept (s : Session) : Prop where
  uplink : s.ended = true → s.uplink.alive = false
  forwarded : ∀ e ∈ s.forwarded, e.afterEnd = false

theorem Kept.law (h : Kept s) : s.Law := by
  refine ⟨?_,h.forwarded⟩
  intro he
  simp [senders,he,h.uplink he]

/-- A step in which the uplink can only end, and the adapter ends after it. -/
theorem Kept.of_frame (h : Kept s) (hforwarded : t.forwarded = s.forwarded)
    (huplink : t.ended = true → t.uplink.alive = false) : Kept t :=
  ⟨huplink,hforwarded ▸ h.forwarded⟩

/-- An uplink that is alive has an adapter that has not ended. -/
theorem Kept.running (h : Kept s) (hu : s.uplink.alive = true) : s.ended = false := by
  by_contra he
  rw [h.uplink (by simpa using he)] at hu
  exact nomatch hu

theorem Kept.uplinkTask (h : Kept s) (hu : s.uplink = .receiving) (c : Codec) (msg : Option RealtimeIn) :
    Kept (s.uplinkTask c msg) := by
  obtain ⟨hadapter,-,-,hforwarded⟩ := uplinkTask_frame c s msg
  have hlive : s.ended = false := h.running (by rw [hu]; rfl)
  have hended : (s.uplinkTask c msg).ended = false := by
    unfold ended at hlive ⊢
    rw [hadapter]
    exact hlive
  constructor
  · intro he
    rw [hended] at he
    exact nomatch he
  · rcases hforwarded with heq | ⟨frame,heq⟩
    · rw [heq]
      exact h.forwarded
    · rw [heq]
      exact all_of_snoc h.forwarded hlive

theorem Kept.step (h : Kept s) (ha : UplinkOver s a) (hstep : Session.step c s a = some t) : Kept t := by
  cases move_of_step hstep with
  | poll hp => exact h.of_frame rfl fun he => nomatch he
  | cancel =>
    refine h.of_frame rfl fun _ => ?_
    cases he : s.ended with
    | true => exact h.uplink he
    | false => exact ha he
  | @inbound msg hu => exact h.uplinkTask hu c msg
  | wsSend hu =>
    have hlive : s.ended = false := h.running (by rw [hu]; rfl)
    exact h.of_frame rfl fun he => nomatch hlive.symm.trans he
  | uplinkSend hu => exact h.of_frame (put_forwarded s _) fun _ => rfl
  | server hd => exact h.of_frame rfl fun he => nomatch he
  | downlinkSend hd hsend =>
    obtain ⟨out,-,rfl⟩ := downlinkSend_eq_some_iff.mp hsend
    refine h.of_frame (put_forwarded s out) fun he => ?_
    rw [put_uplink]
    apply ha
    rcases DownlinkPhase.after_eq_ended_iff.mp (ended_iff.mp he) with rfl | ⟨hg,out,rest,signal,rfl⟩
    · exact .inl hd
    · exact .inr ⟨hg,out,rest,signal,hd⟩
  | dropReceiver => exact ⟨h.uplink,h.forwarded⟩

/-- An adapter that ends before its uplink leaves a sender behind. -/
theorem not_law_of_not_uplinkOver (ha : ¬ UplinkOver s a) (hstep : Session.step c s a = some t) :
    ¬ t.Law := by
  obtain ⟨hends,halive⟩ : Ends s a ∧ s.uplink.alive = true := by simpa [UplinkOver] using ha
  suffices hleft : t.ended = true ∧ t.uplink = s.uplink by
    intro hlaw
    have := hlaw.1 hleft.1
    simp [senders,hleft,halive] at this
  cases move_of_step hstep with
  | cancel => exact ⟨rfl,rfl⟩
  | downlinkSend hd hsend =>
    obtain ⟨out,-,rfl⟩ := downlinkSend_eq_some_iff.mp hsend
    refine ⟨ended_iff.mpr (DownlinkPhase.after_eq_ended_iff.mpr ?_),put_uplink s out⟩
    simpa [Ends,hd] using hends
  | _ => exact hends.elim

/-- A session lets go of everything with its adapter exactly when the uplink is over by
itself before the adapter ends. -/
theorem session_released_iff (c : Codec) {as : List SessionAction} {t : Session}
    (h : exec (step c) {} as = some t) :
    Always (step c) Law {} as ↔ Throughout (step c) UplinkOver {} as :=
  always_iff_throughout (J := Kept) (fun _ hs => hs.law) (fun _ _ _ hs ha hst => hs.step ha hst)
    (fun _ _ _ _ ha hst => not_law_of_not_uplinkOver ha hst)
    ⟨(fun he => nomatch he),fun _ he => nomatch he⟩ h

/-- A codec for an empty turn and an empty error. -/
def turnCodec : Codec where
  toStr
    | .object [("clientContent",.object [("turnComplete",.bool true)])] =>
      some "\x7b\"clientContent\":\x7b\"turnComplete\":true\x7d\x7d"
    | _ => none
  value s := if s = "\x7b\"error\":\x7b\x7d\x7d" then some (.object [("error",.object [])]) else none
  fromStr _ := none
  encode _ := ""
  decode _ := none

/-- The caller closes, and then the socket does. -/
theorem session_released_after_close :
    Always (step turnCodec) Law {} [.poll,.inbound (some .close),.server (.ok none),.downlinkSend] := by
  have hrun : ∃ t, exec (step turnCodec) {} [.poll,.inbound (some .close),.server (.ok none),
      .downlinkSend] = some t := ⟨_,rfl⟩
  obtain ⟨t,ht⟩ := hrun
  apply (session_released_iff turnCodec ht).mpr
  simp [Throughout,UplinkOver,Ends,step,uplinkTask,UplinkPhase.alive,downlinkTask]

/-- A cancelled session keeps a sender and goes on forwarding what the caller says. -/
theorem cancelled_session_forwards :
    ∃ s, exec (step turnCodec) {} [.poll,.cancel,.inbound (some .commit),.wsSend true] = some s ∧
      s.ended = true ∧ s.senders = 1 ∧
      s.forwarded = [⟨.text "\x7b\"clientContent\":\x7b\"turnComplete\":true\x7d\x7d",true⟩] ∧ ¬ s.Law := by
  refine ⟨_,rfl,rfl,rfl,rfl,?_⟩
  intro hlaw
  exact nomatch hlaw.1 rfl

end Session
end RakkaInference.GeminiLive
