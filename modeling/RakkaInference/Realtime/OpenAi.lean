import RakkaInference.Core.Audio
import RakkaInference.Core.Request
import RakkaInference.Machine.Runs
import RakkaInference.Machine.Slots

/-! The session adapter of the OpenAI realtime runner: one task that selects between the
caller's messages and the frames of the socket. Its handling of one event may wait for the
socket or for the outbound channel, and selects again when it is through. -/
namespace RakkaInference.OpenAiRealtime
open Machine

/-- The events that are sent to the provider. -/
inductive ClientEvent
  | inputAudioAppend (audio : String)
  | inputAudioCommit
  | responseCancel
  | conversationItemCreate (text : String)
  | responseCreate

def ClientEvent.toJson : ClientEvent → Json
  | .inputAudioAppend audio => .object
      [("type",.string "input_audio_buffer.append"),("audio",.string audio)]
  | .inputAudioCommit => .object [("type",.string "input_audio_buffer.commit")]
  | .responseCancel => .object [("type",.string "response.cancel")]
  | .conversationItemCreate text => .object
      [("type",.string "conversation.item.create"),("item",.object
        [("type",.string "message"),("role",.string "user"),("content",.array
          [.object [("type",.string "input_text"),("text",.string text)]])])]
  | .responseCreate => .object [("type",.string "response.create")]

/-- The events that the provider sends. -/
inductive InboundEvent
  | responseAudioDelta (delta : String)
  | responseAudioTranscriptDelta (delta : String)
  | responseAudioTranscriptDone (transcript : String)
  | inputAudioTranscriptionCompleted (transcript : String)
  | responseDone
  | error (message : String)
  | other

/-- The JSON and base64 libraries, as the adapter uses them. -/
structure Codec where
  toStr : Json → Option String
  fromStr : String → Option InboundEvent
  encode : List UInt8 → String
  decode : String → Option (List UInt8)

def realtimeOutParams : AudioParams := ⟨24000,1,.pcm16Le⟩

def classifyRealtimeError (errorBody : Option String) : InferenceError := .serverError 500 errorBody

def Codec.frame (c : Codec) (ev : ClientEvent) : List Ws.Frame :=
  match c.toStr ev.toJson with
  | some s => [.text s]
  | none => []

def translateInboundToFrames (c : Codec) : RealtimeIn → List Ws.Frame
  | .audioFrame pcm _ => c.frame (.inputAudioAppend (c.encode pcm))
  | .text text =>
    match c.toStr (ClientEvent.conversationItemCreate text).toJson,
        c.toStr ClientEvent.responseCreate.toJson with
    | some item,some resp => [.text item,.text resp]
    | _,_ => []
  | .commit => c.frame .inputAudioCommit
  | .interrupt => c.frame .responseCancel
  | .close => []

def translateOutbound (c : Codec) (params : AudioParams) : InboundEvent → Option RealtimeOut
  | .responseAudioDelta delta => (c.decode delta).map fun pcm => .audioFrame pcm params
  | .responseAudioTranscriptDelta delta => some (.transcript .assistant delta false)
  | .responseAudioTranscriptDone transcript => some (.transcript .assistant transcript true)
  | .inputAudioTranscriptionCompleted transcript => some (.transcript .user transcript true)
  | .responseDone => some .done
  | .error message => some (.error (classifyRealtimeError (some message)))
  | .other => none

/-- What a text frame of the socket makes the adapter send to the caller. -/
def outOfText (c : Codec) (text : String) : Option RealtimeOut :=
  (c.fromStr text).bind (translateOutbound c realtimeOutParams)

inductive AdapterPhase
  | selecting
  /-- At `sink.send`, with the frames of the message that are still to come. -/
  | uploading (rest : List Ws.Frame)
  /-- At `sink.send` of the close frame. -/
  | closing
  /-- At `outbound.send`. -/
  | delivering (out : RealtimeOut)
  | ended

/-- A frame that was handed to the socket, and what had happened by then. -/
structure SentFrame where
  frame : Ws.Frame
  /-- A send on the outbound channel or on the socket had failed. -/
  afterFailure : Bool
  /-- The receiver of the outbound channel was dropped, and with it the slot of the session. -/
  afterDrop : Bool

structure Adapter where
  phase : AdapterPhase := .selecting
  /-- The receiver of the outbound channel was dropped. -/
  gone : Bool := false
  outboundFailed : Bool := false
  sinkFailed : Bool := false
  sent : List SentFrame := []
  /-- What was put on the outbound channel. -/
  outbound : List RealtimeOut := []

inductive AdapterAction
  /-- `inbound.recv()` returns. -/
  | inbound (msg : Option RealtimeIn)
  /-- `stream.next()` returns. -/
  | server (frame : Ws.Received)
  /-- `sink.send` returns. -/
  | sinkSend (ok : Bool)
  /-- `outbound.send` returns. -/
  | outboundSend
  | dropReceiver
  /-- The abort handle is used. -/
  | cancel

namespace Adapter

/-- Call `sink.send` with a frame. -/
def hand (s : Adapter) (phase : AdapterPhase) (frame : Ws.Frame) : Adapter :=
  { s with phase := phase, sent := s.sent++[⟨frame,s.outboundFailed || s.sinkFailed,s.gone⟩] }

/-- The loop over the frames of a message. -/
def upload (s : Adapter) : List Ws.Frame → Adapter
  | [] => { s with phase := .selecting }
  | frame::rest => s.hand (.uploading rest) frame

def receive (c : Codec) (s : Adapter) : Ws.Received → Adapter
  | .error _ | .ok none => { s with phase := .ended }
  | .ok (some (.text text)) =>
    match outOfText c text with
    | some out => { s with phase := .delivering out }
    | none => s
  | .ok (some (.close _ _)) => { s with phase := .ended }
  | .ok (some _) => s

def step (c : Codec) (s : Adapter) (a : AdapterAction) : Option Adapter :=
  match s.phase,a with
  | .selecting,.inbound none | .selecting,.inbound (some .close) =>
    some (s.hand .closing (.close 1000 ""))
  | .selecting,.inbound (some msg) => some (s.upload (translateInboundToFrames c msg))
  | .selecting,.server frame => some (s.receive c frame)
  | .uploading rest,.sinkSend true => some (s.upload rest)
  -- the failure breaks out of the loop over the frames, not out of the select loop
  | .uploading _,.sinkSend false => some { s with phase := .selecting, sinkFailed := true }
  | .closing,.sinkSend ok => some { s with phase := .ended, sinkFailed := s.sinkFailed || !ok }
  | .delivering out,.outboundSend =>
    if s.gone then some { s with phase := .selecting, outboundFailed := true }
    else some { s with phase := .selecting, outbound := s.outbound++[out] }
  | _,.dropReceiver => some { s with gone := true }
  | _,.cancel => some { s with phase := .ended }
  | _,_ => none

variable {c : Codec} {s t : Adapter} {a : AdapterAction}

/-- Everything that an action can do. -/
inductive Move (c : Codec) (s : Adapter) : AdapterAction → Adapter → Prop
  | close {msg : Option RealtimeIn} (hp : s.phase = .selecting) (hmsg : msg = none ∨ msg = some .close) :
      Move c s (.inbound msg) (s.hand .closing (.close 1000 ""))
  | take {msg : RealtimeIn} (hp : s.phase = .selecting) (hmsg : msg ≠ .close) :
      Move c s (.inbound (some msg)) (s.upload (translateInboundToFrames c msg))
  | receive {frame : Ws.Received} (hp : s.phase = .selecting) :
      Move c s (.server frame) (s.receive c frame)
  | sent {rest : List Ws.Frame} (hp : s.phase = .uploading rest) :
      Move c s (.sinkSend true) (s.upload rest)
  | sendFailed {rest : List Ws.Frame} (hp : s.phase = .uploading rest) :
      Move c s (.sinkSend false) { s with phase := .selecting, sinkFailed := true }
  | closed {ok : Bool} (hp : s.phase = .closing) :
      Move c s (.sinkSend ok) { s with phase := .ended, sinkFailed := s.sinkFailed || !ok }
  | lost {out : RealtimeOut} (hp : s.phase = .delivering out) (hg : s.gone = true) :
      Move c s .outboundSend { s with phase := .selecting, outboundFailed := true }
  | delivered {out : RealtimeOut} (hp : s.phase = .delivering out) (hg : s.gone = false) :
      Move c s .outboundSend { s with phase := .selecting, outbound := s.outbound++[out] }
  | dropReceiver : Move c s .dropReceiver { s with gone := true }
  | cancel : Move c s .cancel { s with phase := .ended }

theorem move_of_step (h : step c s a = some t) : Move c s a t := by
  revert h
  fun_cases step c s a
  all_goals rintro ⟨⟩
  case case1 hp => exact .close hp (.inl rfl)
  case case2 hp => exact .close hp (.inr rfl)
  case case3 msg hmsg hp => exact .take hp hmsg
  case case4 frame hp => exact .receive hp
  case case5 rest hp => exact .sent hp
  case case6 rest hp => exact .sendFailed hp
  case case7 ok hp => exact .closed hp
  case case8 out hp hg => exact .lost hp hg
  case case9 out hp hg => exact .delivered hp (by simpa using hg)
  case case10 => exact .dropReceiver
  case case11 => exact .cancel

/-- Frames that carry a caller's message are text frames. -/
theorem isClose_translateInbound (c : Codec) (msg : RealtimeIn) :
    ∀ f ∈ translateInboundToFrames c msg, f.isClose = false := by
  have hframe : ∀ ev, ∀ f ∈ c.frame ev, f.isClose = false := by
    intro ev f hf
    unfold Codec.frame at hf
    split at hf
    · obtain rfl := List.mem_singleton.mp hf
      rfl
    · exact nomatch hf
  cases msg with
  | audioFrame pcm params => exact hframe _
  | text text =>
    intro f hf
    simp only [translateInboundToFrames] at hf
    split at hf
    · simp only [List.mem_cons,List.not_mem_nil,or_false] at hf
      rcases hf with rfl | rfl <;> rfl
    · exact nomatch hf
  | commit => exact hframe _
  | interrupt => exact hframe _
  | close => exact fun f hf => nomatch hf

/-- After a failed send, and after the receiver is gone, nothing but a close frame is
handed to the socket. -/
def Law (s : Adapter) : Prop :=
  ∀ e ∈ s.sent, e.afterFailure = true ∨ e.afterDrop = true → e.frame.isClose = true

/-- Once the receiver is gone or the socket has failed, the caller sends nothing that is to
be uploaded; and the receiver does not go while a message is uploaded in parts. -/
def Quits (c : Codec) (s : Adapter) : AdapterAction → Prop
  | .inbound (some msg) => s.gone = true ∨ s.sinkFailed = true → translateInboundToFrames c msg = []
  | .sinkSend true => s.gone = true → ∀ rest, s.phase = .uploading rest → rest = []
  | _ => True

structure Kept (s : Adapter) : Prop where
  law : s.Law
  gone : s.outboundFailed = true → s.gone = true
  uploading : ∀ rest, s.phase = .uploading rest →
    (s.outboundFailed || s.sinkFailed) = false ∧ ∀ f ∈ rest, f.isClose = false

theorem Kept.init : Kept {} where
  law := fun _ he => nomatch he
  gone := fun h => nomatch h
  uploading := fun _ h => nomatch h

/-- A step that hands nothing to the socket and is not in the middle of a message. -/
theorem Kept.of_sent_eq (h : Kept s) (hsent : t.sent = s.sent)
    (hgone : t.outboundFailed = true → t.gone = true) (hphase : ∀ rest, t.phase ≠ .uploading rest) :
    Kept t where
  law := by
    unfold Law
    rw [hsent]
    exact h.law
  gone := hgone
  uploading := fun rest hp => absurd hp (hphase rest)

theorem Kept.upload (h : Kept s) {frames : List Ws.Frame}
    (hframes : ∀ f ∈ frames, f.isClose = false)
    (hcut : frames ≠ [] → (s.outboundFailed || s.sinkFailed) = false ∧ s.gone = false) :
    Kept (s.upload frames) := by
  cases frames with
  | nil => exact h.of_sent_eq rfl h.gone fun rest hp => nomatch hp
  | cons f rest =>
    obtain ⟨hfailed,hgone⟩ := hcut (List.cons_ne_nil _ _)
    constructor
    · apply all_of_snoc h.law
      rw [hfailed,hgone]
      rintro (h | h) <;> exact nomatch h
    · exact h.gone
    · intro rest' hp
      obtain rfl : rest = rest' := by simpa [Adapter.upload,hand] using hp
      exact ⟨hfailed,fun g hg => hframes g (List.mem_cons_of_mem _ hg)⟩

theorem receive_frame (c : Codec) (s : Adapter) (frame : Ws.Received) :
    (s.receive c frame).sent = s.sent ∧ (s.receive c frame).gone = s.gone ∧
    (s.receive c frame).outboundFailed = s.outboundFailed ∧
    (s.receive c frame).sinkFailed = s.sinkFailed ∧ (s.receive c frame).outbound = s.outbound ∧
    (s.phase = .selecting → ∀ rest, (s.receive c frame).phase ≠ .uploading rest) := by
  fun_cases receive c s frame
  all_goals simp_all

theorem Kept.step (h : Kept s) (ha : Quits c s a) (hstep : Adapter.step c s a = some t) : Kept t := by
  cases move_of_step hstep with
  | close hp hmsg => exact ⟨all_of_snoc h.law fun _ => rfl,h.gone,fun rest hp => nomatch hp⟩
  | @take msg hp hmsg =>
    apply h.upload (isClose_translateInbound c msg)
    intro hne
    have hopen : ¬ (s.gone = true ∨ s.sinkFailed = true) := fun hcut => hne (ha hcut)
    have hgone := h.gone
    cases hs : s.sinkFailed <;> cases ho : s.outboundFailed <;> simp_all
  | @receive frame hp =>
    obtain ⟨hsent,hgone,hout,-,-,hphase⟩ := receive_frame c s frame
    refine h.of_sent_eq hsent ?_ (hphase hp)
    rw [hgone,hout]
    exact h.gone
  | @sent rest hp =>
    obtain ⟨hfailed,hrest⟩ := h.uploading rest hp
    apply h.upload hrest
    intro hne
    refine ⟨hfailed,?_⟩
    by_contra hgone
    exact hne (ha (by simpa using hgone) rest hp)
  | sendFailed hp => exact h.of_sent_eq rfl h.gone fun rest hp => nomatch hp
  | closed hp => exact h.of_sent_eq rfl h.gone fun rest hp => nomatch hp
  | lost hp hg => exact h.of_sent_eq rfl (fun _ => hg) fun rest hp => nomatch hp
  | delivered hp hg => exact h.of_sent_eq rfl h.gone fun rest hp => nomatch hp
  | dropReceiver => exact ⟨h.law,fun _ => rfl,h.uploading⟩
  | cancel => exact h.of_sent_eq rfl h.gone fun rest hp => nomatch hp

/-- A frame that is handed over too late stays on record. -/
theorem not_law_upload {f : Ws.Frame} {rest : List Ws.Frame} (hf : f.isClose = false)
    (hcut : (s.outboundFailed || s.sinkFailed) = true ∨ s.gone = true) : ¬ (s.upload (f::rest)).Law := by
  intro hlaw
  have hclose := hlaw ⟨f,s.outboundFailed || s.sinkFailed,s.gone⟩ (by simp [upload,hand]) hcut
  rw [hf] at hclose
  exact nomatch hclose

theorem Kept.not_law_of_not_quits (h : Kept s) (ha : ¬ Quits c s a)
    (hstep : Adapter.step c s a = some t) : ¬ t.Law := by
  cases move_of_step hstep with
  | close hp hmsg =>
    rcases hmsg with rfl | rfl
    · exact absurd trivial ha
    · exact absurd (fun _ => rfl) ha
  | @take msg hp hmsg =>
    obtain ⟨hcut,hne⟩ : (s.gone = true ∨ s.sinkFailed = true) ∧ translateInboundToFrames c msg ≠ [] := by
      simpa [Quits] using ha
    have hclose := isClose_translateInbound c msg
    cases hframes : translateInboundToFrames c msg with
    | nil => exact absurd hframes hne
    | cons f rest =>
      apply not_law_upload (hclose f (by rw [hframes]; exact List.mem_cons_self))
      rcases hcut with hg | hs
      · exact .inr hg
      · exact .inl (by rw [hs,Bool.or_true])
  | @sent rest hp =>
    obtain ⟨hg,rest',hp',hne⟩ : s.gone = true ∧ ∃ rest', s.phase = .uploading rest' ∧ rest' ≠ [] := by
      simpa [Quits] using ha
    obtain rfl : rest = rest' := by simpa [hp] using hp'
    obtain ⟨-,hrest⟩ := h.uploading rest hp
    cases rest with
    | nil => exact absurd rfl hne
    | cons f rest => exact not_law_upload (hrest f List.mem_cons_self) (.inr hg)
  | @closed ok hp =>
    cases ok with
    | true => exact absurd (fun _ rest hr => nomatch hp.symm.trans hr) ha
    | false => exact absurd trivial ha
  | _ => exact absurd trivial ha

/-- A run of the adapter stops uploading with its consumer exactly when the caller stops by
itself: when nothing that is to be uploaded is taken from it once the receiver is gone or
the socket has failed. -/
theorem adapter_stops_iff (c : Codec) {as : List AdapterAction} {t : Adapter}
    (h : exec (step c) {} as = some t) :
    Always (step c) Law {} as ↔ Throughout (step c) (Quits c) {} as :=
  always_iff_throughout (J := Kept) (fun _ hs => hs.law) (fun _ _ _ hs ha hst => hs.step ha hst)
    (fun _ _ _ hs ha hst => hs.not_law_of_not_quits ha hst) Kept.init h

/-- A codec for texts with a tag and nothing else. -/
def tagCodec : Codec where
  toStr
    | .object [("type",.string tag)] => some ("\x7b\"type\":\"" ++ tag ++ "\"\x7d")
    | _ => none
  fromStr s :=
    if s = "\x7b\"type\":\"response.done\"\x7d" then some .responseDone else none
  encode _ := ""
  decode _ := none

/-- The caller commits its turn, the receiver goes, and the caller closes. -/
theorem adapter_stops_with_quiet_caller :
    Always (step tagCodec) Law {} [.inbound (some .commit),.sinkSend true,.dropReceiver,.inbound none,
      .sinkSend true] := by
  have hrun : ∃ t, exec (step tagCodec) {} [.inbound (some .commit),.sinkSend true,.dropReceiver,
      .inbound none,.sinkSend true] = some t := ⟨_,rfl⟩
  obtain ⟨t,ht⟩ := hrun
  apply (adapter_stops_iff tagCodec ht).mpr
  simp [Throughout,Quits,step,upload,hand,translateInboundToFrames,Codec.frame,tagCodec,ClientEvent.toJson]

/-- The outbound send fails because the receiver is gone, and the next message of the caller
is uploaded all the same. -/
theorem adapter_uploads_after_failed_send :
    ∃ s, exec (step tagCodec) {} [.dropReceiver,
        .server (.ok (some (.text "\x7b\"type\":\"response.done\"\x7d"))),.outboundSend,
        .inbound (some .commit)] = some s ∧
      s.outboundFailed = true ∧
      s.sent = [⟨.text "\x7b\"type\":\"input_audio_buffer.commit\"\x7d",true,true⟩] ∧ ¬ s.Law := by
  refine ⟨_,rfl,rfl,rfl,?_⟩
  intro hlaw
  exact nomatch hlaw _ List.mem_cons_self (.inl rfl)

end Adapter
end RakkaInference.OpenAiRealtime
