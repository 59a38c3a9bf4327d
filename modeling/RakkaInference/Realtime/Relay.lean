import RakkaInference.Machine.Logs
import RakkaInference.Machine.Woven
import RakkaInference.Realtime.GeminiLive
import RakkaInference.Realtime.OpenAi

/-! What the session adapters carry from the caller to the socket and back: in order, once, and all of it as long
as nothing fails. -/
namespace RakkaInference
open Machine

namespace OpenAiRealtime
namespace Adapter
variable {c : Codec} {s t : Adapter} {a : AdapterAction} {as : List AdapterAction} {frames fs body : List Ws.Frame}
  {outs : List RealtimeOut}

/-- The frames of the message that an action takes from the caller. -/
def asked (c : Codec) : AdapterAction → List Ws.Frame
  | .inbound (some msg) => translateInboundToFrames c msg
  | _ => []

/-- What the frame of the socket that an action takes has for the caller. -/
def heard (c : Codec) : AdapterAction → List RealtimeOut
  | .server (.ok (some (.text text))) => (outOfText c text).toList
  | _ => []

/-- The frames of the message that are still to come. -/
def rest (s : Adapter) : List Ws.Frame :=
  match s.phase with
  | .uploading rest => rest
  | _ => []

/-- The message that is on its way to the caller. -/
def held (s : Adapter) : List RealtimeOut :=
  match s.phase with
  | .delivering out => [out]
  | _ => []

/-- What has been handed to the socket are the frames of the messages and then the close frame; the frames that are
left are those still to come, or those of a message in which the adapter was ended. -/
structure Uploaded (s : Adapter) (frames body close left : List Ws.Frame) : Prop where
  sent : s.sent.map SentFrame.frame = body++close
  last : close = [] ∨ (close = [.close 1000 ""] ∧ left = [] ∧ (s.phase = .closing ∨ s.phase = .ended))
  drained : left = s.rest ∨ s.phase = .ended
  order : (body++s.rest).Sublist frames
  all : s.sinkFailed = false → frames = body++left

theorem rest_of_phase {p : AdapterPhase} (hp : s.phase = p) : s.rest = Adapter.rest { s with phase := p } := by
  rw [← hp]

theorem Uploaded.nil_of_phase {close left : List Ws.Frame} (h : Uploaded s frames body close left)
    (hc : s.phase ≠ .closing) (he : s.phase ≠ .ended) : close = [] ∧ left = s.rest := by
  refine ⟨?_,h.drained.resolve_right he⟩
  obtain hnil | ⟨-,-,hp | hp⟩ := h.last
  · exact hnil
  · exact absurd hp hc
  · exact absurd hp he

/-- The loop over the frames keeps what is left in order. -/
theorem uploaded_upload (hsent : s.sent.map SentFrame.frame = body) (horder : (body++fs).Sublist frames)
    (hall : s.sinkFailed = false → frames = body++fs) :
    ∃ body close left, Uploaded (s.upload fs) frames body close left := by
  cases fs with
  | nil => exact ⟨body,[],[],by simpa [upload] using hsent,.inl rfl,.inl rfl,horder,hall⟩
  | cons f fs =>
    refine ⟨body++[f],[],fs,?_,.inl rfl,.inl rfl,?_,?_⟩
    · simp [upload,hand,hsent]
    · change ((body++[f])++fs).Sublist frames
      rwa [List.append_assoc]
    · intro hfailed
      rw [hall hfailed,List.append_assoc]
      rfl

/-- A step that hands nothing to the socket and has no message in the middle of it. -/
theorem Uploaded.idle {close left : List Ws.Frame} (h : Uploaded s frames body close left)
    (hc : s.phase ≠ .closing) (he : s.phase ≠ .ended) (hrest : s.rest = []) (hsent : t.sent = s.sent)
    (hfailed : t.sinkFailed = s.sinkFailed) (hrest' : t.rest = []) :
    ∃ body close left, Uploaded t frames body close left := by
  obtain ⟨rfl,rfl⟩ := h.nil_of_phase hc he
  refine ⟨body,[],[],?_,.inl rfl,.inl hrest'.symm,?_,?_⟩
  · rw [hsent,h.sent]
  · have horder := h.order
    rwa [hrest,← hrest'] at horder
  · intro hf
    have hall := h.all (hfailed ▸ hf)
    rwa [hrest] at hall

theorem Uploaded.step {close left : List Ws.Frame} (h : Uploaded s frames body close left)
    (hstep : Adapter.step c s a = some t) : ∃ body close left, Uploaded t (frames++asked c a) body close left := by
  cases move_of_step hstep with
  | @close msg hp hmsg =>
    have hasked : asked c (.inbound msg) = [] := by
      obtain rfl | rfl := hmsg
      · rfl
      · rfl
    obtain ⟨rfl,rfl⟩ := h.nil_of_phase (by simp [hp]) (by simp [hp])
    have hrest : s.rest = [] := rest_of_phase hp
    rw [hasked,List.append_nil]
    refine ⟨body,[.close 1000 ""],[],?_,.inr ⟨rfl,rfl,.inl rfl⟩,.inl rfl,?_,?_⟩
    · simp [hand,h.sent]
    · have horder := h.order
      rwa [hrest] at horder
    · intro hf
      have hall := h.all hf
      rwa [hrest] at hall
  | @take msg hp hmsg =>
    obtain ⟨rfl,rfl⟩ := h.nil_of_phase (by simp [hp]) (by simp [hp])
    have hrest : s.rest = [] := rest_of_phase hp
    have hsent := h.sent
    rw [List.append_nil] at hsent
    apply uploaded_upload hsent
    · have horder := h.order
      rw [hrest,List.append_nil] at horder
      exact horder.append (.refl _)
    · intro hf
      rw [h.all hf,hrest,List.append_nil]
      rfl
  | @receive frame hp =>
    have hreceive : (s.receive c frame).sent = s.sent ∧ (s.receive c frame).sinkFailed = s.sinkFailed ∧
        (s.receive c frame).rest = [] := by
      have hrest : s.rest = [] := rest_of_phase hp
      unfold receive
      split
      · exact ⟨rfl,rfl,rfl⟩
      · exact ⟨rfl,rfl,rfl⟩
      · split
        · exact ⟨rfl,rfl,rfl⟩
        · exact ⟨rfl,rfl,hrest⟩
      · exact ⟨rfl,rfl,rfl⟩
      · exact ⟨rfl,rfl,hrest⟩
    obtain ⟨hsent,hfailed,hrest⟩ := hreceive
    simp only [asked,List.append_nil]
    exact h.idle (by simp [hp]) (by simp [hp]) (rest_of_phase hp) hsent hfailed hrest
  | @sent rest hp =>
    obtain ⟨rfl,rfl⟩ := h.nil_of_phase (by simp [hp]) (by simp [hp])
    have hrest : s.rest = rest := rest_of_phase hp
    have hsent := h.sent
    have horder := h.order
    have hall := h.all
    rw [hrest] at horder hall
    rw [List.append_nil] at hsent
    simp only [asked,List.append_nil]
    exact uploaded_upload hsent horder hall
  | @sendFailed rest hp =>
    obtain ⟨rfl,-⟩ := h.nil_of_phase (by simp [hp]) (by simp [hp])
    simp only [asked,List.append_nil]
    refine ⟨body,[],[],h.sent,.inl rfl,.inl rfl,?_,fun hf => by cases hf⟩
    exact (List.Sublist.append (.refl _) (List.nil_sublist _)).trans h.order
  | @closed ok hp =>
    have hrest : s.rest = [] := rest_of_phase hp
    have horder := h.order
    rw [hrest] at horder
    simp only [asked,List.append_nil]
    refine ⟨body,close,left,h.sent,?_,.inr rfl,horder,?_⟩
    · obtain hnil | ⟨hclose,hleft,-⟩ := h.last
      · exact .inl hnil
      · exact .inr ⟨hclose,hleft,.inr rfl⟩
    · intro hf
      exact h.all (Bool.or_eq_false_iff.mp hf).1
  | lost hp hg =>
    simp only [asked,List.append_nil]
    exact h.idle (by simp [hp]) (by simp [hp]) (rest_of_phase hp) rfl rfl rfl
  | delivered hp hg =>
    simp only [asked,List.append_nil]
    exact h.idle (by simp [hp]) (by simp [hp]) (rest_of_phase hp) rfl rfl rfl
  | dropReceiver =>
    simp only [asked,List.append_nil]
    exact ⟨body,close,left,h.sent,h.last,h.drained,h.order,h.all⟩
  | cancel =>
    simp only [asked,List.append_nil]
    refine ⟨body,close,left,h.sent,?_,.inr rfl,?_,h.all⟩
    · obtain hnil | ⟨hclose,hleft,-⟩ := h.last
      · exact .inl hnil
      · exact .inr ⟨hclose,hleft,.inr rfl⟩
    · exact (List.Sublist.append (.refl _) (List.nil_sublist _)).trans h.order

/-- What is on the outbound channel is the first part of what the socket has had for the caller. Nothing but the
message on its way is left, unless the caller is gone or the adapter was ended in it. -/
structure Downloaded (s : Adapter) (outs lost : List RealtimeOut) : Prop where
  all : outs = s.outbound++lost
  drained : s.gone = false → lost = s.held ∨ (s.phase = .ended ∧ lost.length ≤ 1)

theorem held_of_phase {p : AdapterPhase} (hp : s.phase = p) : s.held = Adapter.held { s with phase := p } := by
  rw [← hp]

theorem length_held_le (s : Adapter) : s.held.length ≤ 1 := by
  unfold held
  split
  · exact Nat.le_refl 1
  · exact Nat.zero_le 1

/-- A step with nothing for the caller. -/
theorem Downloaded.idle {lost : List RealtimeOut} (h : Downloaded s outs lost) (he : s.phase ≠ .ended)
    (hheld : s.held = []) (hgone : t.gone = s.gone) (hout : t.outbound = s.outbound) (hheld' : t.held = []) :
    Downloaded t outs lost := by
  refine ⟨by rw [hout,h.all],?_⟩
  intro hg
  obtain hlost | ⟨hp,-⟩ := h.drained (hgone ▸ hg)
  · exact .inl (by rw [hlost,hheld,hheld'])
  · exact absurd hp he

theorem upload_frame (s : Adapter) (fs : List Ws.Frame) :
    (s.upload fs).gone = s.gone ∧ (s.upload fs).outbound = s.outbound ∧ (s.upload fs).held = [] := by
  cases fs with
  | nil => exact ⟨rfl,rfl,rfl⟩
  | cons f fs => exact ⟨rfl,rfl,rfl⟩

/-- What the adapter takes from the socket it is about to deliver. -/
theorem receive_held (hp : s.phase = .selecting) (frame : Ws.Received) :
    (s.receive c frame).gone = s.gone ∧ (s.receive c frame).outbound = s.outbound ∧
      (s.receive c frame).held = heard c (.server frame) := by
  have hheld : s.held = [] := held_of_phase hp
  unfold receive
  split
  · exact ⟨rfl,rfl,rfl⟩
  · exact ⟨rfl,rfl,rfl⟩
  case h_3 text =>
    simp only [heard]
    cases outOfText c text with
    | some out => exact ⟨rfl,rfl,rfl⟩
    | none => exact ⟨rfl,rfl,hheld⟩
  · exact ⟨rfl,rfl,rfl⟩
  case h_5 frame htext hclose =>
    refine ⟨rfl,rfl,?_⟩
    rw [hheld]
    cases frame with
    | text text => exact absurd rfl (htext text)
    | _ => rfl

theorem Downloaded.step {lost : List RealtimeOut} (h : Downloaded s outs lost)
    (hstep : Adapter.step c s a = some t) : ∃ lost, Downloaded t (outs++heard c a) lost := by
  cases move_of_step hstep with
  | @close msg hp hmsg =>
    simp only [heard,List.append_nil]
    exact ⟨lost,h.idle (by simp [hp]) (held_of_phase hp) rfl rfl rfl⟩
  | @take msg hp hmsg =>
    obtain ⟨hgone,hout,hheld⟩ := upload_frame s (translateInboundToFrames c msg)
    simp only [heard,List.append_nil]
    exact ⟨lost,h.idle (by simp [hp]) (held_of_phase hp) hgone hout hheld⟩
  | @receive frame hp =>
    obtain ⟨hgone,hout,hheld⟩ := receive_held (c := c) hp frame
    refine ⟨lost++heard c (.server frame),by rw [h.all,hout,List.append_assoc],?_⟩
    intro hg
    obtain hlost | ⟨hended,-⟩ := h.drained (hgone ▸ hg)
    · rw [hlost,held_of_phase hp,hheld]
      exact .inl rfl
    · rw [hp] at hended
      cases hended
  | @sent rest hp =>
    obtain ⟨hgone,hout,hheld⟩ := upload_frame s rest
    simp only [heard,List.append_nil]
    exact ⟨lost,h.idle (by simp [hp]) (held_of_phase hp) hgone hout hheld⟩
  | sendFailed hp =>
    simp only [heard,List.append_nil]
    exact ⟨lost,h.idle (by simp [hp]) (held_of_phase hp) rfl rfl rfl⟩
  | closed hp =>
    simp only [heard,List.append_nil]
    exact ⟨lost,h.idle (by simp [hp]) (held_of_phase hp) rfl rfl rfl⟩
  | lost hp hg =>
    simp only [heard,List.append_nil]
    refine ⟨lost,h.all,?_⟩
    intro hg'
    rw [hg] at hg'
    cases hg'
  | @delivered out hp hg =>
    simp only [heard,List.append_nil]
    obtain hlost | ⟨hended,-⟩ := h.drained hg
    · refine ⟨[],?_,fun _ => .inl rfl⟩
      rw [h.all,hlost,held_of_phase hp,List.append_nil]
      rfl
    · rw [hp] at hended
      cases hended
  | dropReceiver =>
    simp only [heard,List.append_nil]
    exact ⟨lost,h.all,fun hg => by cases hg⟩
  | cancel =>
    simp only [heard,List.append_nil]
    refine ⟨lost,h.all,?_⟩
    intro hg
    obtain rfl | ⟨-,hlength⟩ := h.drained hg
    · exact .inr ⟨rfl,length_held_le s⟩
    · exact .inr ⟨rfl,hlength⟩

/-- In every run the socket is handed the frames of the caller's messages in order and once, all of them unless a
send has failed or the adapter was ended in the middle, and nothing behind the close frame; and the caller is
handed what the socket had for it in order and once, all of it unless the caller is gone or the adapter was ended
in the middle. -/
theorem relays_in_order (c : Codec) (as : List AdapterAction) (t : Adapter) (h : exec (step c) {} as = some t) :
    (∃ body close left, Uploaded t (as.flatMap (asked c)) body close left) ∧
      ∃ lost, Downloaded t (as.flatMap (heard c)) lost := by
  constructor
  · apply exec_flatMap (I := fun s l => ∃ body close left, Uploaded s l body close left) _ _ h
    · rintro s a t l ⟨body,close,left,hs⟩ hstep
      exact hs.step hstep
    · exact ⟨[],[],[],rfl,.inl rfl,.inl rfl,List.nil_sublist _,fun _ => rfl⟩
  · apply exec_flatMap (I := fun s l => ∃ lost, Downloaded s l lost) _ _ h
    · rintro s a t l ⟨lost,hs⟩ hstep
      exact hs.step hstep
    · exact ⟨[],rfl,fun _ => .inl rfl⟩

/-- The caller commits its turn and is answered. -/
theorem relays_in_order_answered :
    ∃ t, exec (step tagCodec) {} [.inbound (some .commit),.sinkSend true,
        .server (.ok (some (.text "\x7b\"type\":\"response.done\"\x7d"))),.outboundSend] = some t ∧
      ∃ lost, Downloaded t [.done] lost := by
  have hrun : ∃ t, exec (step tagCodec) {} [.inbound (some .commit),.sinkSend true,
      .server (.ok (some (.text "\x7b\"type\":\"response.done\"\x7d"))),.outboundSend] = some t := ⟨_,rfl⟩
  obtain ⟨t,ht⟩ := hrun
  exact ⟨t,ht,(relays_in_order tagCodec _ t ht).2⟩

end Adapter
end OpenAiRealtime

namespace GeminiLive

/-- The messages that the downlink is still to send when it is left alone. -/
def DownlinkPhase.pending : DownlinkPhase → List RealtimeOut
  | .receiving => []
  | .emitting out rest signal => out::rest++signal.toList
  | .signalling out => [out]
  | .failing e => [.error e,.done]
  | .finishing => [.done]

namespace Session
variable {c : Codec} {s t : Session} {a : SessionAction} {as : List SessionAction}

/-- The frame of a message of the caller, if it has one. -/
def frameOf (c : Codec) : RealtimeIn → List Ws.Frame
  | .text text => ((c.toStr (ClientPayload.turn text).toJson).map Ws.Frame.text).toList
  | .audioFrame pcm params =>
    if params.format ≠ .pcm16Le then []
    else ((c.toStr (ClientPayload.mediaChunk s!"audio/pcm;rate={params.sampleRateHz}" (c.encode pcm)).toJson).map
      Ws.Frame.text).toList
  | .commit => ((c.toStr ClientPayload.turnComplete.toJson).map Ws.Frame.text).toList
  | .interrupt | .close => []

/-- The error with which a message is answered at once. -/
def complaint : RealtimeIn → Option InferenceError
  | .audioFrame _ params =>
    if params.format ≠ .pcm16Le then
      some (.unsupportedAudioFormat s!"Gemini Live requires Pcm16Le; got {params.format.debug}")
    else none
  | .interrupt => some (.unsupported "interrupt" .realtimeSpeech)
  | .text _ | .commit | .close => none

def asked (c : Codec) : SessionAction → List Ws.Frame
  | .inbound (some msg) => frameOf c msg
  | _ => []

def complaints : SessionAction → List RealtimeOut
  | .inbound (some msg) => ((complaint msg).map RealtimeOut.error).toList
  | _ => []

/-- What the frame of the socket has for the caller. -/
def heard (c : Codec) : SessionAction → List RealtimeOut
  | .server frame => (downlinkTask c frame).pending
  | _ => []

def held (s : Session) : List RealtimeOut :=
  match s.adapter with
  | .running d => d.pending
  | _ => []

/-- The error that the uplink is sending. -/
def reported (s : Session) : List RealtimeOut :=
  match s.uplink with
  | .reporting e => [.error e]
  | _ => []

theorem forward_asked (c : Codec) (hu : s.uplink = .receiving) (payload : ClientPayload) :
    (s.forward c payload).forwarded.map Forwarded.frame =
      s.forwarded.map Forwarded.frame++((c.toStr payload.toJson).map Ws.Frame.text).toList ∧
    (s.forward c payload).reported = [] := by
  unfold forward
  split
  case h_1 json hjson => simp [hjson,reported]
  case h_2 hjson => simp [hjson,reported,hu]

/-- What a message does to the uplink: it is handed on, or complained of. -/
theorem uplinkTask_asked (c : Codec) (hu : s.uplink = .receiving) (msg : Option RealtimeIn) :
    (s.uplinkTask c msg).forwarded.map Forwarded.frame = s.forwarded.map Forwarded.frame++asked c (.inbound msg) ∧
      (s.uplinkTask c msg).reported = complaints (.inbound msg) := by
  have hreported : s.reported = [] := by rw [reported,hu]
  cases msg with
  | none => exact ⟨(List.append_nil _).symm,rfl⟩
  | some msg =>
    cases msg with
    | text text => exact forward_asked c hu _
    | audioFrame pcm params =>
      unfold uplinkTask asked frameOf complaints complaint
      dsimp only
      split
      case isTrue => exact ⟨(List.append_nil _).symm,rfl⟩
      case isFalse => exact forward_asked c hu _
    | commit => exact forward_asked c hu _
    | interrupt => exact ⟨(List.append_nil _).symm,rfl⟩
    | close => exact ⟨(List.append_nil _).symm,rfl⟩

theorem forwarded_step {frames : List Ws.Frame} (h : s.forwarded.map Forwarded.frame = frames)
    (hstep : Session.step c s a = some t) : t.forwarded.map Forwarded.frame = frames++asked c a := by
  cases move_of_step hstep with
  | @inbound msg hu =>
    rw [← h]
    exact (uplinkTask_asked c hu msg).1
  | downlinkSend hd hsend =>
    obtain ⟨out,-,rfl⟩ := downlinkSend_eq_some_iff.mp hsend
    simpa [asked] using h
  | uplinkSend hu => simpa [asked] using h
  | _ => simpa [asked] using h

/-- The downlink sends the first of its messages, and the others are left. -/
theorem pending_of_message {d : DownlinkPhase} {out : RealtimeOut} (h : d.message = some out) :
    ∃ rest, d.pending = out::rest ∧ ∀ s : Session, s.adapter = d.after false → s.held = rest := by
  cases d with
  | receiving => cases h
  | emitting out rest signal =>
    cases h
    refine ⟨rest++signal.toList,rfl,?_⟩
    intro s hs
    unfold held
    rw [hs]
    cases rest with
    | nil =>
      cases signal with
      | none => rfl
      | some out => rfl
    | cons out rest => rfl
  | signalling out =>
    cases h
    exact ⟨[],rfl,fun s hs => by simp [held,hs,DownlinkPhase.after,DownlinkPhase.pending]⟩
  | failing e =>
    cases h
    exact ⟨[.done],rfl,fun s hs => by simp [held,hs,DownlinkPhase.after,DownlinkPhase.pending]⟩
  | finishing =>
    cases h
    exact ⟨[],rfl,fun s hs => by simp [held,hs,DownlinkPhase.after]⟩

/-- The outbound channel has been given the first part of what the socket has had for the caller and the first
part of the complaints about its messages. Nothing but what is on its way is left, unless the caller is gone or
the adapter has ended. -/
structure Relayed (s : Session) (heard complaints down up lost unsent : List RealtimeOut) : Prop where
  woven : Woven down up s.outbound
  downlink : heard = down++lost
  uplink : complaints = up++unsent
  downOver : s.gone = false → lost = s.held ∨ s.adapter = .ended
  upOver : s.gone = false → unsent = s.reported
  polled : s.uplink ≠ .unspawned → s.adapter ≠ .unpolled

theorem Relayed.step {l l' down up lost unsent : List RealtimeOut} (h : Relayed s l l' down up lost unsent)
    (hstep : Session.step c s a = some t) :
    ∃ down up lost unsent, Relayed t (l++heard c a) (l'++complaints a) down up lost unsent := by
  cases move_of_step hstep with
  | poll hp =>
    have hu : s.uplink = .unspawned := by
      by_contra hu
      exact h.polled hu hp
    simp only [heard,complaints,List.append_nil]
    refine ⟨down,up,lost,unsent,h.woven,h.downlink,h.uplink,?_,?_,fun _ hadapter => by cases hadapter⟩
    · intro hg
      obtain hlost | hended := h.downOver hg
      · exact .inl (by rw [hlost,held,hp]; rfl)
      · rw [hp] at hended
        cases hended
    · intro hg
      rw [h.upOver hg,reported,hu]
      rfl
  | cancel =>
    simp only [heard,complaints,List.append_nil]
    exact ⟨down,up,lost,unsent,h.woven,h.downlink,h.uplink,fun _ => .inr rfl,h.upOver,
      fun _ hadapter => by cases hadapter⟩
  | @inbound msg hu =>
    obtain ⟨hadapter,hgone,hout,-⟩ := uplinkTask_frame c s msg
    have hreported := (uplinkTask_asked c hu msg).2
    have hpolled : s.adapter ≠ .unpolled := h.polled (by simp [hu])
    simp only [heard,List.append_nil]
    refine ⟨down,up,lost,unsent++complaints (.inbound msg),?_,h.downlink,?_,?_,?_,?_⟩
    · rw [hout]
      exact h.woven
    · rw [h.uplink,List.append_assoc]
    · intro hg
      unfold held
      rw [hadapter]
      exact h.downOver (hgone ▸ hg)
    · intro hg
      rw [h.upOver (hgone ▸ hg),reported,hu,hreported,List.nil_append]
    · intro _
      rwa [hadapter]
  | @wsSend ok hu =>
    have hpolled : s.adapter ≠ .unpolled := h.polled (by simp [hu])
    simp only [heard,complaints,List.append_nil]
    refine ⟨down,up,lost,unsent,h.woven,h.downlink,h.uplink,h.downOver,?_,fun _ => hpolled⟩
    intro hg
    rw [h.upOver hg,reported,hu]
    cases ok <;> rfl
  | @uplinkSend e hu =>
    have hpolled : s.adapter ≠ .unpolled := h.polled (by simp [hu])
    simp only [heard,complaints,List.append_nil]
    cases hg : s.gone with
    | true =>
      have hput : s.put (.error e) = s := by simp [put,hg]
      rw [hput]
      exact ⟨down,up,lost,unsent,h.woven,h.downlink,h.uplink,h.downOver,fun hg' => by simp [hg] at hg',
        fun _ => hpolled⟩
    | false =>
      have hunsent := h.upOver hg
      rw [reported,hu] at hunsent
      have hput : s.put (.error e) = { s with outbound := s.outbound++[.error e] } := by simp [put,hg]
      rw [hput]
      refine ⟨down,up++[.error e],lost,[],h.woven.right _,h.downlink,?_,h.downOver,fun _ => rfl,fun _ => hpolled⟩
      rw [h.uplink,hunsent,List.append_nil]
  | @server frame hd =>
    simp only [complaints,List.append_nil]
    refine ⟨down,up,lost++heard c (.server frame),unsent,h.woven,?_,h.uplink,?_,h.upOver,
      fun _ hadapter => by cases hadapter⟩
    · rw [h.downlink,List.append_assoc]
    · intro hg
      obtain hlost | hended := h.downOver hg
      · exact .inl (by rw [hlost,held,hd]; rfl)
      · rw [hd] at hended
        cases hended
  | @downlinkSend d _ hd hsend =>
    obtain ⟨out,hmessage,rfl⟩ := downlinkSend_eq_some_iff.mp hsend
    obtain ⟨rest,hpending,hrest⟩ := pending_of_message hmessage
    have hafter : d.after s.gone ≠ .unpolled := DownlinkPhase.after_ne_unpolled d s.gone
    simp only [heard,complaints,List.append_nil]
    cases hg : s.gone with
    | true =>
      have hput : s.put out = s := by simp [put,hg]
      rw [hput]
      refine ⟨down,up,lost,unsent,h.woven,h.downlink,h.uplink,?_,h.upOver,fun _ => hg ▸ hafter⟩
      intro hg'
      simp [hg] at hg'
    | false =>
      have hlost : lost = d.pending := by
        obtain hlost | hended := h.downOver hg
        · rw [hlost,held,hd]
        · rw [hd] at hended
          cases hended
      have hput : s.put out = { s with outbound := s.outbound++[out] } := by simp [put,hg]
      rw [hput]
      refine ⟨down++[out],up,rest,unsent,h.woven.left _,?_,h.uplink,?_,h.upOver,fun _ => hg ▸ hafter⟩
      · rw [h.downlink,hlost,hpending,List.append_assoc]
        rfl
      · intro _
        exact .inl (hrest _ rfl).symm
  | dropReceiver =>
    simp only [heard,complaints,List.append_nil]
    exact ⟨down,up,lost,unsent,h.woven,h.downlink,h.uplink,(fun hg => by cases hg),(fun hg => by cases hg),h.polled⟩

/-- In every run the socket is handed the frames of the caller's messages in order and once, and the caller is handed
what the socket has had for it and what its own messages are complained of, each in order and once, and all of it
unless the caller is gone or the adapter has ended. -/
theorem session_relays (c : Codec) (as : List SessionAction) (t : Session) (h : exec (step c) {} as = some t) :
    t.forwarded.map Forwarded.frame = as.flatMap (asked c) ∧
      ∃ down up lost unsent, Relayed t (as.flatMap (heard c)) (as.flatMap complaints) down up lost unsent := by
  constructor
  · apply exec_flatMap (I := fun s l => s.forwarded.map Forwarded.frame = l) _ _ h
    · intro s a t l hs hstep
      exact forwarded_step hs hstep
    · rfl
  · have hrun := exec_flatMap (f := fun a => [a]) (I := fun s l => ∃ down up lost unsent,
      Relayed s (l.flatMap (heard c)) (l.flatMap complaints) down up lost unsent) ?_ ?_ h
    · rwa [List.flatMap_singleton'] at hrun
    · rintro s a t l ⟨down,up,lost,unsent,hs⟩ hstep
      rw [List.flatMap_append,List.flatMap_append,List.flatMap_singleton,List.flatMap_singleton]
      exact hs.step hstep
    · exact ⟨[],[],[],[],.nil,rfl,rfl,fun _ => .inl rfl,fun _ => rfl,fun hne => absurd rfl hne⟩

/-- The caller commits its turn, interrupts, and the socket is closed by the server. -/
theorem session_relays_interrupted :
    ∃ t, exec (step turnCodec) {} [.poll,.inbound (some .commit),.wsSend true,.inbound (some .interrupt),
        .server (.ok none),.uplinkSend,.downlinkSend] = some t ∧
      t.forwarded.map Forwarded.frame = [.text "\x7b\"clientContent\":\x7b\"turnComplete\":true\x7d\x7d"] ∧
      ∃ down up lost unsent,
        Relayed t [.done] [.error (.unsupported "interrupt" .realtimeSpeech)] down up lost unsent := by
  have hrun : ∃ t, exec (step turnCodec) {} [.poll,.inbound (some .commit),.wsSend true,.inbound (some .interrupt),
      .server (.ok none),.uplinkSend,.downlinkSend] = some t := ⟨_,rfl⟩
  obtain ⟨t,ht⟩ := hrun
  obtain ⟨hforwarded,hrelayed⟩ := session_relays turnCodec _ t ht
  exact ⟨t,ht,hforwarded,hrelayed⟩

end Session
end GeminiLive
end RakkaInference
