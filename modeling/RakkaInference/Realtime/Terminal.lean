import RakkaInference.Realtime.GeminiLive
import RakkaInference.Realtime.OpenAi

/-! The last message of a realtime session, for both adapters. `Error` is documented as
closing the session and `Done` as its clean end; the adapters go on after either. -/
namespace RakkaInference
open Machine

/-- Nothing follows a terminal message, so there is one at most. -/
def TerminalLast (outs : List RealtimeOut) : Prop :=
  ∀ pre m post, outs = pre++m::post → m.terminal = true → post = []

/-- No terminal message was put out yet. -/
def Unterminated (outs : List RealtimeOut) : Prop := ∀ m ∈ outs, m.terminal = false

section
variable {outs : List RealtimeOut} {out : RealtimeOut}

theorem Unterminated.snoc (h : Unterminated outs) (hout : out.terminal = false) : Unterminated (outs++[out]) :=
  all_of_snoc h hout

theorem Unterminated.terminalLast_snoc (h : Unterminated outs) (out : RealtimeOut) :
    TerminalLast (outs++[out]) := by
  intro pre m post heq hm
  rcases List.eq_nil_or_concat post with rfl | ⟨post,last,rfl⟩
  · rfl
  · have hsplit : outs++[out] = (pre++m::post)++[last] := by simpa using heq
    obtain ⟨houts,-⟩ := List.append_inj' hsplit rfl
    have hmem : m ∈ outs := by simp [houts]
    rw [h m hmem] at hm
    exact nomatch hm

theorem not_terminalLast_snoc (h : ¬ Unterminated outs) (out : RealtimeOut) :
    ¬ TerminalLast (outs++[out]) := by
  intro hlast
  apply h
  intro m hm
  obtain ⟨pre,post,rfl⟩ := List.append_of_mem hm
  by_contra hterm
  have hnil := hlast pre m (post++[out]) (by simp) (by simpa using hterm)
  simp at hnil

end

namespace OpenAiRealtime.Adapter
variable {c : Codec} {s t : Adapter} {a : AdapterAction}

/-- Once a terminal message is out, no frame of the server that makes a message is taken,
unless the receiver is gone. -/
def Silent (c : Codec) (s : Adapter) : AdapterAction → Prop
  | .server (.ok (some (.text text))) => s.gone = true ∨ Unterminated s.outbound ∨ outOfText c text = none
  | _ => True

structure Closing (s : Adapter) : Prop where
  last : TerminalLast s.outbound
  delivering : ∀ out, s.phase = .delivering out → s.gone = true ∨ Unterminated s.outbound

theorem Closing.init : Closing {} where
  last := fun pre m post h => by simp at h
  delivering := fun _ h => nomatch h

/-- A step that puts nothing on the channel and has no message in hand. -/
theorem Closing.of_outbound_eq (h : Closing s) (ho : t.outbound = s.outbound)
    (hphase : ∀ out, t.phase ≠ .delivering out) : Closing t where
  last := ho ▸ h.last
  delivering := fun out hp => absurd hp (hphase out)

theorem upload_phase (s : Adapter) (frames : List Ws.Frame) :
    (s.upload frames).outbound = s.outbound ∧ ∀ out, (s.upload frames).phase ≠ .delivering out := by
  cases frames with
  | nil => exact ⟨rfl,fun out h => nomatch h⟩
  | cons f rest => exact ⟨rfl,fun out h => nomatch h⟩

theorem Closing.receive (h : Closing s) (hp : s.phase = .selecting) {frame : Ws.Received}
    (ha : Silent c s (.server frame)) : Closing (s.receive c frame) := by
  fun_cases Adapter.receive c s frame
  case case3 text out hout =>
    refine ⟨h.last,fun _ _ => ?_⟩
    rcases ha with hg | hu | hn
    · exact .inl hg
    · exact .inr hu
    · rw [hn] at hout
      exact absurd hout.symm (Option.some_ne_none out)
  all_goals exact h.of_outbound_eq rfl fun out hd => by simp_all

theorem Closing.step (h : Closing s) (ha : Silent c s a) (hstep : Adapter.step c s a = some t) :
    Closing t := by
  cases move_of_step hstep with
  | close hp hmsg => exact h.of_outbound_eq rfl fun out hp => nomatch hp
  | take hp hmsg => exact h.of_outbound_eq (upload_phase _ _).1 (upload_phase _ _).2
  | receive hp => exact h.receive hp ha
  | sent hp => exact h.of_outbound_eq (upload_phase _ _).1 (upload_phase _ _).2
  | sendFailed hp => exact h.of_outbound_eq rfl fun out hp => nomatch hp
  | closed hp => exact h.of_outbound_eq rfl fun out hp => nomatch hp
  | lost hp hg => exact h.of_outbound_eq rfl fun out hp => nomatch hp
  | @delivered out hp hg =>
    refine ⟨?_,fun out hp => nomatch hp⟩
    rcases h.delivering out hp with hgone | hu
    · rw [hg] at hgone
      exact nomatch hgone
    · exact hu.terminalLast_snoc out
  | dropReceiver => exact ⟨h.last,fun _ _ => .inl rfl⟩
  | cancel => exact h.of_outbound_eq rfl fun out hp => nomatch hp

/-- A run that takes such a frame can go on to put its message after a terminal one. -/
theorem exists_breaking_run (ha : ¬ Silent c s a) (hstep : Adapter.step c s a = some t) :
    ∃ bs u, exec (Adapter.step c) t bs = some u ∧ ¬ TerminalLast u.outbound := by
  obtain ⟨text,rfl,hgone,hterm,out,hout⟩ : ∃ text, a = .server (.ok (some (.text text))) ∧
      s.gone = false ∧ ¬ Unterminated s.outbound ∧ ∃ out, outOfText c text = some out := by
    unfold Silent at ha
    split at ha
    case h_1 text =>
      push Not at ha
      exact ⟨text,rfl,by simpa using ha.1,ha.2.1,Option.ne_none_iff_exists'.mp ha.2.2⟩
    case h_2 => exact absurd trivial ha
  cases move_of_step hstep with
  | receive hp =>
    have ht : s.receive c (.ok (some (.text text))) = { s with phase := .delivering out } := by
      simp only [receive,hout]
    rw [ht]
    refine ⟨[.outboundSend],{ s with phase := .selecting, outbound := s.outbound++[out] },?_,?_⟩
    · simp [exec,Adapter.step,hgone]
    · exact not_terminalLast_snoc hterm out

end OpenAiRealtime.Adapter

namespace GeminiLive
variable {c : Codec}

theorem unterminated_partOuts (c : Codec) (part : ModelPart) : Unterminated (partOuts c part) := by
  intro m hm
  unfold partOuts at hm
  rcases List.mem_append.mp hm with hm | hm
  all_goals
    split at hm
    · obtain rfl := List.mem_singleton.mp hm
      rfl
    · exact nomatch hm

theorem unterminated_contentOuts (c : Codec) (sc : ServerContent) : Unterminated (contentOuts c sc) := by
  intro m hm
  obtain ⟨part,-,hm⟩ := List.mem_flatMap.mp hm
  exact unterminated_partOuts c part m hm

/-- What the downlink has in hand is no terminal message. -/
def DownlinkPhase.Mild : DownlinkPhase → Prop
  | .emitting out rest signal => Unterminated (out::rest) ∧ ∀ o, signal = some o → o.terminal = false
  | .signalling out => out.terminal = false
  | .failing _ => False
  | .receiving | .finishing => True

theorem mild_emit {outs : List RealtimeOut} {signal : Option RealtimeOut} (houts : Unterminated outs)
    (hsignal : ∀ o, signal = some o → o.terminal = false) : (DownlinkPhase.emit outs signal).Mild := by
  cases outs with
  | cons out rest => exact ⟨houts,hsignal⟩
  | nil =>
    cases signal with
    | none => trivial
    | some o => exact hsignal o rfl

/-- A downlink that has no terminal message in hand puts none while it goes on. -/
theorem DownlinkPhase.Mild.after {d d' : DownlinkPhase} {out : RealtimeOut} (h : d.Mild)
    (hout : d.message = some out) (hd : d.after false = .running d') : out.terminal = false ∧ d'.Mild := by
  cases d with
  | receiving => exact nomatch hout
  | emitting o rest signal =>
    obtain rfl := Option.some.inj hout
    obtain rfl := AdapterPhase.running.inj hd
    exact ⟨h.1 o List.mem_cons_self,mild_emit (fun m hm => h.1 m (List.mem_cons_of_mem _ hm)) h.2⟩
  | signalling o =>
    obtain rfl := Option.some.inj hout
    obtain rfl := AdapterPhase.running.inj hd
    exact ⟨h,trivial⟩
  | failing e => exact h.elim
  | finishing => exact nomatch hd

/-- What the socket returns makes an error only as an error of the server or of the socket. -/
def Troubled (c : Codec) : Ws.Received → Bool
  | .ok (some (.text text)) => c.hasError text
  | .error _ => true
  | _ => false

theorem mild_downlinkTask {frame : Ws.Received} (h : Troubled c frame = false) :
    (Session.downlinkTask c frame).Mild := by
  fun_cases Session.downlinkTask c frame
  case case2 text hno sc hsc =>
    apply mild_emit (unterminated_contentOuts c sc)
    intro o ho
    unfold turnSignal at ho
    split at ho
    · obtain rfl := Option.some.inj ho
      rfl
    · exact nomatch ho
  all_goals simp_all [Troubled,DownlinkPhase.Mild]

/-- What the caller sends makes an error only as an interrupt or as audio in another format. -/
def Refused : RealtimeIn → Bool
  | .interrupt => true
  | .audioFrame _ params => params.format ≠ .pcm16Le
  | _ => false

namespace Session
variable {s t : Session} {a : SessionAction}

theorem uplink_uplinkTask {msg : Option RealtimeIn} {e : InferenceError}
    (h : (s.uplinkTask c msg).uplink = .reporting e) (hs : s.uplink = .receiving) :
    ∃ m, msg = some m ∧ Refused m = true := by
  have hforward : ∀ payload, (s.forward c payload).uplink ≠ .reporting e := by
    intro payload
    unfold forward
    split
    · exact fun h => nomatch h
    · rw [hs]
      exact fun h => nomatch h
  revert h
  fun_cases uplinkTask c s msg
  all_goals simp_all [Refused]

/-- While the receiver is there, neither the server nor the socket fails, and the caller
sends nothing that is refused, unless the adapter has ended without a terminal message. -/
def Smooth (c : Codec) (s : Session) : SessionAction → Prop
  | .inbound (some msg) => Refused msg = true → s.gone = true ∨ s.ended = true ∧ Unterminated s.outbound
  | .server frame => Troubled c frame = true → s.gone = true
  | _ => True

theorem put_outbound_of_gone (h : s.gone = true) (out : RealtimeOut) : (s.put out).outbound = s.outbound := by
  simp [put,h]

theorem put_outbound (h : s.gone = false) (out : RealtimeOut) : (s.put out).outbound = s.outbound++[out] := by
  simp [put,h]

structure Closing (s : Session) : Prop where
  last : TerminalLast s.outbound
  unpolled : s.adapter = .unpolled → s.outbound = [] ∧ s.uplink = .unspawned
  running : ∀ d, s.adapter = .running d → s.gone = true ∨ Unterminated s.outbound ∧ d.Mild
  reporting : ∀ e, s.uplink = .reporting e → s.gone = true ∨ s.ended = true ∧ Unterminated s.outbound

theorem Closing.init : Closing {} where
  last := fun pre m post h => by simp at h
  unpolled := fun _ => ⟨rfl,rfl⟩
  running := fun _ h => nomatch h
  reporting := fun _ h => nomatch h

/-- A receiver that is gone gets nothing, whatever the tasks do. -/
theorem Closing.of_gone (h : Closing s) (hg : t.gone = true) (ho : t.outbound = s.outbound)
    (hp : t.adapter ≠ .unpolled) : Closing t where
  last := ho ▸ h.last
  unpolled := fun ha => absurd ha hp
  running := fun _ _ => .inl hg
  reporting := fun _ _ => .inl hg

/-- An uplink that was spawned has an adapter that was polled. -/
theorem Closing.polled (h : Closing s) (hu : s.uplink ≠ .unspawned) : s.adapter ≠ .unpolled :=
  fun hp => hu (h.unpolled hp).2

/-- The uplink has nothing to report to a receiver that is there while the adapter runs. -/
theorem Closing.quiet (h : Closing s) {d : DownlinkPhase} (hd : s.adapter = .running d) (hg : s.gone = false)
    (e : InferenceError) : s.uplink ≠ .reporting e := by
  intro he
  have hended := (h.reporting e he).resolve_left (by simp [hg])
  rw [ended_iff,hd] at hended
  exact nomatch hended.1

theorem Closing.downlinkSend (h : Closing s) {d : DownlinkPhase} (hd : s.adapter = .running d)
    (hsend : s.downlinkSend d = some t) : Closing t := by
  obtain ⟨out,hout,rfl⟩ := downlinkSend_eq_some_iff.mp hsend
  cases hg : s.gone with
  | true => exact h.of_gone ((put_gone s out).trans hg) (put_outbound_of_gone hg out) (d.after_ne_unpolled _)
  | false =>
    obtain ⟨hopen,hmild⟩ := (h.running d hd).resolve_left (by simp [hg])
    constructor
    · rw [put_outbound hg]
      exact hopen.terminalLast_snoc out
    · intro hp
      exact absurd hp (d.after_ne_unpolled _)
    · intro d' hd'
      obtain ⟨hterm,hmild'⟩ := hmild.after hout hd'
      rw [put_outbound hg]
      exact .inr ⟨hopen.snoc hterm,hmild'⟩
    · intro e he
      rw [put_uplink] at he
      exact absurd he (h.quiet hd hg e)

theorem Closing.uplinkTask (h : Closing s) (hu : s.uplink = .receiving) {msg : Option RealtimeIn}
    (ha : Smooth c s (.inbound msg)) : Closing (s.uplinkTask c msg) := by
  obtain ⟨hadapter,hgone,hout,-⟩ := uplinkTask_frame c s msg
  have hended : (s.uplinkTask c msg).ended = s.ended := by
    unfold ended
    rw [hadapter]
  constructor
  · rw [hout]
    exact h.last
  · intro hp
    rw [hadapter] at hp
    exact absurd hp (h.polled (by simp [hu]))
  · rw [hadapter,hgone,hout]
    exact h.running
  · intro e he
    obtain ⟨m,rfl,hm⟩ := uplink_uplinkTask he hu
    rw [hgone,hended,hout]
    exact ha hm

theorem Closing.uplinkSend (h : Closing s) {e : InferenceError} (hu : s.uplink = .reporting e) :
    Closing { s.put (.error e) with uplink := .ended } := by
  have hpolled : s.adapter ≠ .unpolled := h.polled (by simp [hu])
  cases hg : s.gone with
  | true => exact h.of_gone ((put_gone s _).trans hg) (put_outbound_of_gone hg _) (by simpa using hpolled)
  | false =>
    obtain ⟨hended,hopen⟩ := (h.reporting e hu).resolve_left (by simp [hg])
    constructor
    · rw [put_outbound hg]
      exact hopen.terminalLast_snoc _
    · intro hp
      rw [put_adapter] at hp
      exact absurd hp hpolled
    · intro d hd
      rw [put_adapter,ended_iff.mp hended] at hd
      exact nomatch hd
    · intro e he
      exact nomatch he

theorem Closing.step (h : Closing s) (ha : Smooth c s a) (hstep : Session.step c s a = some t) :
    Closing t := by
  cases move_of_step hstep with
  | poll hp =>
    obtain ⟨hempty,-⟩ := h.unpolled hp
    refine ⟨h.last,(fun hp => nomatch hp),?_,(fun e he => nomatch he)⟩
    intro d hd
    obtain rfl : DownlinkPhase.receiving = d := by simpa using hd
    exact .inr ⟨by simp [Unterminated,hempty],trivial⟩
  | cancel =>
    refine ⟨h.last,(fun hp => nomatch hp),(fun d hd => nomatch hd),?_⟩
    intro e he
    exact (h.reporting e he).imp_right fun hr => ⟨rfl,hr.2⟩
  | inbound hu => exact h.uplinkTask hu ha
  | @wsSend ok hu =>
    refine ⟨h.last,(fun hp => absurd hp (h.polled (by simp [hu]))),h.running,?_⟩
    intro e he
    cases ok <;> exact nomatch he
  | uplinkSend hu => exact h.uplinkSend hu
  | @server frame hd =>
    refine ⟨h.last,(fun hp => nomatch hp),?_,?_⟩
    · intro d hd'
      obtain rfl : downlinkTask c frame = d := by simpa using hd'
      cases htr : Troubled c frame with
      | true => exact .inl (ha htr)
      | false => exact (h.running _ hd).imp_right fun hr => ⟨hr.1,mild_downlinkTask htr⟩
    · intro e he
      cases hg : s.gone with
      | true => exact .inl rfl
      | false => exact absurd he (h.quiet hd hg e)
  | downlinkSend hd hsend => exact h.downlinkSend hd hsend
  | dropReceiver => exact ⟨h.last,h.unpolled,fun _ _ => .inl rfl,fun _ _ => .inl rfl⟩

theorem step_downlinkSend (c : Codec) {d : DownlinkPhase} {out : RealtimeOut} (hd : s.adapter = .running d)
    (hout : d.message = some out) :
    Session.step c s .downlinkSend = some { s.put out with adapter := d.after s.gone } := by
  simp only [Session.step,hd]
  exact downlinkSend_eq_some_iff.mpr ⟨out,hout,rfl⟩

/-- An adapter that is running has a message for a receiver that is there. -/
theorem exists_run_speaking (c : Codec) {d : DownlinkPhase} (hd : s.adapter = .running d) (hg : s.gone = false) :
    ∃ bs u out, exec (Session.step c) s bs = some u ∧ u.outbound = s.outbound++[out] := by
  cases hout : d.message with
  | some out =>
    exact ⟨[.downlinkSend],_,out,exec_cons_iff.mpr ⟨_,step_downlinkSend c hd hout,rfl⟩,put_outbound hg out⟩
  | none =>
    -- the downlink is receiving, and the socket ends
    obtain rfl : d = .receiving := by cases d <;> first | rfl | exact nomatch hout
    refine ⟨[.server (.ok none),.downlinkSend],
      { s with adapter := .ended, outbound := s.outbound++[.done] },.done,?_,rfl⟩
    simp [exec,Session.step,hd,downlinkTask,Session.downlinkSend,put,hg]

theorem not_unterminated_snoc (outs : List RealtimeOut) (e : InferenceError) :
    ¬ Unterminated (outs++[.error e]) := by
  intro h
  exact nomatch h (.error e) (by simp)

theorem downlinkTask_of_troubled {frame : Ws.Received} (h : Troubled c frame = true) :
    ∃ e, downlinkTask c frame = .failing e := by
  unfold Troubled at h
  split at h
  case h_1 text => exact ⟨.serverError 500 (some text),by simp only [downlinkTask,h,if_true]⟩
  case h_2 e => exact ⟨_,rfl⟩
  case h_3 => exact absurd h Bool.false_ne_true

theorem uplinkTask_of_refused {msg : RealtimeIn} (h : Refused msg = true) (c : Codec) (s : Session) :
    ∃ e, s.uplinkTask c (some msg) = { s with uplink := .reporting e } := by
  cases msg with
  | audioFrame pcm params =>
    have hformat : params.format ≠ .pcm16Le := by simpa [Refused] using h
    exact ⟨_,if_pos hformat⟩
  | interrupt => exact ⟨_,rfl⟩
  | text _ => exact nomatch h
  | commit => exact nomatch h
  | close => exact nomatch h

/-- An uplink with something to report puts it after a terminal message, or ahead of what the
downlink has to say. -/
theorem exists_breaking_run_of_reporting (c : Codec) {e : InferenceError} (hu : s.uplink = .reporting e)
    (hg : s.gone = false) (hp : s.adapter ≠ .unpolled) (hopen : ¬ (s.ended = true ∧ Unterminated s.outbound)) :
    ∃ bs u, exec (Session.step c) s bs = some u ∧ ¬ TerminalLast u.outbound := by
  have hsend : Session.step c s .uplinkSend =
      some { s with uplink := .ended, outbound := s.outbound++[.error e] } := by
    simp [Session.step,hu,put,hg]
  by_cases hout : Unterminated s.outbound
  · -- the error is the first terminal message, and the downlink is still running
    obtain ⟨d,hd⟩ : ∃ d, s.adapter = .running d := by
      cases hs : s.adapter with
      | unpolled => exact absurd hs hp
      | running d => exact ⟨d,rfl⟩
      | ended => exact absurd ⟨ended_iff.mpr hs,hout⟩ hopen
    obtain ⟨bs,u,out,hbs,hu⟩ := exists_run_speaking c
      (s := { s with uplink := .ended, outbound := s.outbound++[.error e] }) hd hg
    refine ⟨.uplinkSend::bs,u,exec_cons_iff.mpr ⟨_,hsend,hbs⟩,?_⟩
    rw [hu]
    exact not_terminalLast_snoc (not_unterminated_snoc _ e) out
  · refine ⟨[.uplinkSend],_,exec_cons_iff.mpr ⟨_,hsend,rfl⟩,?_⟩
    exact not_terminalLast_snoc hout _

/-- A run that takes a step off the condition can go on to put a message after a terminal
one. -/
theorem Closing.exists_breaking_run (h : Closing s) (ha : ¬ Smooth c s a)
    (hstep : Session.step c s a = some t) :
    ∃ bs u, exec (Session.step c) t bs = some u ∧ ¬ TerminalLast u.outbound := by
  cases move_of_step hstep with
  | @inbound msg hu =>
    cases msg with
    | none => exact absurd trivial ha
    | some msg =>
      obtain ⟨hrefused,hgone,hopen⟩ : Refused msg = true ∧ s.gone = false ∧
          ¬ (s.ended = true ∧ Unterminated s.outbound) := by
        have hn : ¬ (Refused msg = true → s.gone = true ∨ s.ended = true ∧ Unterminated s.outbound) := ha
        push Not at hn
        exact ⟨hn.1,by simpa using hn.2.1,fun hx => hn.2.2 hx.1 hx.2⟩
      obtain ⟨e,he⟩ := uplinkTask_of_refused hrefused c s
      rw [he]
      exact exists_breaking_run_of_reporting c rfl hgone (h.polled (by simp [hu])) hopen
  | @server frame hd =>
    obtain ⟨htroubled,hgone⟩ : Troubled c frame = true ∧ s.gone = false := by
      simpa [Smooth] using ha
    obtain ⟨e,he⟩ := downlinkTask_of_troubled htroubled
    rw [he]
    refine ⟨[.downlinkSend,.downlinkSend],
      { s with adapter := .ended, outbound := (s.outbound++[.error e])++[.done] },?_,?_⟩
    · simp [exec,Session.step,Session.downlinkSend,put,hgone]
    · exact not_terminalLast_snoc (not_unterminated_snoc _ e) .done
  | _ => exact absurd trivial ha

end Session
end GeminiLive

/-- Both adapters keep their terminal message last in every run on their condition, and a
run that leaves the condition can be continued until they do not. -/
theorem terminal_message_last (oc : OpenAiRealtime.Codec) (gc : GeminiLive.Codec) :
    (∀ as t, exec (OpenAiRealtime.Adapter.step oc) {} as = some t →
      Throughout (OpenAiRealtime.Adapter.step oc) (OpenAiRealtime.Adapter.Silent oc) {} as →
      TerminalLast t.outbound ∧ ∀ a u, ¬ OpenAiRealtime.Adapter.Silent oc t a →
        OpenAiRealtime.Adapter.step oc t a = some u →
        ∃ bs v, exec (OpenAiRealtime.Adapter.step oc) u bs = some v ∧ ¬ TerminalLast v.outbound) ∧
    (∀ as t, exec (GeminiLive.Session.step gc) {} as = some t →
      Throughout (GeminiLive.Session.step gc) (GeminiLive.Session.Smooth gc) {} as →
      TerminalLast t.outbound ∧ ∀ a u, ¬ GeminiLive.Session.Smooth gc t a →
        GeminiLive.Session.step gc t a = some u →
        ∃ bs v, exec (GeminiLive.Session.step gc) u bs = some v ∧ ¬ TerminalLast v.outbound) := by
  constructor
  · intro as t hrun hcond
    have hclosing : OpenAiRealtime.Adapter.Closing t :=
      exec_invariant (fun _ _ _ hs ha hst => hs.step ha hst) OpenAiRealtime.Adapter.Closing.init hcond hrun
    exact ⟨hclosing.last,fun a u ha hst => OpenAiRealtime.Adapter.exists_breaking_run ha hst⟩
  · intro as t hrun hcond
    have hclosing : GeminiLive.Session.Closing t :=
      exec_invariant (fun _ _ _ hs ha hst => hs.step ha hst) GeminiLive.Session.Closing.init hcond hrun
    exact ⟨hclosing.last,fun a u ha hst => hclosing.exists_breaking_run ha hst⟩

/-- One response and one clean end. -/
theorem terminal_message_last_of_one_turn :
    (∃ t, exec (OpenAiRealtime.Adapter.step OpenAiRealtime.Adapter.tagCodec) {}
        [.server (.ok (some (.text "\x7b\"type\":\"response.done\"\x7d"))),.outboundSend,.inbound none,
          .sinkSend true] = some t ∧ TerminalLast t.outbound) ∧
    ∃ t, exec (GeminiLive.Session.step GeminiLive.Session.turnCodec) {}
        [.poll,.inbound (some .commit),.wsSend true,.server (.ok none),.downlinkSend] = some t ∧
      TerminalLast t.outbound := by
  obtain ⟨hopenAi,hgemini⟩ := terminal_message_last OpenAiRealtime.Adapter.tagCodec
    GeminiLive.Session.turnCodec
  constructor
  · have hrun : ∃ t, exec (OpenAiRealtime.Adapter.step OpenAiRealtime.Adapter.tagCodec) {}
        [.server (.ok (some (.text "\x7b\"type\":\"response.done\"\x7d"))),.outboundSend,.inbound none,
          .sinkSend true] = some t := ⟨_,rfl⟩
    obtain ⟨t,ht⟩ := hrun
    refine ⟨t,ht,(hopenAi _ t ht ?_).1⟩
    simp [Throughout,OpenAiRealtime.Adapter.Silent,Unterminated]
  · have hrun : ∃ t, exec (GeminiLive.Session.step GeminiLive.Session.turnCodec) {}
        [.poll,.inbound (some .commit),.wsSend true,.server (.ok none),.downlinkSend] = some t := ⟨_,rfl⟩
    obtain ⟨t,ht⟩ := hrun
    refine ⟨t,ht,(hgemini _ t ht ?_).1⟩
    simp [Throughout,GeminiLive.Session.Smooth,GeminiLive.Refused,GeminiLive.Troubled]

/-- Two turns of one OpenAI session end it twice, and a Gemini session that has failed ends
cleanly after that. -/
theorem terminal_message_not_last :
    (∃ t, exec (OpenAiRealtime.Adapter.step OpenAiRealtime.Adapter.tagCodec) {}
        [.server (.ok (some (.text "\x7b\"type\":\"response.done\"\x7d"))),.outboundSend,
          .server (.ok (some (.text "\x7b\"type\":\"response.done\"\x7d"))),.outboundSend] = some t ∧
      t.outbound = [.done,.done] ∧ ¬ TerminalLast t.outbound) ∧
    ∃ t, exec (GeminiLive.Session.step GeminiLive.Session.turnCodec) {}
        [.poll,.server (.ok (some (.text "\x7b\"error\":\x7b\x7d\x7d"))),.downlinkSend,.downlinkSend] =
          some t ∧
      t.outbound = [.error (.serverError 500 (some "\x7b\"error\":\x7b\x7d\x7d")),.done] ∧
      ¬ TerminalLast t.outbound := by
  constructor
  · refine ⟨_,rfl,rfl,?_⟩
    intro hlast
    exact nomatch hlast [] .done [.done] rfl rfl
  · refine ⟨_,rfl,rfl,?_⟩
    intro hlast
    exact nomatch hlast [] _ [.done] rfl rfl

end RakkaInference
