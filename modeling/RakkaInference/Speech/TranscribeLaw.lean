import RakkaInference.Machine.Logs
import RakkaInference.Machine.Woven
import RakkaInference.Speech.Transcribe

/-! What goes over the wire and what the caller gets in a transcription session, in every order of the steps of
its tasks. -/
namespace RakkaInference.Stt
open Machine

variable {ε ρ : Type} {p : Provider ε ρ} {requestId : String} {emitInterim : Bool} {s t : Session}
  {a : SessionAction} {l : List (List UInt8)}

/-- The frames of the chunks that are not empty. -/
def audio (chunks : List (List UInt8)) : List Ws.Frame := (chunks.filter (· ≠ [])).map .binary

/-- The audio that frames carry. -/
def carried (wire : List Ws.Frame) : List UInt8 := wire.flatMap fun
  | .binary payload => payload
  | _ => []

theorem audio_append (as bs : List (List UInt8)) : audio (as++bs) = audio as++audio bs := by
  simp [audio]

theorem audio_singleton {chunk : List UInt8} (h : chunk ≠ []) : audio [chunk] = [.binary chunk] := by
  simp [audio,h]

@[simp] theorem audio_empty : audio [[]] = [] := rfl

theorem carried_append (v w : List Ws.Frame) : carried (v++w) = carried v++carried w := by
  simp [carried]

theorem carried_audio (chunks : List (List UInt8)) : carried (audio chunks) = chunks.flatten := by
  induction chunks with
  | nil => rfl
  | cons chunk chunks ih =>
    rw [← List.singleton_append,audio_append,carried_append,ih,List.flatten_append]
    congr 1
    by_cases h : chunk = []
    · rw [h]
      rfl
    · rw [audio_singleton h]
      simp [carried]

theorem text_not_mem_audio (text : String) (chunks : List (List UInt8)) : .text text ∉ audio chunks := by
  simp [audio]

/-- Where the uplink task is with the chunks it has taken from the channel. -/
def Drained (p : Provider ε ρ) (s : Session) (chunks : List (List UInt8)) : Prop :=
  match s.uplink with
  | .draining => s.wire = audio chunks
  | .sending chunk => chunk ≠ [] ∧ s.wire++[.binary chunk] = audio chunks
  | .closing => s.wire = audio chunks ∧ s.source = .gone ∧ s.input = []
  | .failing _ | .done (some _) => ∃ chunk, s.wire++[.binary chunk] = audio chunks
  | .done none => s.source = .gone ∧ s.input = [] ∧
      (s.wire = audio chunks ∨ s.wire = audio chunks++[.text p.closeJson])

/-- The input channel is first in, first out. -/
def Uploaded (p : Provider ε ρ) (s : Session) (l : List (List UInt8)) : Prop :=
  ∃ chunks, l = chunks++s.input ∧ Drained p s chunks

/-! What each operation can do. -/

theorem feed_cases (h : s.feed = some t) : ∃ bytes offset, s.source = .cutting bytes offset ∧
    (offset < bytes.length ∧ s.uplink.isDone = false ∧ s.input.length < s.capacity ∧
        t = { s with
          source := .cutting bytes (min (offset+staticChunkBytes) bytes.length)
          input := s.input++[(bytes.take (min (offset+staticChunkBytes) bytes.length)).drop offset] } ∨
      (bytes.length ≤ offset ∨ s.uplink.isDone = true) ∧ t = { s with source := .gone }) := by
  unfold Session.feed at h
  split at h
  case h_1 bytes offset hsource =>
    refine ⟨bytes,offset,hsource,?_⟩
    split at h
    case isTrue hlt =>
      split at h
      case isTrue hdone => exact .inr ⟨.inr hdone,(Option.some.inj h).symm⟩
      case isFalse hdone =>
        split at h
        case isTrue hroom => exact .inl ⟨hlt,by simpa using hdone,hroom,(Option.some.inj h).symm⟩
        case isFalse => cases h
    case isFalse hle => exact .inr ⟨.inl (Nat.le_of_not_lt hle),(Option.some.inj h).symm⟩
  all_goals cases h

theorem push_cases {chunk : List UInt8} (h : s.push chunk = some t) :
    s.source = .caller ∧ s.uplink.isDone = false ∧ t = { s with input := s.input++[chunk] } := by
  unfold Session.push at h
  split at h
  case h_1 hsource =>
    split at h
    case isTrue hroom => exact ⟨hsource,hroom.1,(Option.some.inj h).symm⟩
    case isFalse => cases h
  all_goals cases h

theorem hangUp_cases (h : s.hangUp = some t) : s.source = .caller ∧ t = { s with source := .gone } := by
  unfold Session.hangUp at h
  split at h
  case h_1 hsource => exact ⟨hsource,(Option.some.inj h).symm⟩
  all_goals cases h

theorem recv_cases (h : s.recv = some t) : s.uplink = .draining ∧
    ((∃ rest, s.input = []::rest ∧ t = { s with input := rest }) ∨
      (∃ chunk rest, s.input = chunk::rest ∧ chunk ≠ [] ∧ t = { s with input := rest, uplink := .sending chunk }) ∨
      s.input = [] ∧ s.source = .gone ∧ t = { s with uplink := .closing }) := by
  unfold Session.recv at h
  split at h
  case h_1 chunk rest huplink hinput =>
    refine ⟨huplink,?_⟩
    split at h
    case isTrue hnil => exact .inl ⟨rest,by rw [hinput,hnil],(Option.some.inj h).symm⟩
    case isFalse hne => exact .inr (.inl ⟨chunk,rest,hinput,hne,(Option.some.inj h).symm⟩)
  case h_2 huplink hinput =>
    refine ⟨huplink,?_⟩
    split at h
    case h_1 hsource => exact .inr (.inr ⟨hinput,hsource,(Option.some.inj h).symm⟩)
    all_goals cases h
  case h_3 => cases h

theorem sent_cases {result : Except String Unit} (h : s.sent p result = some t) :
    (∃ chunk, s.uplink = .sending chunk ∧ t = { s with uplink := .draining, wire := s.wire++[.binary chunk] }) ∨
      (∃ chunk e, s.uplink = .sending chunk ∧ t = { s with uplink := .failing e }) ∨
      s.uplink = .closing ∧ t = { s with uplink := .done none, wire := s.wire++[.text p.closeJson] } ∨
      s.uplink = .closing ∧ t = { s with uplink := .done none } := by
  unfold Session.sent at h
  split at h
  case h_1 chunk huplink => exact .inl ⟨chunk,huplink,(Option.some.inj h).symm⟩
  case h_2 chunk e huplink => exact .inr (.inl ⟨chunk,e,huplink,(Option.some.inj h).symm⟩)
  case h_3 huplink => exact .inr (.inr (.inl ⟨huplink,(Option.some.inj h).symm⟩))
  case h_4 huplink => exact .inr (.inr (.inr ⟨huplink,(Option.some.inj h).symm⟩))
  case h_5 => cases h

theorem report_cases (h : s.report p = some t) : ∃ e, s.uplink = .failing e ∧
    (s.listening = true ∧ t = { s with uplink := .done (some e), out := s.out++[Session.sendError p e] } ∨
      s.listening = false ∧ t = { s with uplink := .done (some e) }) := by
  unfold Session.report at h
  split at h
  case h_1 e huplink =>
    refine ⟨e,huplink,?_⟩
    split at h
    case isTrue hlistening =>
      split at h
      case isTrue => exact .inl ⟨hlistening,(Option.some.inj h).symm⟩
      case isFalse => cases h
    case isFalse hgone => exact .inr ⟨by simpa using hgone,(Option.some.inj h).symm⟩
  case h_2 => cases h

theorem hear_cases {frame : Ws.Received} (h : s.hear p requestId emitInterim frame = some t) :
    s.items = none ∧ t = { s with
      heard := s.heard++[frame]
      items := Downlink.run p.downlink requestId emitInterim (s.heard++[frame]) } := by
  unfold Session.hear at h
  split at h
  case h_1 hitems => exact ⟨hitems,(Option.some.inj h).symm⟩
  case h_2 => cases h

theorem emit_cases (h : s.emit = some t) : ∃ item rest, s.items = some (item::rest) ∧
    (s.listening = true ∧ t = { s with items := some rest, out := s.out++[item] } ∨
      s.listening = false ∧ t = { s with items := some [] }) := by
  unfold Session.emit at h
  split at h
  case h_1 item rest hitems =>
    refine ⟨item,rest,hitems,?_⟩
    split at h
    case isTrue hlistening =>
      split at h
      case isTrue => exact .inl ⟨hlistening,(Option.some.inj h).symm⟩
      case isFalse => cases h
    case isFalse hgone => exact .inr ⟨by simpa using hgone,(Option.some.inj h).symm⟩
  all_goals cases h

theorem take_cases (h : s.take = some t) : ∃ item rest, s.out = item::rest ∧
    t = { s with out := rest, taken := s.taken++[item] } := by
  unfold Session.take at h
  split at h
  case h_1 item rest hout => exact ⟨item,rest,hout,(Option.some.inj h).symm⟩
  case h_2 => cases h

theorem leave_cases (h : s.leave = some t) : s.listening = true ∧ t = { s with listening := false, out := [] } := by
  unfold Session.leave at h
  split at h
  case isTrue hlistening => exact ⟨hlistening,(Option.some.inj h).symm⟩
  case isFalse => cases h

/-! The uplink. -/

/-- A chunk comes into the channel. -/
theorem Uploaded.push {chunk : List UInt8} {source : Source} (h : Uploaded p s l) (hsource : s.source ≠ .gone) :
    Uploaded p { s with source, input := s.input++[chunk] } (l++[chunk]) := by
  obtain ⟨chunks,rfl,hdrained⟩ := h
  refine ⟨chunks,by rw [List.append_assoc],?_⟩
  unfold Drained at hdrained ⊢
  cases huplink : s.uplink with
  | closing =>
    simp only [huplink] at hdrained
    exact absurd hdrained.2.1 hsource
  | done failure =>
    cases failure with
    | none =>
      simp only [huplink] at hdrained
      exact absurd hdrained.1 hsource
    | some e => simpa only [huplink] using hdrained
  | draining | sending _ | failing _ => simpa only [huplink] using hdrained

/-- The last sender goes. -/
theorem Uploaded.over (h : Uploaded p s l) : Uploaded p { s with source := .gone } l := by
  obtain ⟨chunks,rfl,hdrained⟩ := h
  refine ⟨chunks,rfl,?_⟩
  unfold Drained at hdrained ⊢
  cases huplink : s.uplink with
  | closing =>
    simp only [huplink] at hdrained
    exact ⟨hdrained.1,rfl,hdrained.2.2⟩
  | done failure =>
    cases failure with
    | none =>
      simp only [huplink] at hdrained
      exact ⟨rfl,hdrained.2⟩
    | some e => simpa only [huplink] using hdrained
  | draining | sending _ | failing _ => simpa only [huplink] using hdrained

theorem Uploaded.recv (h : Uploaded p s l) (hstep : s.recv = some t) : Uploaded p t l := by
  obtain ⟨chunks,rfl,hdrained⟩ := h
  obtain ⟨huplink,⟨rest,hinput,rfl⟩ | ⟨chunk,rest,hinput,hne,rfl⟩ | ⟨hinput,hsource,rfl⟩⟩ := recv_cases hstep
  all_goals simp only [Drained,huplink] at hdrained
  · refine ⟨chunks++[[]],by simp [hinput],?_⟩
    simp only [Drained,huplink]
    rw [hdrained,audio_append,audio_empty,List.append_nil]
  · refine ⟨chunks++[chunk],by simp [hinput],hne,?_⟩
    rw [hdrained,audio_append,audio_singleton hne]
  · exact ⟨chunks,rfl,hdrained,hsource,hinput⟩

theorem Uploaded.sent {result : Except String Unit} (h : Uploaded p s l) (hstep : s.sent p result = some t) :
    Uploaded p t l := by
  obtain ⟨chunks,rfl,hdrained⟩ := h
  obtain ⟨chunk,huplink,rfl⟩ | ⟨chunk,e,huplink,rfl⟩ | ⟨huplink,rfl⟩ | ⟨huplink,rfl⟩ := sent_cases hstep
  all_goals simp only [Drained,huplink] at hdrained
  · exact ⟨chunks,rfl,hdrained.2⟩
  · exact ⟨chunks,rfl,chunk,hdrained.2⟩
  · exact ⟨chunks,rfl,hdrained.2.1,hdrained.2.2,.inr (by rw [hdrained.1])⟩
  · exact ⟨chunks,rfl,hdrained.2.1,hdrained.2.2,.inl hdrained.1⟩

theorem Uploaded.report (h : Uploaded p s l) (hstep : s.report p = some t) : Uploaded p t l := by
  obtain ⟨chunks,rfl,hdrained⟩ := h
  obtain ⟨e,huplink,⟨-,rfl⟩ | ⟨-,rfl⟩⟩ := report_cases hstep
  all_goals
    simp only [Drained,huplink] at hdrained
    exact ⟨chunks,rfl,hdrained⟩

/-- The downlink and the caller leave the upload alone. -/
theorem Uploaded.frame (h : Uploaded p s l) (hsource : t.source = s.source) (hinput : t.input = s.input)
    (huplink : t.uplink = s.uplink) (hwire : t.wire = s.wire) : Uploaded p t l := by
  obtain ⟨chunks,rfl,hdrained⟩ := h
  refine ⟨chunks,by rw [hinput],?_⟩
  unfold Drained at hdrained ⊢
  rwa [huplink,hwire,hsource,hinput]

theorem Uploaded.step (h : Uploaded p s l) (hstep : s.step p requestId emitInterim a = some t) :
    Uploaded p t (l++s.pushed a) := by
  cases a with
  | feed =>
    obtain ⟨bytes,offset,hsource,⟨hlt,hdone,-,rfl⟩ | ⟨hend,rfl⟩⟩ := feed_cases hstep
    · simp only [Session.pushed,hsource,hlt,hdone,and_self,if_true]
      exact h.push (by rw [hsource]; simp)
    · have hnone : s.pushed .feed = [] := by
        simp only [Session.pushed,hsource]
        rw [if_neg]
        rintro ⟨hlt,hdone⟩
        rcases hend with hle | htrue
        · omega
        · exact Bool.false_ne_true (hdone.symm.trans htrue)
      rw [hnone,List.append_nil]
      exact h.over
  | push chunk =>
    obtain ⟨hsource,-,rfl⟩ := push_cases hstep
    exact h.push (by rw [hsource]; simp)
  | hangUp =>
    obtain ⟨-,rfl⟩ := hangUp_cases hstep
    simpa [Session.pushed] using h.over
  | recv => simpa [Session.pushed] using h.recv hstep
  | sent result => simpa [Session.pushed] using h.sent hstep
  | report => simpa [Session.pushed] using h.report hstep
  | hear frame =>
    obtain ⟨-,rfl⟩ := hear_cases hstep
    simp only [Session.pushed,List.append_nil]
    exact h.frame rfl rfl rfl rfl
  | emit =>
    obtain ⟨item,rest,-,⟨-,rfl⟩ | ⟨-,rfl⟩⟩ := emit_cases hstep
    all_goals
      simp only [Session.pushed,List.append_nil]
      exact h.frame rfl rfl rfl rfl
  | take =>
    obtain ⟨item,rest,-,rfl⟩ := take_cases hstep
    simp only [Session.pushed,List.append_nil]
    exact h.frame rfl rfl rfl rfl
  | leave =>
    obtain ⟨-,rfl⟩ := leave_cases hstep
    simp only [Session.pushed,List.append_nil]
    exact h.frame rfl rfl rfl rfl

theorem uploaded_run {as : List SessionAction} (h : Uploaded p s [])
    (hrun : exec (Session.step p requestId emitInterim) s as = some t) :
    Uploaded p t (logged (Session.step p requestId emitInterim) Session.pushed s as) := by
  have hall := exec_logged (I := Uploaded p) (fun s a t l hs hstep => hs.step hstep) h hrun
  rwa [List.nil_append] at hall

/-- The close marker comes after all of the audio, once there is no more. -/
theorem Uploaded.wire (h : Uploaded p s l) : s.wire <+: audio l++[.text p.closeJson] ∧
    (.text p.closeJson ∈ s.wire → s.source = .gone ∧ s.wire = audio l++[.text p.closeJson]) := by
  obtain ⟨chunks,rfl,hdrained⟩ := h
  have hpart : ∀ wire rest, wire++rest = audio chunks → wire <+: audio (chunks++s.input)++[.text p.closeJson] ∧
      (.text p.closeJson ∈ wire → s.source = .gone ∧ wire = audio (chunks++s.input)++[.text p.closeJson]) := by
    intro wire rest heq
    constructor
    · rw [audio_append,List.append_assoc,← heq,List.append_assoc]
      exact List.prefix_append _ _
    · intro hmem
      refine absurd ?_ (text_not_mem_audio p.closeJson chunks)
      rw [← heq]
      exact List.mem_append_left _ hmem
  unfold Drained at hdrained
  cases huplink : s.uplink with
  | draining =>
    simp only [huplink] at hdrained
    exact hpart _ [] (by rw [List.append_nil,hdrained])
  | sending chunk =>
    simp only [huplink] at hdrained
    exact hpart _ _ hdrained.2
  | closing =>
    simp only [huplink] at hdrained
    exact hpart _ [] (by rw [List.append_nil,hdrained.1])
  | failing e =>
    simp only [huplink] at hdrained
    obtain ⟨chunk,heq⟩ := hdrained
    exact hpart _ _ heq
  | done failure =>
    cases failure with
    | some e =>
      simp only [huplink] at hdrained
      obtain ⟨chunk,heq⟩ := hdrained
      exact hpart _ _ heq
    | none =>
      simp only [huplink] at hdrained
      obtain ⟨hsource,hinput,heq | heq⟩ := hdrained
      · exact hpart _ [] (by rw [List.append_nil,heq])
      · rw [heq,hinput,List.append_nil]
        exact ⟨List.prefix_rfl,fun _ => ⟨hsource,rfl⟩⟩

/-! The payload of a call that has all of it. -/

/-- The pieces are what has been cut off so far; cutting stops early only where the uplink task has failed. -/
def Cut (bytes : List UInt8) (s : Session) (l : List (List UInt8)) : Prop :=
  (∀ chunk ∈ l, chunk ≠ [] ∧ chunk.length ≤ staticChunkBytes) ∧
    match s.source with
    | .cutting b offset => b = bytes ∧ offset ≤ bytes.length ∧ l.flatten = bytes.take offset
    | .gone => l.flatten = bytes ∨ l.flatten <+: bytes ∧ ∃ e, s.uplink = .done (some e)
    | .caller => False

theorem Cut.feed {bytes : List UInt8} (h : Cut bytes s l) (hup : Uploaded p s l) (hstep : s.feed = some t) :
    Cut bytes t (l++s.pushed .feed) := by
  obtain ⟨hpieces,hsofar⟩ := h
  obtain ⟨b,offset,hsource,hcase⟩ := feed_cases hstep
  simp only [hsource] at hsofar
  obtain ⟨rfl,hle,hflatten⟩ := hsofar
  obtain ⟨hlt,hdone,-,rfl⟩ | ⟨hend,rfl⟩ := hcase
  · simp only [Session.pushed,hsource,hlt,hdone,and_self,if_true]
    generalize hstop : min (offset+staticChunkBytes) b.length = stop
    have hpos : 0 < staticChunkBytes := by decide
    have hlength : ((b.take stop).drop offset).length = stop-offset := by
      rw [List.length_drop,List.length_take]
      omega
    refine ⟨?_,rfl,by omega,?_⟩
    · intro chunk hchunk
      rcases List.mem_append.mp hchunk with hold | hnew
      · exact hpieces chunk hold
      · rw [List.mem_singleton.mp hnew]
        refine ⟨?_,by rw [hlength]; omega⟩
        intro hnil
        rw [hnil,List.length_nil] at hlength
        omega
    · have htake : b.take offset = (b.take stop).take offset := by
        rw [List.take_take]
        congr 1
        omega
      rw [List.flatten_append,hflatten,htake,List.flatten_singleton,List.take_append_drop]
  · have hnone : s.pushed .feed = [] := by
      simp only [Session.pushed,hsource]
      rw [if_neg]
      rintro ⟨hlt,hdone⟩
      rcases hend with hle' | htrue
      · omega
      · exact Bool.false_ne_true (hdone.symm.trans htrue)
    rw [hnone,List.append_nil]
    refine ⟨hpieces,?_⟩
    rcases hend with hle' | htrue
    · left
      rw [hflatten,List.take_of_length_le hle']
    · right
      rw [hflatten]
      refine ⟨List.take_prefix _ _,?_⟩
      obtain ⟨chunks,-,hdrained⟩ := hup
      change ∃ e, s.uplink = .done (some e)
      unfold Drained at hdrained
      cases huplink : s.uplink with
      | done failure =>
        cases failure with
        | some e => exact ⟨e,rfl⟩
        | none =>
          simp only [huplink,hsource] at hdrained
          cases hdrained.1
      | draining | sending _ | closing | failing _ =>
        rw [huplink] at htrue
        exact absurd htrue Bool.false_ne_true

/-- No other step goes back on the source, and a failed upload stays failed. -/
theorem Cut.frame {bytes : List UInt8} (h : Cut bytes s l) (hsource : t.source = s.source)
    (huplink : ∀ e, s.uplink = .done (some e) → t.uplink = s.uplink) : Cut bytes t l := by
  obtain ⟨hpieces,hsofar⟩ := h
  refine ⟨hpieces,?_⟩
  rw [hsource]
  cases hs : s.source with
  | cutting b offset => simpa only [hs] using hsofar
  | caller => simp only [hs] at hsofar
  | gone =>
    simp only [hs] at hsofar
    rcases hsofar with hall | ⟨hpre,e,he⟩
    · exact .inl hall
    · exact .inr ⟨hpre,e,(huplink e he).trans he⟩

theorem Cut.step {bytes : List UInt8} (h : Cut bytes s l) (hup : Uploaded p s l)
    (hstep : s.step p requestId emitInterim a = some t) : Cut bytes t (l++s.pushed a) := by
  have hcaller : s.source ≠ .caller := by
    intro hs
    have hsofar := h.2
    simp only [hs] at hsofar
  cases a with
  | feed => exact h.feed hup hstep
  | push chunk => exact absurd (push_cases hstep).1 hcaller
  | hangUp => exact absurd (hangUp_cases hstep).1 hcaller
  | recv =>
    simp only [Session.pushed,List.append_nil]
    obtain ⟨huplink,⟨rest,-,rfl⟩ | ⟨chunk,rest,-,-,rfl⟩ | ⟨-,-,rfl⟩⟩ := recv_cases hstep
    all_goals exact h.frame rfl fun e he => absurd (huplink.symm.trans he) (by simp)
  | sent result =>
    simp only [Session.pushed,List.append_nil]
    obtain ⟨chunk,huplink,rfl⟩ | ⟨chunk,e,huplink,rfl⟩ | ⟨huplink,rfl⟩ | ⟨huplink,rfl⟩ := sent_cases hstep
    all_goals exact h.frame rfl fun e he => absurd (huplink.symm.trans he) (by simp)
  | report =>
    simp only [Session.pushed,List.append_nil]
    obtain ⟨e,huplink,⟨-,rfl⟩ | ⟨-,rfl⟩⟩ := report_cases hstep
    all_goals exact h.frame rfl fun e he => absurd (huplink.symm.trans he) (by simp)
  | hear frame =>
    obtain ⟨-,rfl⟩ := hear_cases hstep
    simp only [Session.pushed,List.append_nil]
    exact h.frame rfl fun _ _ => rfl
  | emit =>
    obtain ⟨item,rest,-,⟨-,rfl⟩ | ⟨-,rfl⟩⟩ := emit_cases hstep
    all_goals
      simp only [Session.pushed,List.append_nil]
      exact h.frame rfl fun _ _ => rfl
  | take =>
    obtain ⟨item,rest,-,rfl⟩ := take_cases hstep
    simp only [Session.pushed,List.append_nil]
    exact h.frame rfl fun _ _ => rfl
  | leave =>
    obtain ⟨-,rfl⟩ := leave_cases hstep
    simp only [Session.pushed,List.append_nil]
    exact h.frame rfl fun _ _ => rfl

/-! What comes out. -/

/-- What the uplink task has to say of its end. -/
def reports (p : Provider ε ρ) (s : Session) : List Item :=
  match s.uplink with
  | .done (some e) => [Session.sendError p e]
  | .draining | .sending _ | .closing | .failing _ | .done none => []

/-- All that the downlink task sends for what it has read. -/
def results (p : Provider ε ρ) (requestId : String) (emitInterim : Bool) (s : Session) : List Item :=
  (Downlink.run p.downlink requestId emitInterim s.heard).getD []

/-- What is in the channel and what has been taken from it was put in by the two tasks. -/
def Delivered (p : Provider ε ρ) (requestId : String) (emitInterim : Bool) (s : Session) : Prop :=
  (s.items = none → results p requestId emitInterim s = []) ∧
    ∃ us ds, Woven us ds (s.taken++s.out) ∧ us <+: reports p s ∧ ds <+: results p requestId emitInterim s ∧
      (s.listening = true → us = reports p s ∧ ds++s.items.getD [] = results p requestId emitInterim s)

theorem Delivered.frame (h : Delivered p requestId emitInterim s) (hheard : t.heard = s.heard)
    (hitems : t.items = s.items) (htaken : t.taken++t.out = s.taken++s.out) (hlistening : t.listening = s.listening)
    (hreports : reports p t = reports p s) : Delivered p requestId emitInterim t := by
  unfold Delivered results at h ⊢
  rwa [hheard,hitems,htaken,hlistening,hreports]

theorem Delivered.step (h : Delivered p requestId emitInterim s)
    (hstep : s.step p requestId emitInterim a = some t) : Delivered p requestId emitInterim t := by
  cases a with
  | feed =>
    obtain ⟨bytes,offset,-,⟨-,-,-,rfl⟩ | ⟨-,rfl⟩⟩ := feed_cases hstep
    all_goals exact h.frame rfl rfl rfl rfl rfl
  | push chunk =>
    obtain ⟨-,-,rfl⟩ := push_cases hstep
    exact h.frame rfl rfl rfl rfl rfl
  | hangUp =>
    obtain ⟨-,rfl⟩ := hangUp_cases hstep
    exact h.frame rfl rfl rfl rfl rfl
  | recv =>
    obtain ⟨huplink,⟨rest,-,rfl⟩ | ⟨chunk,rest,-,-,rfl⟩ | ⟨-,-,rfl⟩⟩ := recv_cases hstep
    all_goals exact h.frame rfl rfl rfl rfl (by simp only [reports,huplink])
  | sent result =>
    obtain ⟨chunk,huplink,rfl⟩ | ⟨chunk,e,huplink,rfl⟩ | ⟨huplink,rfl⟩ | ⟨huplink,rfl⟩ := sent_cases hstep
    all_goals exact h.frame rfl rfl rfl rfl (by simp only [reports,huplink])
  | report =>
    obtain ⟨hnone,us,ds,hwoven,hus,hds,hall⟩ := h
    obtain ⟨e,huplink,⟨hlistening,rfl⟩ | ⟨hgone,rfl⟩⟩ := report_cases hstep
    all_goals
      simp only [reports,huplink,List.prefix_nil] at hus
      subst hus
    · refine ⟨hnone,_,ds,?_,List.prefix_rfl,hds,fun _ => ⟨rfl,(hall hlistening).2⟩⟩
      rw [← List.append_assoc]
      exact hwoven.left _
    · refine ⟨hnone,_,ds,hwoven,List.nil_prefix,hds,?_⟩
      intro hlistening
      exact absurd (hlistening.symm.trans hgone) Bool.noConfusion
  | hear frame =>
    obtain ⟨hnone,us,ds,hwoven,hus,hds,hall⟩ := h
    obtain ⟨hitems,rfl⟩ := hear_cases hstep
    rw [hnone hitems,List.prefix_nil] at hds
    subst hds
    refine ⟨?_,us,[],hwoven,hus,List.nil_prefix,fun hlistening => ⟨(hall hlistening).1,rfl⟩⟩
    intro hrun
    simp only at hrun
    simp only [results,hrun,Option.getD_none]
  | emit =>
    obtain ⟨hnone,us,ds,hwoven,hus,hds,hall⟩ := h
    obtain ⟨item,rest,hitems,⟨hlistening,rfl⟩ | ⟨hgone,rfl⟩⟩ := emit_cases hstep
    · obtain ⟨hreports,hresults⟩ := hall hlistening
      rw [hitems,Option.getD_some] at hresults
      refine ⟨by simp,us,ds++[item],?_,hus,⟨rest,?_⟩,fun _ => ⟨hreports,?_⟩⟩
      · rw [← List.append_assoc]
        exact hwoven.right _
      · rw [List.append_assoc]
        exact hresults
      · rw [List.append_assoc]
        exact hresults
    · refine ⟨by simp,us,ds,hwoven,hus,hds,?_⟩
      intro hlistening
      exact absurd (hlistening.symm.trans hgone) Bool.noConfusion
  | take =>
    obtain ⟨item,rest,hout,rfl⟩ := take_cases hstep
    exact h.frame rfl rfl (by rw [hout,List.append_assoc]; rfl) rfl rfl
  | leave =>
    obtain ⟨hnone,us,ds,hwoven,hus,hds,-⟩ := h
    obtain ⟨-,rfl⟩ := leave_cases hstep
    obtain ⟨us',ds',hus',hds',hw⟩ := hwoven.of_prefix (List.prefix_append s.taken s.out)
    refine ⟨hnone,us',ds',?_,hus'.trans hus,hds'.trans hds,?_⟩
    · rwa [List.append_nil]
    · intro hlistening
      cases hlistening

/-! What holds of a session whatever the order of its steps. -/

/-- The bytes that a payload has where it can be read. -/
def payloadData (read : String → Except String (List UInt8)) : AudioPayload → Option (List UInt8)
  | .bytes data _ => some data
  | .path path _ => (read path).toOption
  | .url _ _ => none

/-- The wire has the audio in order and then the close marker; the caller has results of the downlink in order, with
the one error of the uplink somewhere among them; and its stream does not end before the audio does. -/
structure SessionLaw (read : String → Except String (List UInt8)) (p : Provider ε ρ) (batch : AudioBatch)
    (opts : TranscribeOptions) (pushed : List (List UInt8)) (s : Session) : Prop where
  wire : s.wire <+: audio pushed++[.text p.closeJson]
  closed : .text p.closeJson ∈ s.wire → s.source = .gone ∧ s.wire = audio pushed++[.text p.closeJson]
  whole : ∀ payload, batch.input = .static payload → ∃ bytes, payloadData read payload = some bytes ∧
    carried s.wire <+: bytes ∧ (.text p.closeJson ∈ s.wire → carried s.wire = bytes) ∧
      ∀ frame, .binary frame ∈ s.wire → frame ≠ [] ∧ frame.length ≤ staticChunkBytes
  taken : ∃ us ds, Woven us ds s.taken ∧ us <+: reports p s ∧ ds <+: results p batch.requestId opts.interimResults s
  ended : s.ended → s.listening = true →
    Woven (reports p s) (results p batch.requestId opts.interimResults s) s.taken ∧
      (s.source = .gone ∨ ∃ e, s.uplink = .done (some e))

/-- How a session starts. -/
inductive Opened (read : String → Except String (List UInt8)) : AudioInput → Session → Prop
  | static {payload : AudioPayload} {bytes : List UInt8} (h : payloadData read payload = some bytes) :
      Opened read (.static payload) { source := .cutting bytes 0, capacity := 8 }
  | stream (params : AudioParams) (capacity : ℕ) :
    Opened read (.stream params capacity) { source := .caller, capacity }

theorem opened_of_openAudioInput {name : String} {read : String → Except String (List UInt8)} {input : AudioInput}
    {params : AudioParams} {source : Source} {capacity : ℕ}
    (h : openAudioInput name read input = .ok (params,source,capacity)) :
    Opened read input { source, capacity } := by
  cases input with
  | stream params' capacity' =>
    cases h
    exact .stream params capacity
  | static payload =>
    cases payload with
    | bytes data params' =>
      cases h
      exact .static rfl
    | path path params' =>
      simp only [openAudioInput,materializePayload] at h
      cases hread : read path with
      | error e =>
        rw [hread] at h
        cases h
      | ok data =>
        rw [hread] at h
        cases h
        exact .static (by rw [payloadData,hread]; rfl)
    | url url params' => cases h

theorem start_eq_ok {name : String} {o : Outside} {request : Upgrade} {opts : TranscribeOptions} {source : Source}
    {capacity : ℕ} {started : Started} (h : start name o request opts source capacity = .ok started) :
    started.session = { source, capacity } := by
  unfold start at h
  split at h
  · cases h
    rfl
  · cases h

theorem Opened.uploaded {read : String → Except String (List UInt8)} {input : AudioInput} (h : Opened read input s) :
    Uploaded p s [] := by
  cases h with
  | static _ => exact ⟨[],rfl,rfl⟩
  | stream _ _ => exact ⟨[],rfl,rfl⟩

theorem Opened.delivered {read : String → Except String (List UInt8)} {input : AudioInput}
    (h : Opened read input s) : Delivered p requestId emitInterim s := by
  cases h with
  | static _ => exact ⟨fun _ => rfl,[],[],.nil,List.nil_prefix,List.nil_prefix,fun _ => ⟨rfl,rfl⟩⟩
  | stream _ _ => exact ⟨fun _ => rfl,[],[],.nil,List.nil_prefix,List.nil_prefix,fun _ => ⟨rfl,rfl⟩⟩

theorem cut_run {bytes : List UInt8} {as : List SessionAction} (h : Cut bytes s []) (hup : Uploaded p s [])
    (hrun : exec (Session.step p requestId emitInterim) s as = some t) :
    Cut bytes t (logged (Session.step p requestId emitInterim) Session.pushed s as) := by
  have hall := exec_logged (I := fun s l => Cut bytes s l ∧ Uploaded p s l)
    (fun s a t l hs hstep => ⟨hs.1.step hs.2 hstep,hs.2.step hstep⟩) ⟨h,hup⟩ hrun
  rw [List.nil_append] at hall
  exact hall.1

/-- What is on the wire of the pieces of a payload. -/
theorem whole_of_cut {bytes : List UInt8} (hcut : Cut bytes s l) (hup : Uploaded p s l) :
    carried s.wire <+: bytes ∧ (.text p.closeJson ∈ s.wire → carried s.wire = bytes) ∧
      ∀ frame, .binary frame ∈ s.wire → frame ≠ [] ∧ frame.length ≤ staticChunkBytes := by
  obtain ⟨hwire,hclosed⟩ := hup.wire
  have hmarker : carried [.text p.closeJson] = [] := rfl
  have hl : l.flatten <+: bytes := by
    have hsofar := hcut.2
    cases hsource : s.source with
    | cutting b offset =>
      simp only [hsource] at hsofar
      rw [hsofar.2.2]
      exact List.take_prefix _ _
    | caller => simp only [hsource] at hsofar
    | gone =>
      simp only [hsource] at hsofar
      rcases hsofar with hall | ⟨hpre,-⟩
      · exact hall ▸ List.prefix_rfl
      · exact hpre
  refine ⟨?_,?_,?_⟩
  · obtain ⟨rest,hrest⟩ := hwire
    have heq := congrArg carried hrest
    rw [carried_append,carried_append,carried_audio,hmarker,List.append_nil] at heq
    refine List.IsPrefix.trans ?_ hl
    rw [← heq]
    exact List.prefix_append _ _
  · intro hmem
    obtain ⟨hsource,heq⟩ := hclosed hmem
    rw [heq,carried_append,carried_audio,hmarker,List.append_nil]
    have hsofar := hcut.2
    simp only [hsource] at hsofar
    rcases hsofar with hall | ⟨-,e,he⟩
    · exact hall
    · -- after a failure the marker is not sent
      obtain ⟨chunks,-,hdrained⟩ := hup
      simp only [Drained,he] at hdrained
      obtain ⟨chunk,hchunk⟩ := hdrained
      refine absurd ?_ (text_not_mem_audio p.closeJson chunks)
      rw [← hchunk]
      exact List.mem_append_left _ hmem
  · intro frame hmem
    have hframe := hwire.subset hmem
    simp only [audio,List.mem_append,List.mem_map,List.mem_filter,List.mem_singleton] at hframe
    rcases hframe with ⟨chunk,⟨hchunk,-⟩,heq⟩ | hmarker
    · obtain rfl := Ws.Frame.binary.inj heq
      exact hcut.1 _ hchunk
    · cases hmarker

theorem sessionLaw_run {read : String → Except String (List UInt8)} {batch : AudioBatch} {opts : TranscribeOptions}
    {as : List SessionAction} (h : Opened read batch.input s)
    (hrun : exec (Session.step p batch.requestId opts.interimResults) s as = some t) :
    SessionLaw read p batch opts (logged (Session.step p batch.requestId opts.interimResults) Session.pushed s as)
      t := by
  have hup := uploaded_run h.uploaded hrun
  have hout : Delivered p batch.requestId opts.interimResults t :=
    exec_preserves (fun s a t hs hstep => hs.step hstep) h.delivered hrun
  obtain ⟨hnone,us,ds,hwoven,hus,hds,hall⟩ := hout
  obtain ⟨hwire,hclosed⟩ := hup.wire
  refine ⟨hwire,hclosed,?_,?_,?_⟩
  · intro payload hpayload
    rw [hpayload] at h
    cases h with
    | static hdata =>
      rename_i bytes
      have hcut : Cut bytes { source := .cutting bytes 0, capacity := 8 } [] := ⟨by simp,rfl,Nat.zero_le _,rfl⟩
      exact ⟨bytes,hdata,whole_of_cut (cut_run hcut ⟨[],rfl,rfl⟩ hrun) hup⟩
  · obtain ⟨us',ds',hus',hds',hw⟩ := hwoven.of_prefix (List.prefix_append t.taken t.out)
    exact ⟨us',ds',hw,hus'.trans hus,hds'.trans hds⟩
  · rintro ⟨hdone,hitems,hempty⟩ hlistening
    obtain ⟨hreports,hresults⟩ := hall hlistening
    rw [hitems,Option.getD_some,List.append_nil] at hresults
    rw [hempty,List.append_nil,hreports,hresults] at hwoven
    refine ⟨hwoven,?_⟩
    obtain ⟨chunks,-,hdrained⟩ := hup
    cases huplink : t.uplink with
    | done failure =>
      cases failure with
      | some e => exact .inr ⟨e,rfl⟩
      | none =>
        simp only [Drained,huplink] at hdrained
        exact .inl hdrained.1
    | draining | sending _ | closing | failing _ =>
      rw [huplink] at hdone
      exact absurd hdone Bool.false_ne_true

theorem deepgram_opened {o : Outside} {smartFormat : Bool} {batch : AudioBatch} {started : Started}
    (h : Deepgram.executeAudio o smartFormat batch = .ok started) : Opened o.read batch.input started.session := by
  unfold Deepgram.executeAudio at h
  split at h
  case h_1 => cases h
  case h_2 opts hopts =>
    cases hopen : openAudioInput "deepgram" o.read batch.input with
    | error e =>
      rw [hopen] at h
      cases h
    | ok opened =>
      obtain ⟨params,source,capacity⟩ := opened
      rw [hopen] at h
      cases hencoding : Deepgram.deepgramEncoding params.format with
      | error e =>
        simp only [bind,Except.bind,hencoding] at h
        cases h
      | ok encoding =>
        simp only [bind,Except.bind,hencoding] at h
        split at h
        · cases h
        · rw [start_eq_ok h]
          exact opened_of_openAudioInput hopen

theorem assemblyAi_opened {o : Outside} {formatTurns : Bool} {batch : AudioBatch} {started : Started}
    (h : AssemblyAi.executeAudio o formatTurns batch = .ok started) : Opened o.read batch.input started.session := by
  unfold AssemblyAi.executeAudio at h
  split at h
  case h_1 => cases h
  case h_2 opts hopts =>
    cases hopen : openAudioInput "assemblyai" o.read batch.input with
    | error e =>
      rw [hopen] at h
      cases h
    | ok opened =>
      obtain ⟨params,source,capacity⟩ := opened
      rw [hopen] at h
      cases hformat : AssemblyAi.assertFormatSupported params.format with
      | error e =>
        simp only [bind,Except.bind,hformat] at h
        cases h
      | ok u =>
        simp only [bind,Except.bind,hformat] at h
        split at h
        · cases h
        · split at h
          · cases h
          · rw [start_eq_ok h]
            exact opened_of_openAudioInput hopen

/-- What holds of every run of the tasks that a call has started. -/
def StartedLaw (read : String → Except String (List UInt8)) (batch : AudioBatch)
    (provider : String → TranscribeOptions → Provider ε ρ) (started : Started) : Prop :=
  let p := provider batch.requestId started.opts
  let step := Session.step p batch.requestId started.opts.interimResults
  ∀ as t, exec step started.session as = some t →
    SessionLaw read p batch started.opts (logged step Session.pushed started.session as) t

/-- Whatever the order of the steps, with either provider. -/
theorem transcription_law (o : Outside) (batch : AudioBatch) (flag : Bool) :
    (∀ (fromStr : String → Except String Deepgram.InboundEnvelope) (started : Started),
      Deepgram.executeAudio o flag batch = .ok started →
      StartedLaw o.read batch (Deepgram.provider fromStr) started) ∧
    ∀ (fromStr : String → Except String AssemblyAi.InboundEnvelope) (started : Started),
      AssemblyAi.executeAudio o flag batch = .ok started →
      StartedLaw o.read batch (AssemblyAi.provider fromStr) started := by
  constructor
  · intro fromStr started hstart as t hrun
    exact sessionLaw_run (deepgram_opened hstart) hrun
  · intro fromStr started hstart as t hrun
    exact sessionLaw_run (assemblyAi_opened hstart) hrun

/-- Everything outside answers. -/
def someOutside : Outside where
  listenUrl := .ok "wss://api.deepgram.com/v1/listen"
  apiKey := "k"
  read := fun _ => .error "No such file or directory (os error 2)"
  connect := fun _ => .ok ()

def someBatch : AudioBatch where
  requestId := "r"
  model := "nova-2"
  input := .static (.bytes [1,2] ⟨16000,1,.pcm16Le⟩)
  options := .transcribe {}

/-- The payload goes over in one frame, and the socket ends. -/
def someCall : List SessionAction :=
  [.feed,.recv,.sent (.ok ()),.feed,.recv,.sent (.ok ()),.hear (.ok none),.emit,.take]

/-- The one frame, the close marker, and a terminal chunk. -/
theorem transcription_law_small : ∃ started t,
    Deepgram.executeAudio someOutside false someBatch = .ok started ∧
    exec (Session.step (Deepgram.provider envelopeOf "r" started.opts) "r" started.opts.interimResults)
      started.session someCall = some t ∧
    t.wire = [.binary [1,2],.text "\x7b\"type\":\"CloseStream\"\x7d"] ∧
    SessionLaw someOutside.read (Deepgram.provider envelopeOf "r" started.opts) someBatch started.opts
      (logged (Session.step (Deepgram.provider envelopeOf "r" started.opts) "r" started.opts.interimResults)
        Session.pushed started.session someCall) t := by
  refine ⟨_,_,rfl,rfl,rfl,?_⟩
  exact (transcription_law someOutside someBatch false).1 envelopeOf _ rfl someCall _ rfl

end RakkaInference.Stt
