import Mathlib.Algebra.Ring.Nat
import RakkaInference.Core.Audio
import RakkaInference.Machine.Endings

/-! The task of `speak_ws`: it turns the frames of the socket into speech chunks as they come, and
after the loop it adds a final chunk unless one was sent. -/
namespace RakkaInference.ElevenLabs
open Machine

structure WsAlignment where
  chars : List String
  charStartTimesMs : List UInt32
  charDurationsMs : List UInt32

structure WsInboundFrame where
  audio : Option String := none
  alignment : Option WsAlignment := none
  isFinal : Option Bool := none

/-- The JSON and base64 libraries, as the task uses them. -/
structure Codec where
  fromStr : String → Except String WsInboundFrame
  decode : String → Except String (List UInt8)

/-- What the task was started with. -/
structure Synthesis where
  requestId : String
  format : Option AudioFormat
  emitAlignment : Bool

def outputParams (requested : Option AudioFormat) : AudioParams :=
  let format := requested.getD .mp3
  let sampleRateHz := match format with
    | .pcm16Le | .pcm24Le => 24000
    | .oggOpus => 48000
    | _ => 44100
  ⟨sampleRateHz,1,format⟩

def Synthesis.params (s : Synthesis) : AudioParams := outputParams s.format

def saturatingAdd (a b : UInt32) : UInt32 := if a.toNat+b.toNat < 2^32 then a+b else 4294967295

/-- The lists are read as far as the shortest one goes. -/
def wsAlignmentToDelta (a : WsAlignment) : AlignmentDelta where
  words := (a.chars.zip (a.charStartTimesMs.zip a.charDurationsMs)).map fun (text,start,duration) =>
    { text, tsStartMs := start, tsEndMs := saturatingAdd start duration }

/-- The audio of a frame. -/
def audioBytes (c : Codec) (frame : WsInboundFrame) : Except String (List UInt8) :=
  match frame.audio with
  | some b64 => if b64 ≠ "" then c.decode b64 else .ok []
  | none => .ok []

/-- What the loop does with what the socket returns. -/
inductive Reaction
  | skip
  | send (chunk : SpeechChunk)
  /-- Send a final chunk and leave the loop. -/
  | sendFinal (chunk : SpeechChunk)
  /-- Send an error and leave the loop. -/
  | fail (e : InferenceError)
  | leave

/-- The end of the loop's body, for a frame that was decoded. Silent frames are passed by. -/
def emit (s : Synthesis) (audio : List UInt8) (alignment : Option AlignmentDelta) (isFinal : Bool) : Reaction :=
  if audio.isEmpty && alignment.isNone && !isFinal then .skip
  else
    let chunk := { requestId := s.requestId, isFinal, audioPcmChunk := audio, params := s.params, alignment }
    if isFinal then .sendFinal chunk else .send chunk

def react (c : Codec) (s : Synthesis) : Ws.Received → Reaction
  | .ok (some (.text text)) =>
    match c.fromStr text with
    | .ok frame =>
      match audioBytes c frame with
      | .ok audio =>
        let alignment := if s.emitAlignment then frame.alignment.map wsAlignmentToDelta else none
        emit s audio alignment (frame.isFinal.getD false)
      | .error e => .fail (.internal s!"ws audio b64: {e}")
    | .error e => .fail (.internal s!"ws frame decode: {e}")
  | .ok (some (.binary _)) | .ok (some (.ping _)) | .ok (some (.pong _)) => .skip
  | .ok (some (.close code reason)) =>
    if code ≠ 1000 then .fail (.networkError s!"ws closed code={code} reason={reason}") else .leave
  | .ok none => .leave
  | .error e => .fail (.networkError s!"ws recv: {e}")

/-- The loop: what is sent, and whether a final chunk was sent once the loop is left. -/
def loop (c : Codec) (s : Synthesis) : List Ws.Received → List (Except InferenceError SpeechChunk) × Option Bool
  | [] => ([],none)
  | frame::rest =>
    match react c s frame with
    | .skip => loop c s rest
    | .send chunk => (.ok chunk::(loop c s rest).1,(loop c s rest).2)
    | .sendFinal chunk => ([.ok chunk],some true)
    | .fail e => ([.error e],some false)
    | .leave => ([],some false)

/-- The chunk that is sent after the loop. -/
def finalChunk (s : Synthesis) : SpeechChunk := { requestId := s.requestId, isFinal := true, params := s.params }

/-- The items that the task has sent when the socket has returned these frames. -/
def speakWs (c : Codec) (s : Synthesis) (frames : List Ws.Received) : List (Except InferenceError SpeechChunk) :=
  match loop c s frames with
  | (items,some false) => items++[.ok (finalChunk s)]
  | (items,_) => items

/-! The frames of a session, by what they are to the task. -/

def Reaction.leaves : Reaction → Bool
  | .sendFinal _ | .fail _ | .leave => true
  | .skip | .send _ => false

def Reaction.fails : Reaction → Bool
  | .fail _ => true
  | _ => false

theorem Reaction.fails_of_leaves {r : Reaction} (h : r.leaves = false) : r.fails = false := by
  cases r with
  | fail e => exact nomatch h
  | _ => rfl

def Reaction.chunk? : Reaction → Option SpeechChunk
  | .send chunk | .sendFinal chunk => some chunk
  | _ => none

/-- The decoded audio of a frame. -/
def payload (c : Codec) : Ws.Received → List UInt8
  | .ok (some (.text text)) =>
    match c.fromStr text with
    | .ok frame =>
      match audioBytes c frame with
      | .ok audio => audio
      | .error _ => []
    | .error _ => []
  | _ => []

/-- The session failed: a frame or its audio does not decode, or the socket reports an error. -/
def fails (c : Codec) : Ws.Received → Bool
  | .ok (some (.text text)) =>
    match c.fromStr text with
    | .ok frame =>
      match audioBytes c frame with
      | .ok _ => false
      | .error _ => true
    | .error _ => true
  | .ok (some (.close code _)) => code != 1000
  | .error _ => true
  | _ => false

/-- The session is over: it failed, the frame is the final one, or the socket is done. -/
def ends (c : Codec) : Ws.Received → Bool
  | .ok (some (.text text)) =>
    match c.fromStr text with
    | .ok frame =>
      match audioBytes c frame with
      | .ok _ => frame.isFinal.getD false
      | .error _ => true
    | .error _ => true
  | .ok (some (.close _ _)) | .ok none | .error _ => true
  | _ => false

def isTerminal : Except InferenceError SpeechChunk → Bool
  | .ok chunk => chunk.isFinal
  | .error _ => true

/-- The audio of the chunks of a stream. -/
def audioOf (items : List (Except InferenceError SpeechChunk)) : List UInt8 :=
  (items.filterMap Except.toOption).flatMap SpeechChunk.audioPcmChunk

variable {c : Codec} {s : Synthesis} {frame : Ws.Received} {frames rest : List Ws.Received}

/-- A reaction to a frame with this audio, which ends the session or not, by a failure or not. -/
structure Fits (audio : List UInt8) (ends fails : Bool) (r : Reaction) : Prop where
  audio : (r.chunk?.map SpeechChunk.audioPcmChunk).getD [] = audio
  leaves : r.leaves = ends
  fails : r.fails = fails
  final : ∀ chunk ∈ r.chunk?, chunk.isFinal = ends

theorem fits_of_none {r : Reaction} {ends fails : Bool} (h : r.chunk? = none) (hleaves : r.leaves = ends)
    (hfails : r.fails = fails) : Fits [] ends fails r := by
  refine ⟨by rw [h]; rfl,hleaves,hfails,?_⟩
  intro chunk hchunk
  rw [h] at hchunk
  cases hchunk

theorem fits_emit (audio : List UInt8) (alignment : Option AlignmentDelta) (isFinal : Bool) :
    Fits audio isFinal false (emit s audio alignment isFinal) := by
  unfold emit
  split
  case isTrue hsilent =>
    obtain ⟨⟨hempty,-⟩,hfinal⟩ : (audio = [] ∧ alignment = none) ∧ isFinal = false := by simpa using hsilent
    rw [hempty,hfinal]
    exact fits_of_none rfl rfl rfl
  case isFalse =>
    cases isFinal <;> exact ⟨rfl,rfl,rfl,fun chunk hchunk => by obtain rfl := Option.some.inj hchunk; rfl⟩

theorem fits_react (c : Codec) (s : Synthesis) (frame : Ws.Received) :
    Fits (payload c frame) (ends c frame) (fails c frame) (react c s frame) := by
  match frame with
  | .ok (some (.text text)) =>
    simp only [payload,ends,fails,react]
    cases hframe : c.fromStr text with
    | error e => exact fits_of_none rfl rfl rfl
    | ok frame =>
      cases haudio : audioBytes c frame with
      | error e =>
        simp only [haudio]
        exact fits_of_none rfl rfl rfl
      | ok audio =>
        simp only [haudio]
        exact fits_emit audio _ _
  | .ok (some (.close code reason)) =>
    simp only [payload,ends,fails,react]
    by_cases hcode : code = 1000
    · simp only [hcode]
      exact fits_of_none rfl rfl rfl
    · have hbad : (code != 1000) = true := by simpa using hcode
      rw [if_pos hcode,hbad]
      exact fits_of_none rfl rfl rfl
  | .ok (some (.binary _)) | .ok (some (.ping _)) | .ok (some (.pong _)) | .ok none | .error e =>
    exact fits_of_none rfl rfl rfl

/-- The chunks of the frames. -/
def chunks (c : Codec) (s : Synthesis) (frames : List Ws.Received) : List SpeechChunk :=
  frames.filterMap fun frame => (react c s frame).chunk?

/-- The chunks have the audio of the frames. -/
theorem audio_chunks (frames : List Ws.Received) :
    (chunks c s frames).flatMap SpeechChunk.audioPcmChunk = frames.flatMap (payload c) := by
  induction frames with
  | nil => rfl
  | cons frame frames ih =>
    have haudio := (fits_react c s frame).audio
    rw [List.flatMap_cons,← ih,← haudio]
    cases hchunk : (react c s frame).chunk? <;> simp [chunks,hchunk]

/-- Frames that do not end the loop add their chunks. -/
theorem loop_append (h : ∀ frame ∈ frames, (react c s frame).leaves = false) :
    loop c s (frames++rest) = ((chunks c s frames).map .ok++(loop c s rest).1,(loop c s rest).2) := by
  induction frames with
  | nil => rfl
  | cons frame frames ih =>
    obtain ⟨hframe,hframes⟩ := List.forall_mem_cons.1 h
    rw [List.cons_append,loop,ih hframes]
    cases hreact : react c s frame with
    | skip => simp [chunks,hreact,Reaction.chunk?]
    | send chunk => simp [chunks,hreact,Reaction.chunk?]
    | sendFinal chunk => simp [hreact,Reaction.leaves] at hframe
    | fail e => simp [hreact,Reaction.leaves] at hframe
    | leave => simp [hreact,Reaction.leaves] at hframe

/-- The terminal items of a session after the chunks of its frames. -/
inductive Ending (s : Synthesis) (r : Reaction) : List (Except InferenceError SpeechChunk) → Prop
  | sendFinal {chunk : SpeechChunk} (hr : r = .sendFinal chunk) : Ending s r [.ok chunk]
  | fail {e : InferenceError} (hr : r = .fail e) : Ending s r [.error e,.ok (finalChunk s)]
  | leave (hr : r = .leave) : Ending s r [.ok (finalChunk s)]

theorem speakWs_ending (rest : List Ws.Received) (h : ∀ x ∈ frames, (react c s x).leaves = false)
    (hframe : (react c s frame).leaves = true) :
    ∃ items, speakWs c s (frames++frame::rest) = (chunks c s frames).map .ok++items ∧
      Ending s (react c s frame) items := by
  rw [speakWs,loop_append h,loop]
  cases hreact : react c s frame with
  | skip => simp [hreact,Reaction.leaves] at hframe
  | send chunk => simp [hreact,Reaction.leaves] at hframe
  | sendFinal chunk => exact ⟨_,rfl,.sendFinal rfl⟩
  | fail e => exact ⟨_,by simp,.fail rfl⟩
  | leave => exact ⟨_,by simp,.leave rfl⟩

/-- There is one terminal item, at the end, and the audio is the audio of the frames. -/
def Synthesized (c : Codec) (frames : List Ws.Received) (items : List (Except InferenceError SpeechChunk)) : Prop :=
  EndsOnce isTerminal items ∧ audioOf items = frames.flatMap (payload c)

theorem audioOf_append (items items' : List (Except InferenceError SpeechChunk)) :
    audioOf (items++items') = audioOf items++audioOf items' := by
  rw [audioOf,List.filterMap_append,List.flatMap_append]
  rfl

theorem audioOf_chunks (frames : List Ws.Received) :
    audioOf ((chunks c s frames).map .ok) = frames.flatMap (payload c) := by
  rw [audioOf,List.filterMap_map,← audio_chunks]
  exact congrArg (List.flatMap SpeechChunk.audioPcmChunk) List.filterMap_some

/-- The chunks before the end are not terminal. -/
theorem isTerminal_chunks (h : ∀ frame ∈ frames, ends c frame = false) :
    ∀ item ∈ (chunks c s frames).map (.ok : SpeechChunk → Except InferenceError SpeechChunk),
      isTerminal item = false := by
  intro item hitem
  obtain ⟨chunk,hchunk,rfl⟩ := List.mem_map.1 hitem
  obtain ⟨frame,hframe,hmade⟩ := List.mem_filterMap.1 hchunk
  rw [isTerminal,(fits_react c s frame).final chunk hmade,h frame hframe]

/-- The task sends one terminal item when the session does not fail. Frames after the end are not
read. -/
theorem speech_terminates_iff (c : Codec) (s : Synthesis) (frames rest : List Ws.Received)
    (h : EndsOnce (ends c) frames) :
    Synthesized c frames (speakWs c s (frames++rest)) ↔ ∀ frame ∈ frames, fails c frame = false := by
  obtain ⟨init,last,rfl,hlast,hinit⟩ := h
  have hfits := fits_react c s last
  have hplain : ∀ frame ∈ init, (react c s frame).leaves = false := by
    intro frame hframe
    rw [(fits_react c s frame).leaves,hinit frame hframe]
  have hquiet : (∀ frame ∈ init++[last], fails c frame = false) ↔ fails c last = false := by
    have hearlier : ∀ frame ∈ init, fails c frame = false := by
      intro frame hframe
      rw [← (fits_react c s frame).fails,Reaction.fails_of_leaves (hplain frame hframe)]
    simpa [or_imp,forall_and] using fun _ => hearlier
  have hchunks := isTerminal_chunks (s := s) hinit
  obtain ⟨items,hitems,hending⟩ := speakWs_ending rest hplain (hfits.leaves.trans hlast)
  rw [hquiet,← hfits.fails,List.append_assoc,List.singleton_append,hitems,Synthesized,audioOf_append,
    audioOf_chunks,List.flatMap_append,List.flatMap_singleton,← hfits.audio]
  cases hending with
  | @sendFinal chunk hr =>
    have hfinal : chunk.isFinal = true := by
      rw [hfits.final chunk (by simp [hr,Reaction.chunk?]),hlast]
    rw [hr]
    refine iff_of_true ⟨endsOnce_snoc_iff.2 ⟨hfinal,hchunks⟩,?_⟩ rfl
    simp [audioOf,Reaction.chunk?,Except.toOption]
  | leave hr =>
    rw [hr]
    exact iff_of_true ⟨endsOnce_snoc_iff.2 ⟨rfl,hchunks⟩,rfl⟩ rfl
  | @fail e hr =>
    rw [hr]
    refine iff_of_false ?_ nofun
    -- the error comes before the final chunk
    rintro ⟨hends,-⟩
    rw [List.append_cons,endsOnce_snoc_iff] at hends
    exact nomatch hends.2 (.error e) (by simp)

def audioText : String := "\x7b\"audio\":\"AQI=\"\x7d"

def finalText : String := "\x7b\"is_final\":true\x7d"

/-- A codec that knows two frames and the audio of the first. -/
def shortCodec : Codec where
  fromStr text :=
    if text = audioText then .ok { audio := some "AQI=" }
    else if text = finalText then .ok { isFinal := some true }
    else .error "expected value at line 1 column 1"
  decode b64 := if b64 = "AQI=" then .ok [1,2] else .error "Invalid padding"

theorem fromStr_audioText : shortCodec.fromStr audioText = .ok { audio := some "AQI=" } := by
  simp [shortCodec]

theorem fromStr_finalText : shortCodec.fromStr finalText = .ok { isFinal := some true } := by
  have hne : finalText ≠ audioText := by decide +kernel
  simp [shortCodec,hne]

theorem audioBytes_short : audioBytes shortCodec { audio := some "AQI=" } = .ok [1,2] := by
  simp [audioBytes,shortCodec]

theorem speech_terminates_short :
    Synthesized shortCodec [.ok (some (.text audioText)),.ok (some (.text finalText))]
      (speakWs shortCodec ⟨"r",none,false⟩ ([.ok (some (.text audioText)),.ok (some (.text finalText))]++[])) := by
  refine (speech_terminates_iff shortCodec ⟨"r",none,false⟩
    [.ok (some (.text audioText)),.ok (some (.text finalText))] [] ⟨[_],_,rfl,?_,?_⟩).2 ?_
  · simp [ends,fromStr_finalText,audioBytes]
  · simp [ends,fromStr_audioText,audioBytes_short]
  · simp [fails,fromStr_audioText,fromStr_finalText,audioBytes_short]
    rfl

def droppedFrames : List Ws.Received := [.ok (some (.text audioText)),.error "connection reset"]

/-- A receive error is followed by a chunk that says the synthesis is complete. -/
theorem speech_fails_then_completes :
    let s : Synthesis := ⟨"r",none,false⟩
    EndsOnce (ends shortCodec) droppedFrames ∧
      speakWs shortCodec s (droppedFrames++[]) =
        [.ok { requestId := "r", isFinal := false, audioPcmChunk := [1,2], params := s.params },
         .error (.networkError "ws recv: connection reset"),.ok (finalChunk s)] ∧
      ¬ Synthesized shortCodec droppedFrames (speakWs shortCodec s (droppedFrames++[])) := by
  intro s
  have hitems : speakWs shortCodec s (droppedFrames++[]) =
      [.ok { requestId := "r", isFinal := false, audioPcmChunk := [1,2], params := s.params },
       .error (.networkError "ws recv: connection reset"),.ok (finalChunk s)] := by
    simp only [droppedFrames,List.append_nil,speakWs,loop,react,fromStr_audioText,audioBytes_short]
    rfl
  refine ⟨⟨[_],_,rfl,rfl,?_⟩,hitems,?_⟩
  · simp [ends,fromStr_audioText,audioBytes_short]
  · rw [hitems]
    rintro ⟨hends,-⟩
    change EndsOnce isTerminal ([_,_]++[_]) at hends
    rw [endsOnce_snoc_iff] at hends
    exact nomatch hends.2 (.error (.networkError "ws recv: connection reset")) (by simp)

end RakkaInference.ElevenLabs
