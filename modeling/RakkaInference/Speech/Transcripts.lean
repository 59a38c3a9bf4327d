import RakkaInference.Core.Request
import RakkaInference.Speech.Downlink

/-! The two providers of streamed transcripts. Their downlink tasks are the same but for the
envelopes and their conversion. -/
namespace RakkaInference
open Machine Downlink

namespace Deepgram

structure DeepgramWord where
  word : String := ""
  punctuatedWord : Option String := none
  start : Float32
  stop : Float32
  confidence : Option Float32 := none
  speaker : Option UInt32 := none

structure TranscriptAlternative where
  transcript : String := ""
  confidence : Option Float32 := none
  words : List DeepgramWord := []

structure ResultsChannel where
  alternatives : List TranscriptAlternative

structure ResultsEnvelope where
  start : Float32 := 0
  duration : Float32 := 0
  /-- The segment is not revised any more. -/
  isFinal : Bool := false
  /-- The last result of an utterance. -/
  speechFinal : Bool := false
  channel : ResultsChannel

inductive InboundEnvelope
  | results (r : ResultsEnvelope)
  | metadata (requestId : Option String) (modelInfo : Option Json)
  | other

def secondsToMs (s : Float32) : UInt32 := (max (s*1000) 0).toUInt32

def resultsToChunk (requestId : String) (wantDiarize wantWords : Bool) (r : ResultsEnvelope) : TranscriptChunk :=
  let alt := r.channel.alternatives.head?.getD {}
  { requestId
    isFinal := r.speechFinal
    text := alt.transcript
    tsStartMs := secondsToMs r.start
    tsEndMs := secondsToMs (r.start+r.duration)
    speakerId := if wantDiarize then alt.words.findSome? fun w => w.speaker.map toString else none
    words :=
      if wantWords then alt.words.map fun w =>
        { text := w.punctuatedWord.getD w.word
          tsStartMs := secondsToMs w.start
          tsEndMs := secondsToMs w.stop
          confidence := w.confidence }
      else [] }

/-- The downlink task of `execute_audio`. -/
def downlink (fromStr : String → Except String InboundEnvelope) (requestId : String)
    (wantDiarize wantWords : Bool) : Dialect InboundEnvelope ResultsEnvelope where
  name := "deepgram"
  fromStr := fromStr
  result?
    | .results r => some r
    | .metadata _ _ | .other => none
  settled := ResultsEnvelope.isFinal
  toChunk := resultsToChunk requestId wantDiarize wantWords

end Deepgram

namespace AssemblyAi

structure AssemblyWord where
  text : String := ""
  start : UInt32 := 0
  stop : UInt32 := 0
  confidence : Option Float32 := none
  wordIsFinal : Bool := false

structure TurnEnvelope where
  turnOrder : UInt32 := 0
  turnIsFormatted : Bool := false
  endOfTurn : Bool := false
  endOfTurnConfidence : Option Float32 := none
  transcript : String := ""
  words : List AssemblyWord := []

inductive InboundEnvelope
  | begin (id : Option String) (expiresAt : Option UInt64)
  | turn (t : TurnEnvelope)
  | termination (audioDurationSeconds sessionDurationSeconds : Option Float32)
  | other

def turnToChunk (requestId : String) (wantWords : Bool) (t : TurnEnvelope) : TranscriptChunk where
  requestId := requestId
  isFinal := t.endOfTurn
  text := t.transcript
  tsStartMs := (t.words.head?.map AssemblyWord.start).getD 0
  tsEndMs := (t.words.getLast?.map AssemblyWord.stop).getD 0
  words :=
    if wantWords then t.words.map fun w =>
      { text := w.text, tsStartMs := w.start, tsEndMs := w.stop, confidence := w.confidence }
    else []

/-- The downlink task of `execute_audio`. -/
def downlink (fromStr : String → Except String InboundEnvelope) (requestId : String) (wantWords : Bool) :
    Dialect InboundEnvelope TurnEnvelope where
  name := "assemblyai"
  fromStr := fromStr
  result?
    | .turn t => some t
    | .begin _ _ | .termination _ _ | .other => none
  settled := TurnEnvelope.endOfTurn
  toChunk := turnToChunk requestId wantWords

end AssemblyAi

/-- A transcription session terminates when no malformed envelope disturbs it and the final chunks
are in their place. -/
theorem transcripts_terminate_iff (requestId : String) (wantWords emitInterim : Bool) (frames : List Ws.Received)
    (hframes : EndsOnce closes frames) :
    (∀ (fromStr : String → Except String Deepgram.InboundEnvelope) (wantDiarize : Bool),
      Terminates (Deepgram.downlink fromStr requestId wantDiarize wantWords) requestId emitInterim frames ↔
        Undisturbed (Deepgram.downlink fromStr requestId wantDiarize wantWords) emitInterim frames) ∧
    ∀ fromStr : String → Except String AssemblyAi.InboundEnvelope,
      Terminates (AssemblyAi.downlink fromStr requestId wantWords) requestId emitInterim frames ↔
        Undisturbed (AssemblyAi.downlink fromStr requestId wantWords) emitInterim frames := by
  constructor
  · intro fromStr wantDiarize
    exact terminates_iff hframes
  · intro fromStr
    exact terminates_iff hframes

/-- An utterance that is over. -/
def helloText : String :=
  "\x7b\"type\":\"Results\",\"is_final\":true,\"speech_final\":true,"++
    "\"channel\":\x7b\"alternatives\":[\x7b\"transcript\":\"Hello\"\x7d]\x7d\x7d"

/-- A segment that may still be revised. -/
def interimText : String :=
  "\x7b\"type\":\"Results\",\"channel\":\x7b\"alternatives\":[\x7b\"transcript\":\"wor\"\x7d]\x7d\x7d"

def hello : Deepgram.ResultsEnvelope where
  isFinal := true
  speechFinal := true
  channel := ⟨[{ transcript := "Hello" }]⟩

def interim : Deepgram.ResultsEnvelope := { channel := ⟨[{ transcript := "wor" }]⟩ }

/-- A decoder that knows the two envelopes. -/
def envelopeOf (text : String) : Except String Deepgram.InboundEnvelope :=
  if text = helloText then .ok (.results hello)
  else if text = interimText then .ok (.results interim)
  else .error "expected value at line 1 column 1"

theorem envelopeOf_hello : envelopeOf helloText = .ok (.results hello) := if_pos rfl

theorem envelopeOf_interim : envelopeOf interimText = .ok (.results interim) := by
  rw [envelopeOf,if_neg (by decide +kernel),if_pos rfl]

def helloCall : List Ws.Received := [.ok (some (.text helloText)),.ok (some (.close 1000 "bye"))]

theorem transcripts_terminate_hello :
    Terminates (Deepgram.downlink envelopeOf "r" false false) "r" true helloCall := by
  refine ((transcripts_terminate_iff "r" false true helloCall
    ⟨[_],_,rfl,rfl,by simp [closes]⟩).1 envelopeOf false).2
    ⟨?_,.inr (.inr ⟨Deepgram.resultsToChunk "r" false false hello,?_,rfl⟩)⟩
  · simp [helloCall,malformed,Deepgram.downlink,envelopeOf_hello]
  · simp [helloCall,chunks,List.filterMap_cons,wanted,Deepgram.downlink,envelopeOf_hello]

def revisedCall : List Ws.Received :=
  [.ok (some (.text helloText)),.ok (some (.text interimText)),.ok (some (.close 1000 "bye"))]

def brokenCall : List Ws.Received := [.ok (some (.text "oops")),.ok none]

/-- A downlink task that decodes nothing. -/
def deafDownlink : Dialect AssemblyAi.InboundEnvelope AssemblyAi.TurnEnvelope :=
  AssemblyAi.downlink (fun _ => .error "expected value at line 1 column 1") "r" false

/-- An interim segment comes last; and an envelope that does not decode is followed by a chunk. -/
theorem transcripts_do_not_terminate :
    (EndsOnce closes revisedCall ∧
      run (Deepgram.downlink envelopeOf "r" false false) "r" true revisedCall =
        some [.ok (Deepgram.resultsToChunk "r" false false hello),
          .ok (Deepgram.resultsToChunk "r" false false interim)] ∧
      ¬ Terminates (Deepgram.downlink envelopeOf "r" false false) "r" true revisedCall) ∧
    (EndsOnce closes brokenCall ∧
      run deafDownlink "r" false brokenCall =
        some [.error (.internal "assemblyai envelope decode: expected value at line 1 column 1"),
          .ok { requestId := "r", isFinal := true }] ∧
      ¬ Terminates deafDownlink "r" false brokenCall) := by
  have hrevised : run (Deepgram.downlink envelopeOf "r" false false) "r" true revisedCall =
      some [.ok (Deepgram.resultsToChunk "r" false false hello),
        .ok (Deepgram.resultsToChunk "r" false false interim)] := by
    simp [revisedCall,run,receive,Deepgram.downlink,envelopeOf_hello,envelopeOf_interim,badCode,conclude,
      Deepgram.resultsToChunk,hello]
  have hbroken : run deafDownlink "r" false brokenCall =
      some [.error (.internal "assemblyai envelope decode: expected value at line 1 column 1"),
        .ok { requestId := "r", isFinal := true }] := rfl
  refine ⟨⟨⟨[_,_],_,rfl,rfl,by simp [closes]⟩,hrevised,?_⟩,⟨[_],_,rfl,rfl,by simp [closes]⟩,hbroken,?_⟩
  · rintro ⟨items,hrun,-,hfinal⟩
    obtain rfl := Option.some.inj (hrevised.symm.trans hrun)
    obtain ⟨c,hlast,hc⟩ := hfinal (by simp [Except.isOk,Except.toBool])
    obtain rfl : Deepgram.resultsToChunk "r" false false interim = c := by simpa using hlast
    exact absurd hc Bool.false_ne_true
  · rintro ⟨items,hrun,hinit,-⟩
    obtain rfl := Option.some.inj (hbroken.symm.trans hrun)
    exact absurd (hinit _ List.mem_cons_self) Bool.false_ne_true

/-- A transcription session delivers its results when the socket does not end it with an error, or
there are no results. -/
theorem transcripts_delivered_iff (requestId : String) (wantWords emitInterim : Bool) (frames : List Ws.Received) :
    (∀ (fromStr : String → Except String Deepgram.InboundEnvelope) (wantDiarize : Bool),
      EndsOnce (ends (Deepgram.downlink fromStr requestId wantDiarize wantWords)) frames →
      (Delivers (Deepgram.downlink fromStr requestId wantDiarize wantWords) requestId emitInterim frames ↔
        (∀ frame ∈ frames, fails frame = false) ∨
          chunks (Deepgram.downlink fromStr requestId wantDiarize wantWords) emitInterim frames = [])) ∧
    ∀ fromStr : String → Except String AssemblyAi.InboundEnvelope,
      EndsOnce (ends (AssemblyAi.downlink fromStr requestId wantWords)) frames →
      (Delivers (AssemblyAi.downlink fromStr requestId wantWords) requestId emitInterim frames ↔
        (∀ frame ∈ frames, fails frame = false) ∨
          chunks (AssemblyAi.downlink fromStr requestId wantWords) emitInterim frames = []) := by
  constructor
  · intro fromStr wantDiarize hframes
    exact delivers_iff hframes
  · intro fromStr hframes
    exact delivers_iff hframes

/-- A malformed envelope discards nothing. -/
theorem transcripts_delivered_broken :
    Delivers (Deepgram.downlink envelopeOf "r" false false) "r" false
      [.ok (some (.text helloText)),.ok (some (.text "oops"))] := by
  refine ((transcripts_delivered_iff "r" false false [.ok (some (.text helloText)),.ok (some (.text "oops"))]).1
    envelopeOf false ⟨[_],_,rfl,?_,?_⟩).2 (.inl ?_)
  · have hoops : envelopeOf "oops" = .error "expected value at line 1 column 1" := by
      rw [envelopeOf,if_neg (by decide +kernel),if_neg (by decide +kernel)]
    simp [ends,malformed,Deepgram.downlink,hoops]
  · simp [ends,closes,malformed,Deepgram.downlink,envelopeOf_hello]
  · simp [fails]

def droppedCall : List Ws.Received := [.ok (some (.text helloText)),.error "connection reset"]

/-- A receive error discards the utterance before it. -/
theorem transcripts_lost :
    EndsOnce (ends (Deepgram.downlink envelopeOf "r" false false)) droppedCall ∧
      run (Deepgram.downlink envelopeOf "r" false false) "r" false droppedCall =
        some [.error (.networkError "deepgram ws recv: connection reset")] ∧
      chunks (Deepgram.downlink envelopeOf "r" false false) false droppedCall =
        [Deepgram.resultsToChunk "r" false false hello] ∧
      ¬ Delivers (Deepgram.downlink envelopeOf "r" false false) "r" false droppedCall := by
  have hrun : run (Deepgram.downlink envelopeOf "r" false false) "r" false droppedCall =
      some [.error (.networkError "deepgram ws recv: connection reset")] := by
    simp only [droppedCall,run,receive,Deepgram.downlink,envelopeOf_hello]
    rfl
  have hchunks : chunks (Deepgram.downlink envelopeOf "r" false false) false droppedCall =
      [Deepgram.resultsToChunk "r" false false hello] := by
    simp [droppedCall,chunks,List.filterMap_cons,wanted,Deepgram.downlink,envelopeOf_hello,hello,Option.filter]
  refine ⟨⟨[_],_,rfl,rfl,?_⟩,hrun,hchunks,?_⟩
  · simp [ends,closes,malformed,Deepgram.downlink,envelopeOf_hello]
  · rintro ⟨items,hrun',hsame⟩
    obtain rfl := Option.some.inj (hrun.symm.trans hrun')
    rw [hchunks] at hsame
    obtain hsame | ⟨hnone,-⟩ := hsame
    · exact absurd (congrArg List.length hsame) Nat.zero_ne_one
    · exact absurd hnone (List.cons_ne_nil _ _)

end RakkaInference
