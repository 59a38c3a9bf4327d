import RakkaInference.Core.Error

/-! The messages of a realtime session, the chunks of the speech runners, and the frames of the
sockets under them. -/
namespace RakkaInference

inductive AudioFormat
  | pcm16Le
  | pcm24Le
  | pcmF32Le
  | oggOpus
  | mp3
  | flac
  | wav
  deriving DecidableEq

/-- The derived `Debug` text. -/
def AudioFormat.debug : AudioFormat → String
  | pcm16Le => "Pcm16Le"
  | pcm24Le => "Pcm24Le"
  | pcmF32Le => "PcmF32Le"
  | oggOpus => "OggOpus"
  | mp3 => "Mp3"
  | flac => "Flac"
  | wav => "Wav"

structure AudioParams where
  sampleRateHz : UInt32
  channels : UInt8
  format : AudioFormat
  deriving DecidableEq

inductive TranscriptRole
  | user
  | assistant
  deriving DecidableEq

inductive RealtimeIn
  | audioFrame (pcm : List UInt8) (params : AudioParams)
  | text (text : String)
  | commit
  | interrupt
  | close
  deriving DecidableEq

inductive RealtimeOut
  | audioFrame (pcm : List UInt8) (params : AudioParams)
  | transcript (role : TranscriptRole) (text : String) (isFinal : Bool)
  /-- The timings are left out: neither adapter makes this message. -/
  | alignment
  /-- The error that closes the session. -/
  | error (e : InferenceError)
  /-- The session ended cleanly. -/
  | done
  deriving DecidableEq

/-- The messages that are documented as the last of a session. -/
def RealtimeOut.terminal : RealtimeOut → Bool
  | error _ | done => true
  | _ => false

structure CostEstimate where
  usd : Float
  inputTokens : UInt32
  outputTokensMax : UInt32

structure WordTiming where
  text : String
  tsStartMs : UInt32
  tsEndMs : UInt32
  confidence : Option Float32 := none

/-- One streamed chunk of a transcript. -/
structure TranscriptChunk where
  requestId : String
  /-- The last chunk of a turn or an utterance. -/
  isFinal : Bool
  text : String := ""
  tsStartMs : UInt32 := 0
  tsEndMs : UInt32 := 0
  speakerId : Option String := none
  words : List WordTiming := []
  usage : Option CostEstimate := none

structure Viseme where
  id : UInt8
  tsStartMs : UInt32
  tsEndMs : UInt32
  weight : Float32

structure AlignmentDelta where
  words : List WordTiming := []
  visemes : List Viseme := []

/-- One streamed chunk of synthesized speech. -/
structure SpeechChunk where
  requestId : String
  /-- The last chunk of the synthesis. -/
  isFinal : Bool
  audioPcmChunk : List UInt8 := []
  params : AudioParams
  alignment : Option AlignmentDelta := none
  usage : Option CostEstimate := none

namespace Ws

inductive Frame
  | binary (payload : List UInt8)
  | text (s : String)
  | ping (payload : List UInt8)
  | pong (payload : List UInt8)
  | close (code : ℕ) (reason : String)
  deriving DecidableEq

def Frame.isClose : Frame → Bool
  | .close _ _ => true
  | _ => false

/-- What the receiving half of a socket returns: an error with its text, the end of the
stream, or a frame. -/
abbrev Received : Type := Except String (Option Frame)

end Ws
end RakkaInference
