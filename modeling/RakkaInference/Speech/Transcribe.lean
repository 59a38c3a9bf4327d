import RakkaInference.Speech.Transcripts

/-! A transcription session from the call on: what the two runners check before they open a socket, and the
tasks that then share the channels. -/
namespace RakkaInference

/-- The prompt and the temperature are left out: neither runner reads them. -/
structure TranscribeOptions where
  language : Option String := none
  interimResults : Bool := false
  wordTimestamps : Bool := false
  diarize : Bool := false

inductive AudioOptions
  | transcribe (opts : TranscribeOptions)
  | audio2Face

inductive AudioPayload
  | bytes (data : List UInt8) (params : AudioParams)
  | path (path : String) (params : AudioParams)
  | url (url : String) (params : AudioParams)

inductive AudioInput
  | static (payload : AudioPayload)
  /-- The caller has the sender of a channel of that capacity. -/
  | stream (params : AudioParams) (capacity : ℕ)

structure AudioBatch where
  requestId : String
  model : String
  input : AudioInput
  options : AudioOptions

namespace Stt

abbrev Item : Type := Except InferenceError TranscriptChunk

/-- What fills the input channel. -/
inductive Source
  /-- A task that cuts a payload has got to an offset. -/
  | cutting (bytes : List UInt8) (offset : ℕ)
  | caller
  /-- No sender is left. -/
  | gone

inductive Uplink
  | draining
  | sending (chunk : List UInt8)
  | closing
  /-- A send has failed, and the error is not on the output channel yet. -/
  | failing (e : String)
  | done (failure : Option String)

structure Session where
  source : Source
  capacity : ℕ
  input : List (List UInt8) := []
  uplink : Uplink := .draining
  /-- The frames that the socket took. -/
  wire : List Ws.Frame := []
  /-- What the downlink task has read. -/
  heard : List Ws.Received := []
  /-- What the downlink task still has to send, once it reads no further. -/
  items : Option (List Item) := none
  out : List Item := []
  /-- What the caller has got. -/
  taken : List Item := []
  /-- The caller has not dropped its stream. -/
  listening : Bool := true

def staticChunkBytes : ℕ := 4096
def outCapacity : ℕ := 16

/-- The name of the provider, for the errors; the payload is read where it is a path. -/
def materializePayload (name : String) (read : String → Except String (List UInt8)) :
    AudioPayload → Except InferenceError (List UInt8 × AudioParams)
  | .bytes data params => .ok (data,params)
  | .path path params =>
    match read path with
    | .ok data => .ok (data,params)
    | .error e => .error (.badRequest s!"{name}: read {path}: {e}")
  | .url _ _ => .error (.unsupported "execute_audio: URL audio payloads (use Stream or Bytes)" .speechToText)

/-- The parameters of the audio, and what fills the channel of what capacity. -/
def openAudioInput (name : String) (read : String → Except String (List UInt8)) :
    AudioInput → Except InferenceError (AudioParams × Source × ℕ)
  | .static payload => do
    let (bytes,params) ← materializePayload name read payload
    .ok (params,.cutting bytes 0,8)
  | .stream params capacity => .ok (params,.caller,capacity)

/-- The request that upgrades to a socket. -/
structure Upgrade where
  url : String
  query : List (String × String)
  headers : List (String × String)

/-- What a runner has from outside: its configuration joined to the address, the snapshot's credential, the
files, and the connection. -/
structure Outside where
  listenUrl : Except String String
  apiKey : String
  read : String → Except String (List UInt8)
  connect : Upgrade → Except String Unit

/-- A provider as its tasks see it. -/
structure Provider (ε ρ : Type) where
  downlink : Dialect ε ρ
  /-- The text frame that asks for the last transcript. -/
  closeJson : String

/-- What the tasks of a call are started with. -/
structure Started where
  request : Upgrade
  opts : TranscribeOptions
  session : Session

/-- The socket is opened and the tasks are started. -/
def start (name : String) (o : Outside) (request : Upgrade) (opts : TranscribeOptions) (source : Source)
    (capacity : ℕ) : Except InferenceError Started :=
  match o.connect request with
  | .ok () => .ok ⟨request,opts,{ source, capacity }⟩
  | .error e => .error (.networkError s!"{name} ws connect: {e}")

end Stt

namespace Deepgram
open Stt

def deepgramEncoding : AudioFormat → Except InferenceError String
  | .pcm16Le => .ok "linear16"
  | .pcmF32Le => .ok "linear32"
  | .oggOpus => .ok "opus"
  | .flac => .ok "flac"
  | .mp3 => .ok "mp3"
  | .wav => .ok "wav"
  | .pcm24Le =>
    .error (.unsupportedAudioFormat "Deepgram does not accept 24-bit PCM directly; resample to 16-bit")

def provider (fromStr : String → Except String InboundEnvelope) (requestId : String) (opts : TranscribeOptions) :
    Provider InboundEnvelope ResultsEnvelope where
  downlink := downlink fromStr requestId opts.diarize opts.wordTimestamps
  closeJson := "\x7b\"type\":\"CloseStream\"\x7d"

def query (smartFormat : Bool) (model encoding : String) (params : AudioParams) (opts : TranscribeOptions) :
    List (String × String) :=
  [("model",model),("encoding",encoding),("sample_rate",toString params.sampleRateHz),
    ("channels",toString params.channels),("interim_results",if opts.interimResults then "true" else "false")]++
  (if opts.diarize then [("diarize","true")] else [])++
  (if smartFormat then [("smart_format","true")] else [])++
  (opts.language.map fun lang => ("language",lang)).toList++
  -- asked for whether or not interim results are
  [("endpointing","300")]

def executeAudio (o : Outside) (smartFormat : Bool) (batch : AudioBatch) :
    Except InferenceError Started :=
  match batch.options with
  | .audio2Face => .error (.badRequest "deepgram: AudioOptions::Audio2Face is not supported")
  | .transcribe opts => do
    let (params,source,capacity) ← openAudioInput "deepgram" o.read batch.input
    let encoding ← deepgramEncoding params.format
    match o.listenUrl with
    | .error e => .error (.internal s!"deepgram listen url: {e}")
    | .ok url =>
      start "deepgram" o ⟨url,query smartFormat batch.model encoding params opts,
        [("Authorization",s!"Token {o.apiKey}")]⟩ opts source capacity

end Deepgram

namespace AssemblyAi
open Stt

def assertFormatSupported : AudioFormat → Except InferenceError Unit
  | .pcm16Le => .ok ()
  | other => .error (.unsupportedAudioFormat
      s!"AssemblyAI Streaming v3 only accepts 16-bit PCM mono (got {other.debug}); resample upstream")

def provider (fromStr : String → Except String InboundEnvelope) (requestId : String) (opts : TranscribeOptions) :
    Provider InboundEnvelope TurnEnvelope where
  downlink := downlink fromStr requestId opts.wordTimestamps
  closeJson := "\x7b\"type\":\"Terminate\"\x7d"

def executeAudio (o : Outside) (formatTurns : Bool) (batch : AudioBatch) :
    Except InferenceError Started :=
  match batch.options with
  | .audio2Face => .error (.badRequest "assemblyai: AudioOptions::Audio2Face is not supported")
  | .transcribe opts => do
    let (params,source,capacity) ← openAudioInput "assemblyai" o.read batch.input
    assertFormatSupported params.format
    if params.channels ≠ 1 then
      .error (.unsupportedAudioFormat s!"assemblyai: only mono audio is supported (got {params.channels} channels)")
    else
      match o.listenUrl with
      | .error e => .error (.internal s!"assemblyai listen url: {e}")
      | .ok url =>
        start "assemblyai" o ⟨url,("sample_rate",toString params.sampleRateHz)::
          (if formatTurns then [("format_turns","true")] else []),[("Authorization",o.apiKey)]⟩ opts source capacity

end AssemblyAi

namespace Stt
variable {ε ρ : Type}

inductive SessionAction
  /-- The task that cuts the payload goes on. -/
  | feed
  /-- The caller sends a chunk, or drops the sender. -/
  | push (chunk : List UInt8)
  | hangUp
  /-- The uplink task looks into the channel. -/
  | recv
  /-- The socket answers the uplink task's send. -/
  | sent (result : Except String Unit)
  | report
  /-- The socket returns something to the downlink task. -/
  | hear (frame : Ws.Received)
  /-- The downlink task sends the next of its items. -/
  | emit
  | take
  | leave

def Uplink.isDone : Uplink → Bool
  | done _ => true
  | _ => false

namespace Session

/-- The receiving end of the input channel lives as long as the uplink task. -/
def feed (s : Session) : Option Session :=
  match s.source with
  | .cutting bytes offset =>
    if offset < bytes.length then
      if s.uplink.isDone then some { s with source := .gone }
      else if s.input.length < s.capacity then
        let stop := min (offset+staticChunkBytes) bytes.length
        some { s with source := .cutting bytes stop, input := s.input++[(bytes.take stop).drop offset] }
      else none
    else some { s with source := .gone }
  | .caller | .gone => none

def push (s : Session) (chunk : List UInt8) : Option Session :=
  match s.source with
  | .caller =>
    if s.uplink.isDone = false ∧ s.input.length < s.capacity then some { s with input := s.input++[chunk] } else none
  | .cutting _ _ | .gone => none

def hangUp (s : Session) : Option Session :=
  match s.source with
  | .caller => some { s with source := .gone }
  | .cutting _ _ | .gone => none

def recv (s : Session) : Option Session :=
  match s.uplink,s.input with
  | .draining,chunk::rest =>
    if chunk = [] then some { s with input := rest }
    else some { s with input := rest, uplink := .sending chunk }
  | .draining,[] =>
    match s.source with
    | .gone => some { s with uplink := .closing }
    | .cutting _ _ | .caller => none
  | _,_ => none

def sent (p : Provider ε ρ) (s : Session) (result : Except String Unit) : Option Session :=
  match s.uplink,result with
  | .sending chunk,.ok () => some { s with uplink := .draining, wire := s.wire++[.binary chunk] }
  | .sending _,.error e => some { s with uplink := .failing e }
  | .closing,.ok () => some { s with uplink := .done none, wire := s.wire++[.text p.closeJson] }
  -- no one hears that the close marker did not go out
  | .closing,.error _ => some { s with uplink := .done none }
  | _,_ => none

/-- What the uplink task says of a failure. -/
def sendError (p : Provider ε ρ) (e : String) : Item := .error (.networkError s!"{p.downlink.name} ws send: {e}")

/-- A send on the output channel waits for room; where the caller is gone it fails at once. -/
def report (p : Provider ε ρ) (s : Session) : Option Session :=
  match s.uplink with
  | .failing e =>
    if s.listening then
      if s.out.length < outCapacity then some { s with uplink := .done (some e), out := s.out++[sendError p e] }
      else none
    else some { s with uplink := .done (some e) }
  | _ => none

def hear (p : Provider ε ρ) (requestId : String) (emitInterim : Bool) (s : Session) (frame : Ws.Received) :
    Option Session :=
  match s.items with
  | none =>
    let heard := s.heard++[frame]
    some { s with heard, items := Downlink.run p.downlink requestId emitInterim heard }
  | some _ => none

def emit (s : Session) : Option Session :=
  match s.items with
  | some (item::rest) =>
    if s.listening then
      if s.out.length < outCapacity then some { s with items := some rest, out := s.out++[item] } else none
    else some { s with items := some [] }
  | some [] | none => none

def take (s : Session) : Option Session :=
  match s.out with
  | item::rest => some { s with out := rest, taken := s.taken++[item] }
  | [] => none

def leave (s : Session) : Option Session :=
  if s.listening then some { s with listening := false, out := [] } else none

def step (p : Provider ε ρ) (requestId : String) (emitInterim : Bool) (s : Session) : SessionAction → Option Session
  | .feed => s.feed
  | .push chunk => s.push chunk
  | .hangUp => s.hangUp
  | .recv => s.recv
  | .sent result => s.sent p result
  | .report => s.report p
  | .hear frame => s.hear p requestId emitInterim frame
  | .emit => s.emit
  | .take => s.take
  | .leave => s.leave

/-- The chunk that an action puts into the input channel. -/
def pushed (s : Session) : SessionAction → List (List UInt8)
  | .feed =>
    match s.source with
    | .cutting bytes offset =>
      if offset < bytes.length ∧ s.uplink.isDone = false then
        [(bytes.take (min (offset+staticChunkBytes) bytes.length)).drop offset]
      else []
    | .caller | .gone => []
  | .push chunk => [chunk]
  | _ => []

/-- Both tasks are over and the channel is empty, so that the caller's stream ends. -/
def ended (s : Session) : Prop := s.uplink.isDone ∧ s.items = some [] ∧ s.out = []

end Session
end Stt
end RakkaInference
