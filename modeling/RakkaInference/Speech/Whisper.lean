import RakkaInference.Core.Audio
import RakkaInference.Machine.Chunks
import RakkaInference.Machine.Endings
import RakkaInference.Machine.Results
import RakkaInference.Speech.Wav
import RakkaInference.Machine.Text

/-! A call of the local Whisper runner, from the payload to the transcript. -/
namespace RakkaInference.Whisper
open Machine Wav

/-- A token of a segment, whose text may be unreadable. The times are hundredths of a second. -/
structure Token where
  text : Except String String
  t0 : Int64
  t1 : Int64
  p : Float32

structure Segment where
  text : Except String String
  startTimestamp : Int64
  endTimestamp : Int64
  tokens : List (Option Token)

/-- A run of the model over the samples. -/
abbrev Session := List Float32 → Except String (List (Option Segment))

structure WhisperConfig where
  wordTimestamps : Bool := false
  sampleRateHz : UInt32 := 16000

inductive WhisperError
  | unsupportedAudio (message : String)
  | streamingNotSupported
  | backend (message : String)

def WhisperError.toInference : WhisperError → InferenceError
  | unsupportedAudio message => .unsupportedAudioFormat message
  | streamingNotSupported => .unsupported "execute_audio" .speechToText
  | backend message => .internal s!"whisper: backend error: {message}"

inductive AudioPayload
  | bytes (data : Bytes) (params : AudioParams)
  | path (path : String) (params : AudioParams)
  | url

inductive AudioInput
  | static (payload : AudioPayload)
  | stream

inductive AudioOptions
  | transcribe
  | audio2Face

inductive ReadError
  | notFound
  | other (message : String)

section Payload

def readFile (files : String → Except ReadError Bytes) (path : String) : Except WhisperError Bytes :=
  match files path with
  | .ok data => .ok data
  | .error .notFound => .error (.unsupportedAudio s!"audio file not found at {path}")
  | .error (.other e) => .error (.unsupportedAudio s!"audio file io error at {path}: {e}")

def checkParams (params : AudioParams) (cfgSampleRate : UInt32) : Except WhisperError Unit :=
  if params.sampleRateHz ≠ cfgSampleRate then .error (.unsupportedAudio (s!"expected {cfgSampleRate} Hz, " ++
    s!"got {params.sampleRateHz} Hz (resample upstream — whisper.cpp is hard-coded to 16 kHz)"))
  else if params.channels ≠ 1 then
    .error (.unsupportedAudio s!"expected mono, got {params.channels} channels (mix down upstream)")
  else .ok ()

def lift (r : Except UnsupportedAudio (List Float32)) : Except WhisperError (List Float32) :=
  r.mapError fun e => .unsupportedAudio e.message

def decodeBytes (fuel : ℕ) (data : Bytes) (params : AudioParams) : Ended (Except WhisperError (List Float32)) :=
  match params.format with
  | .pcm16Le => .returned (lift (decodePcm16 data.bytes))
  | .pcmF32Le => .returned (lift (decodePcmF32 data.bytes))
  | .wav => (decodeWav fuel data).map lift
  | other => .returned (.error (.unsupportedAudio
      s!"format {other.debug} not handled by whisper-local; supply Pcm16Le, PcmF32Le or Wav"))

def payloadToF32Pcm (fuel : ℕ) (files : String → Except ReadError Bytes) (cfgSampleRate : UInt32) :
    AudioPayload → Ended (Except WhisperError (List Float32))
  | .bytes data params =>
    match checkParams params cfgSampleRate with
    | .error e => .returned (.error e)
    | .ok _ => decodeBytes fuel data params
  | .path path params =>
    match checkParams params cfgSampleRate with
    | .error e => .returned (.error e)
    | .ok _ =>
      match readFile files path with
      | .error e => .returned (.error e)
      | .ok data => decodeBytes fuel data params
  | .url => .returned (.error (.unsupportedAudio
      "AudioPayload::Url not implemented for local whisper.cpp; fetch upstream"))

end Payload

/-- Hundredths as milliseconds. The product wraps, and the cast keeps its lower half. -/
def toMs (t : Int64) : UInt32 := ((max t 0).toUInt64*10).toUInt32

/-- The marks of the model among the tokens. -/
def isSpecial (text : String) : Bool := text.toList.head? = some '[' || text.toList.head? = some '<'

def wordTiming (token : Token) (text : String) : WordTiming where
  text := String.ofList (Machine.trim text.toList)
  tsStartMs := toMs token.t0
  tsEndMs := toMs token.t1
  confidence := some token.p

/-- The loop over the tokens from the `j`-th on. -/
def extractWords (j : ℕ) (out : List WordTiming) : List (Option Token) → Except WhisperError (List WordTiming)
  | [] => .ok out
  | none::tokens => extractWords (j+1) out tokens
  | some token::tokens =>
    match token.text with
    | .error e => .error (.backend s!"token.to_str_lossy({j}): {e}")
    | .ok text =>
      if isSpecial text then extractWords (j+1) out tokens
      else extractWords (j+1) (out++[wordTiming token text]) tokens

/-- The loop over the segments from the `i`-th on. -/
def pushSegments (cfg : WhisperConfig) (requestId : String) (n i : ℕ) (chunks : List TranscriptChunk) :
    List (Option Segment) → Except WhisperError (List TranscriptChunk)
  | [] => .ok chunks
  | none::_ => .error (.backend s!"get_segment({i}) returned None")
  | some segment::segments =>
    match segment.text with
    | .error e => .error (.backend s!"segment.to_str_lossy({i}): {e}")
    | .ok text =>
      match if cfg.wordTimestamps then extractWords 0 [] segment.tokens else .ok [] with
      | .error e => .error e
      | .ok words => pushSegments cfg requestId n (i+1) (chunks++[{
          requestId
          isFinal := i+1 = n
          text
          tsStartMs := toMs segment.startTimestamp
          tsEndMs := toMs segment.endTimestamp
          words }]) segments

def transcribe (session : Session) (samples : List Float32) (cfg : WhisperConfig) (requestId : String) :
    Except WhisperError (List TranscriptChunk) :=
  match session samples with
  | .error e => .error (.backend s!"WhisperState::full: {e}")
  | .ok segments =>
    if segments.isEmpty then .ok [{ requestId, isFinal := true }]
    else pushSegments cfg requestId segments.length 0 [] segments

/-- The call, for what it gets from the cell of its session. -/
def executeAudio (fuel : ℕ) (files : String → Except ReadError Bytes) (session : Except InferenceError Session)
    (cfg : WhisperConfig) (requestId : String) :
    AudioOptions → AudioInput → Ended (Except InferenceError (List TranscriptChunk))
  | .audio2Face,_ =>
    .returned (.error (.badRequest ("whisper-local: AudioOptions::Audio2Face passed to an STT runner" ++
      " — wire the request to an A2F deployment instead")))
  | .transcribe,.stream => .returned (.error WhisperError.streamingNotSupported.toInference)
  | .transcribe,.static payload =>
    match session with
    | .error e => .returned (.error e)
    | .ok session => (payloadToF32Pcm fuel files cfg.sampleRateHz payload).map fun pcm =>
        (pcm.bind fun samples => transcribe session samples cfg requestId).mapError WhisperError.toInference

/-- The recording of a payload, where it can be had. -/
def AudioPayload.source (files : String → Except ReadError Bytes) :
    AudioPayload → Option (Bytes × AudioParams)
  | bytes data params => some (data,params)
  | path file params => (files file).toOption.map fun data => (data,params)
  | url => none

/-- A recording of a format is these samples. -/
def Decodes (data : Bytes) (pcm : List Float32) : AudioFormat → Prop
  | .pcm16Le => 2 ∣ data.bytes.length ∧ pcm = (words 2 data.bytes).map pcm16Word
  | .pcmF32Le => 4 ∣ data.bytes.length ∧ pcm = (words 4 data.bytes).map pcmF32Word
  | .wav => decodeWav (data.bytes.length+1) data = .returned (.ok pcm)
  | _ => False

/-- The words that are no marks. -/
def plainWord : Option Token → Option WordTiming
  | none => none
  | some token =>
    match token.text with
    | .error _ => none
    | .ok text => if isSpecial text then none else some (wordTiming token text)

/-- The texts of a segment that are needed can be read. -/
structure Legible (cfg : WhisperConfig) (segment : Segment) : Prop where
  text : ∃ text, segment.text = .ok text
  tokens : cfg.wordTimestamps → ∀ token, some token ∈ segment.tokens → ∃ text, token.text = .ok text

def chunkOf (cfg : WhisperConfig) (requestId : String) (last : Bool) (segment : Segment) : TranscriptChunk where
  requestId
  isFinal := last
  text := segment.text.toOption.getD ""
  tsStartMs := toMs segment.startTimestamp
  tsEndMs := toMs segment.endTimestamp
  words := if cfg.wordTimestamps then segment.tokens.filterMap plainWord else []

def transcript (cfg : WhisperConfig) (requestId : String) (segments : List Segment) : List TranscriptChunk :=
  if segments = [] then [{ requestId, isFinal := true }] else marked (chunkOf cfg requestId) segments

section Transcripts
variable {cfg : WhisperConfig} {requestId : String} {session : Session} {samples : List Float32} {n i j : ℕ}

theorem extractWords_eq_ok_iff {out ws : List WordTiming} {tokens : List (Option Token)} :
    extractWords j out tokens = .ok ws ↔ (∀ token, some token ∈ tokens → ∃ text, token.text = .ok text) ∧
      ws = out++tokens.filterMap plainWord := by
  induction tokens generalizing j out with
  | nil =>
    rw [extractWords,Except.ok.injEq,List.filterMap_nil,List.append_nil]
    exact ⟨fun h => ⟨nofun,h.symm⟩,fun h => h.2.symm⟩
  | cons token tokens ih =>
    cases token with
    | none =>
      have hplain : plainWord none = none := rfl
      simp [extractWords,ih,hplain]
    | some token =>
      cases htext : token.text with
      | error e =>
        simp [extractWords,htext]
      | ok text =>
        by_cases hspecial : isSpecial text
        · have hplain : plainWord (some token) = none := by simp [plainWord,htext,hspecial]
          simp [extractWords,htext,hspecial,ih,hplain]
        · have hplain : plainWord (some token) = some (wordTiming token text) := by simp [plainWord,htext,hspecial]
          simp [extractWords,htext,hspecial,ih,hplain]

theorem legible_iff {segment : Segment} : Legible cfg segment ↔ ∃ text, segment.text = .ok text ∧
    (if cfg.wordTimestamps then extractWords 0 [] segment.tokens else .ok []) =
      .ok (if cfg.wordTimestamps then segment.tokens.filterMap plainWord else []) := by
  cases htimes : cfg.wordTimestamps with
  | false =>
    constructor
    · rintro ⟨⟨text,htext⟩,-⟩
      exact ⟨text,htext,rfl⟩
    · rintro ⟨text,htext,-⟩
      refine ⟨⟨text,htext⟩,?_⟩
      intro h
      rw [htimes] at h
      cases h
  | true =>
    simp only [if_true,extractWords_eq_ok_iff,List.nil_append,and_true]
    constructor
    · rintro ⟨⟨text,htext⟩,htokens⟩
      exact ⟨text,htext,htokens htimes⟩
    · rintro ⟨text,htext,htokens⟩
      exact ⟨⟨text,htext⟩,fun _ => htokens⟩

theorem pushSegments_of_legible {segment : Segment} (h : Legible cfg segment) (chunks : List TranscriptChunk)
    (xs : List (Option Segment)) : pushSegments cfg requestId n i chunks (some segment::xs) =
      pushSegments cfg requestId n (i+1) (chunks++[chunkOf cfg requestId (i+1 = n) segment]) xs := by
  obtain ⟨text,htext,hwords⟩ := legible_iff.mp h
  rw [pushSegments,htext]
  dsimp only
  rw [hwords]
  dsimp only
  unfold chunkOf
  rw [htext]
  rfl

theorem legible_of_pushSegments {segment : Segment} {chunks out : List TranscriptChunk} {xs : List (Option Segment)}
    (h : pushSegments cfg requestId n i chunks (some segment::xs) = .ok out) : Legible cfg segment := by
  cases htext : segment.text with
  | error e =>
    rw [pushSegments,htext] at h
    cases h
  | ok text =>
    rw [pushSegments,htext] at h
    dsimp only at h
    refine ⟨⟨text,htext⟩,?_⟩
    intro htimes
    rw [if_pos htimes] at h
    cases hwords : extractWords 0 [] segment.tokens with
    | error e =>
      rw [hwords] at h
      cases h
    | ok words => exact (extractWords_eq_ok_iff.mp hwords).1

/-- The loop goes through where every text is legible, and makes one chunk of each segment. -/
theorem pushSegments_eq_ok_iff {chunks out : List TranscriptChunk} {xs : List (Option Segment)} :
    pushSegments cfg requestId n i chunks xs = .ok out ↔ ∃ segments : List Segment, xs = segments.map some ∧
      (∀ segment ∈ segments, Legible cfg segment) ∧
      out = chunks++segments.mapIdx fun k segment => chunkOf cfg requestId (i+k+1 = n) segment := by
  induction xs generalizing i chunks with
  | nil =>
    rw [pushSegments,Except.ok.injEq]
    constructor
    · rintro rfl
      exact ⟨[],rfl,nofun,(List.append_nil chunks).symm⟩
    · rintro ⟨segments,hxs,-,rfl⟩
      rw [List.map_eq_nil_iff.mp hxs.symm,List.mapIdx_nil,List.append_nil]
  | cons x xs ih =>
    have hshift : ∀ segments : List Segment,
        (segments.mapIdx fun k segment => chunkOf cfg requestId (i+(k+1)+1 = n) segment) =
        segments.mapIdx fun k segment => chunkOf cfg requestId (i+1+k+1 = n) segment := by
      intro segments
      congr 1
      funext k segment
      rw [Nat.add_comm k 1,← Nat.add_assoc i 1 k]
    constructor
    · intro h
      cases x with
      | none =>
        rw [pushSegments] at h
        cases h
      | some segment =>
        have hlegible := legible_of_pushSegments h
        rw [pushSegments_of_legible hlegible,ih] at h
        obtain ⟨segments,rfl,hall,rfl⟩ := h
        refine ⟨segment::segments,rfl,List.forall_mem_cons.mpr ⟨hlegible,hall⟩,?_⟩
        rw [List.mapIdx_cons,hshift,List.append_assoc]
        rfl
    · rintro ⟨segments,hxs,hall,rfl⟩
      cases segments with
      | nil => cases hxs
      | cons segment segments =>
        obtain ⟨rfl,rfl⟩ := List.cons.inj hxs
        rw [List.forall_mem_cons] at hall
        rw [pushSegments_of_legible hall.1,ih]
        refine ⟨segments,rfl,hall.2,?_⟩
        rw [List.mapIdx_cons,hshift,List.append_assoc]
        rfl

theorem transcribe_eq_ok_iff {out : List TranscriptChunk} : transcribe session samples cfg requestId = .ok out ↔
    ∃ segments : List Segment, session samples = .ok (segments.map some) ∧
      (∀ segment ∈ segments, Legible cfg segment) ∧
      out = transcript cfg requestId segments := by
  unfold transcribe
  cases session samples with
  | error e =>
    constructor
    · intro h
      cases h
    · rintro ⟨segments,h,-⟩
      cases h
  | ok xs =>
    dsimp only
    by_cases hnil : xs = []
    · subst hnil
      constructor
      · intro h
        exact ⟨[],rfl,nofun,(Except.ok.inj h).symm⟩
      · rintro ⟨segments,h,-,rfl⟩
        rw [List.map_eq_nil_iff.mp (Except.ok.inj h).symm]
        rfl
    · rw [if_neg (by simpa using hnil),pushSegments_eq_ok_iff]
      apply exists_congr
      intro segments
      rw [Except.ok.injEq]
      apply and_congr_right
      rintro rfl
      have hsegments : segments ≠ [] := by simpa using hnil
      unfold transcript
      rw [if_neg hsegments,← mapIdx_last,List.length_map,List.nil_append]
      simp only [Nat.zero_add]

theorem endsOnce_transcript (cfg : WhisperConfig) (requestId : String) (segments : List Segment) :
    EndsOnce TranscriptChunk.isFinal (transcript cfg requestId segments) := by
  unfold transcript
  cases segments using List.reverseRecOn with
  | nil => exact ⟨[],_,rfl,rfl,nofun⟩
  | append_singleton segments segment =>
    rw [if_neg (List.concat_ne_nil segment segments),marked_concat,endsOnce_snoc_iff]
    refine ⟨rfl,?_⟩
    intro chunk hchunk
    obtain ⟨seg,-,rfl⟩ := List.mem_map.mp hchunk
    rfl

end Transcripts

section Payloads
variable {files : String → Except ReadError Bytes} {params : AudioParams} {rate : UInt32} {pcm : List Float32}

theorem mapError_eq_ok_iff {ε ε' ρ : Type*} {f : ε → ε'} {x : Except ε ρ} {r : ρ} :
    x.mapError f = .ok r ↔ x = .ok r := by
  cases x with
  | error e => exact ⟨nofun,nofun⟩
  | ok r' =>
    change Except.ok r' = _ ↔ _
    rw [Except.ok.injEq,Except.ok.injEq]

theorem lift_eq_ok_iff {r : Except UnsupportedAudio (List Float32)} : lift r = .ok pcm ↔ r = .ok pcm :=
  mapError_eq_ok_iff

theorem decodeWav_total (data : Bytes) :
    ∃ r, ∀ fuel, data.bytes.length < fuel → decodeWav fuel data = .returned r := by
  obtain ⟨b,hb⟩ := hasHeader_total data.bytes
  unfold decodeWav
  rw [hb]
  cases b with
  | false => exact ⟨_,fun _ _ => rfl⟩
  | true =>
    obtain ⟨found,hloop⟩ := readChunk_returns data.bytes
    refine ⟨found.bind decodeFound,?_⟩
    intro fuel hfuel
    dsimp only
    rw [hloop fuel hfuel]
    rfl

theorem decodeBytes_total (data : Bytes) (params : AudioParams) :
    ∃ r, (∀ fuel, 2^63 ≤ fuel → decodeBytes fuel data params = .returned r) ∧
      ∀ pcm, r = .ok pcm ↔ Decodes data pcm params.format := by
  unfold decodeBytes
  cases params.format with
  | pcm16Le =>
    refine ⟨_,fun _ _ => rfl,?_⟩
    intro pcm
    rw [lift_eq_ok_iff,decodePcm16_iff]
    rfl
  | pcmF32Le =>
    refine ⟨_,fun _ _ => rfl,?_⟩
    intro pcm
    rw [lift_eq_ok_iff,decodePcmF32_iff]
    rfl
  | wav =>
    obtain ⟨r,hr⟩ := decodeWav_total data
    refine ⟨lift r,?_,?_⟩
    · intro fuel hfuel
      dsimp only
      rw [hr fuel (data.fits.trans_le hfuel)]
      rfl
    · intro pcm
      rw [lift_eq_ok_iff]
      unfold Decodes
      rw [hr _ (Nat.lt_succ_self _),Ended.returned.injEq]
  | pcm24Le | oggOpus | mp3 | flac => exact ⟨_,fun _ _ => rfl,fun _ => ⟨nofun,nofun⟩⟩

theorem checkParams_eq_ok_iff : checkParams params rate = .ok () ↔
    params.sampleRateHz = rate ∧ params.channels = 1 := by
  unfold checkParams
  by_cases hrate : params.sampleRateHz = rate
  · rw [if_neg (not_not_intro hrate)]
    by_cases hchannels : params.channels = 1
    · rw [if_neg (not_not_intro hchannels)]
      exact ⟨fun _ => ⟨hrate,hchannels⟩,fun _ => rfl⟩
    · rw [if_pos hchannels]
      exact ⟨nofun,fun h => absurd h.2 hchannels⟩
  · rw [if_pos hrate]
    exact ⟨nofun,fun h => absurd h.1 hrate⟩

/-- What is checked stands before what is read. -/
theorem checked_total (data : Bytes) (params : AudioParams) (rate : UInt32) :
    ∃ r, (∀ fuel, 2^63 ≤ fuel → (match checkParams params rate with
        | .error e => .returned (.error e)
        | .ok _ => decodeBytes fuel data params : Ended (Except WhisperError (List Float32))) = .returned r) ∧
      ∀ pcm, r = .ok pcm ↔ params.sampleRateHz = rate ∧ params.channels = 1 ∧ Decodes data pcm params.format := by
  cases hcheck : checkParams params rate with
  | error e =>
    have hrefused : ¬(params.sampleRateHz = rate ∧ params.channels = 1) := by
      rw [← checkParams_eq_ok_iff,hcheck]
      exact nofun
    exact ⟨_,fun _ _ => rfl,fun _ => ⟨nofun,fun h => absurd ⟨h.1,h.2.1⟩ hrefused⟩⟩
  | ok u =>
    have hchecked := checkParams_eq_ok_iff.mp hcheck
    obtain ⟨r,hr,hpcm⟩ := decodeBytes_total data params
    refine ⟨r,hr,?_⟩
    intro pcm
    rw [hpcm]
    exact ⟨fun h => ⟨hchecked.1,hchecked.2,h⟩,fun h => h.2.2⟩

theorem payloadToF32Pcm_total (files : String → Except ReadError Bytes) (rate : UInt32) (payload : AudioPayload) :
    ∃ r, (∀ fuel, 2^63 ≤ fuel → payloadToF32Pcm fuel files rate payload = .returned r) ∧
      ∀ pcm, r = .ok pcm ↔ ∃ data params, payload.source files = some (data,params) ∧ params.sampleRateHz = rate ∧
        params.channels = 1 ∧ Decodes data pcm params.format := by
  cases payload with
  | url =>
    refine ⟨_,fun _ _ => rfl,?_⟩
    intro pcm
    constructor
    · exact nofun
    · rintro ⟨data,params,h,-⟩
      cases h
  | bytes data params =>
    obtain ⟨r,hr,hpcm⟩ := checked_total data params rate
    refine ⟨r,hr,?_⟩
    intro pcm
    rw [hpcm]
    constructor
    · intro h
      exact ⟨data,params,rfl,h⟩
    · rintro ⟨data',params',h,hdecodes⟩
      obtain ⟨rfl,rfl⟩ := Prod.mk.inj (Option.some.inj h)
      exact hdecodes
  | path file params =>
    cases hfile : files file with
    | ok data =>
      have hsource : (AudioPayload.path file params).source files = some (data,params) := by
        unfold AudioPayload.source
        dsimp only
        rw [hfile]
        rfl
      obtain ⟨r,hr,hpcm⟩ := checked_total data params rate
      refine ⟨r,?_,?_⟩
      · intro fuel hfuel
        rw [← hr fuel hfuel]
        unfold payloadToF32Pcm readFile
        dsimp only
        rw [hfile]
      · intro pcm
        rw [hpcm,hsource]
        constructor
        · intro h
          exact ⟨data,params,rfl,h⟩
        · rintro ⟨data',params',h,hdecodes⟩
          obtain ⟨rfl,rfl⟩ := Prod.mk.inj (Option.some.inj h)
          exact hdecodes
    | error e =>
      have hsource : (AudioPayload.path file params).source files = none := by
        unfold AudioPayload.source
        dsimp only
        rw [hfile]
        rfl
      have hrefused : ∃ e, ∀ fuel, payloadToF32Pcm fuel files rate (.path file params) = .returned (.error e) := by
        unfold payloadToF32Pcm readFile
        dsimp only
        rw [hfile]
        cases checkParams params rate with
        | error e' => exact ⟨_,fun _ => rfl⟩
        | ok u =>
          cases e with
          | notFound | other message => exact ⟨_,fun _ => rfl⟩
      obtain ⟨e',he⟩ := hrefused
      refine ⟨_,fun fuel _ => he fuel,?_⟩
      intro pcm
      rw [hsource]
      constructor
      · exact nofun
      · rintro ⟨data,params',h,-⟩
        cases h

end Payloads

/-- A call transcribes the recording of its payload. -/
structure Transcribed (files : String → Except ReadError Bytes) (cfg : WhisperConfig) (payload : AudioPayload)
    (run : Session) (segments : List Segment) : Prop where
  heard : ∃ data params pcm, payload.source files = some (data,params) ∧ params.sampleRateHz = cfg.sampleRateHz ∧
    params.channels = 1 ∧ Decodes data pcm params.format ∧ run pcm = .ok (segments.map some)
  legible : ∀ segment ∈ segments, Legible cfg segment

/-- Every call ends. It succeeds exactly where a recording is transcribed, and then each segment is one chunk and
only the last one is final. -/
theorem whisper_transcribes (files : String → Except ReadError Bytes) (session : Except InferenceError Session)
    (cfg : WhisperConfig) (requestId : String) (options : AudioOptions) (input : AudioInput) :
    ∃ r, (∀ fuel, 2^63 ≤ fuel → executeAudio fuel files session cfg requestId options input = .returned r) ∧
      ∀ out, r = .ok out ↔ ∃ payload run segments, options = .transcribe ∧ input = .static payload ∧
      session = .ok run ∧
        Transcribed files cfg payload run segments ∧ out = transcript cfg requestId segments ∧
        EndsOnce TranscriptChunk.isFinal out := by
  cases options with
  | audio2Face =>
    refine ⟨_,fun _ _ => rfl,?_⟩
    intro out
    constructor
    · exact nofun
    · rintro ⟨_,_,_,h,-⟩
      cases h
  | transcribe =>
    cases input with
    | stream =>
      refine ⟨_,fun _ _ => rfl,?_⟩
      intro out
      constructor
      · exact nofun
      · rintro ⟨_,_,_,-,h,-⟩
        cases h
    | static payload =>
      cases session with
      | error e =>
        refine ⟨_,fun _ _ => rfl,?_⟩
        intro out
        constructor
        · exact nofun
        · rintro ⟨_,_,_,-,-,h,-⟩
          cases h
      | ok run =>
        obtain ⟨r,hr,hpcm⟩ := payloadToF32Pcm_total files cfg.sampleRateHz payload
        refine ⟨(r.bind fun samples => transcribe run samples cfg requestId).mapError WhisperError.toInference,?_,?_⟩
        · intro fuel hfuel
          unfold executeAudio
          dsimp only
          rw [hr fuel hfuel]
          rfl
        · intro out
          constructor
          · intro h
            obtain ⟨samples,hsamples,hout⟩ := bind_eq_ok (mapError_eq_ok_iff.mp h)
            obtain ⟨data,params,hsource,hrate,hchannels,hdecodes⟩ := (hpcm samples).mp hsamples
            obtain ⟨segments,hrun,hall,rfl⟩ := transcribe_eq_ok_iff.mp hout
            exact ⟨payload,run,segments,rfl,rfl,rfl,
              ⟨⟨data,params,samples,hsource,hrate,hchannels,hdecodes,hrun⟩,hall⟩,rfl,
              endsOnce_transcript cfg requestId segments⟩
          · rintro ⟨payload',run',segments,-,hinput,hsession,htranscribed,rfl,-⟩
            obtain rfl := AudioInput.static.inj hinput
            obtain rfl := Except.ok.inj hsession
            obtain ⟨data,params,pcm,hsource,hrate,hchannels,hdecodes,hrun⟩ := htranscribed.heard
            rw [mapError_eq_ok_iff,(hpcm pcm).mpr ⟨data,params,hsource,hrate,hchannels,hdecodes⟩]
            exact transcribe_eq_ok_iff.mpr ⟨segments,hrun,htranscribed.legible,rfl⟩

end RakkaInference.Whisper
