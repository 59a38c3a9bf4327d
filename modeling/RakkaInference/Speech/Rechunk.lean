import Mathlib.Data.List.Infix
import RakkaInference.Machine.Chunks
import RakkaInference.Machine.Loops
import RakkaInference.Machine.Slices
import RakkaInference.Speech.ElevenLabs

/-! Audio that comes in one piece, cut into chunks for the stream. -/
namespace RakkaInference
open Machine

section Offset
variable (requestId : String) (params : AudioParams) (chunkBytes : ℕ) (bytes : Bytes)

def speechChunk (isFinal : Bool) (audioPcmChunk : List UInt8) : SpeechChunk :=
  { requestId, isFinal, audioPcmChunk, params }

/-- A round of the loop, with the offset and the chunks so far. A sum that is not a word panics, as a slice out of
range does. -/
def cutChunk (s : ℕ × List SpeechChunk) : Option ((ℕ × List SpeechChunk) ⊕ List SpeechChunk) :=
  let total := bytes.bytes.length
  if s.1 < total then do
    let stop := min (← checkedAdd s.1 chunkBytes) total
    let slice ← slice bytes.bytes s.1 stop
    return .inl (stop,s.2++[speechChunk requestId params (stop = total) slice])
  else return .inr s.2

/-- The chunks of a body, as two of the runners make them. -/
def cutBody (fuel : ℕ) : Ended (List SpeechChunk) :=
  if bytes.bytes.length = 0 then .returned [speechChunk requestId params true []]
  else loop (cutChunk requestId params chunkBytes bytes) fuel (0,[])

end Offset

/-- What the runners read of a batch here. -/
structure SpeechBatch where
  requestId : String
  format : Option AudioFormat

/-- The end of the HTTPS path. -/
def ElevenLabs.speakHttps (batch : SpeechBatch) (chunkBytes : UInt64) (bytes : Bytes) (fuel : ℕ) :
    Ended (List SpeechChunk) :=
  cutBody batch.requestId (outputParams batch.format) (max chunkBytes.toNat 1) bytes fuel

namespace OpenAiTts

def outputParams (requested : Option AudioFormat) : AudioParams := ⟨24000,1,requested.getD .pcm16Le⟩

/-- The end of the call. -/
def speak (batch : SpeechBatch) (chunkBytes : UInt64) (bytes : Bytes) (fuel : ℕ) : Ended (List SpeechChunk) :=
  cutBody batch.requestId (outputParams batch.format) (max chunkBytes.toNat 1) bytes fuel

end OpenAiTts

namespace Piper

def clamp (x lo hi : Float32) : Float32 :=
  let x := if x < lo then lo else x
  if x > hi then hi else x

/-- The cast truncates and saturates. -/
def i16Val (s : Float32) : Int16 := (clamp s (-1) 1*(32767 : Int16).toFloat32).toInt16

def toLeBytes (x : Int16) : List UInt8 := [x.toUInt16.toUInt8,(x.toUInt16 >>> 8).toUInt8]

def pcmF32ToChunks (pcm : List Float32) (requestId : String) (sampleRate : UInt32) (chunkSamples : ℕ) :
    List SpeechChunk :=
  let params := ⟨sampleRate,1,.pcm16Le⟩
  if pcm.isEmpty then [speechChunk requestId params true []]
  else
    let numChunks := (pcm.length+chunkSamples-1)/chunkSamples
    (cuts chunkSamples pcm).mapIdx fun i window =>
      speechChunk requestId params (i+1 = numChunks) (window.flatMap fun s => toLeBytes (i16Val s))

/-- The end of the call. -/
def speak (requestId : String) (sampleRate : UInt32) (chunkSamples : UInt64) (pcm : List Float32) :
    List SpeechChunk :=
  pcmF32ToChunks pcm requestId sampleRate (max chunkSamples.toNat 1)

end Piper

/-- The chunks have the bytes of the body, in pieces of one size, and only the last one is final. -/
structure Rechunked (size : ℕ) (body : List UInt8) (out : List SpeechChunk) : Prop where
  bytes : out.flatMap (·.audioPcmChunk) = body
  full : ∀ c ∈ out.dropLast, c.audioPcmChunk.length = size
  last : ∃ c, out.getLast? = some c ∧ c.audioPcmChunk.length ≤ size ∧ (c.audioPcmChunk = [] → body = [])
  final : EndsOnce (·.isFinal) out

variable {α : Type*} {requestId : String} {params : AudioParams} {n w : ℕ} {bytes : Bytes} {word : α → List UInt8}

theorem flatMap_marked (f : Bool → α → SpeechChunk) (g : α → List UInt8) (h : ∀ b x, (f b x).audioPcmChunk = g x)
    (xs : List α) : (marked f xs).flatMap (·.audioPcmChunk) = xs.flatMap g := by
  induction xs using List.reverseRecOn with
  | nil => rfl
  | append_singleton xs x _ =>
    rw [marked_concat,List.flatMap_append,List.flatMap_append,List.flatMap_map,List.flatMap_singleton,
      List.flatMap_singleton,h]
    simp only [h]

theorem length_flatMap_word (hword : ∀ x, (word x).length = w) (xs : List α) :
    (xs.flatMap word).length = w*xs.length := by
  rw [List.length_flatMap]
  induction xs with
  | nil => rfl
  | cons x xs ih =>
    rw [List.map_cons,List.sum_cons,ih,hword,List.length_cons,Nat.mul_succ,Nat.add_comm]

theorem flatMap_flatten_word (pieces : List (List α)) :
    (pieces.flatMap fun p => p.flatMap word) = pieces.flatten.flatMap word := by
  induction pieces with
  | nil => rfl
  | cons p pieces ih => rw [List.flatMap_cons,ih,List.flatten_cons,List.flatMap_append]

/-- Pieces of items, each item with bytes of one width. -/
theorem rechunked_marked (requestId : String) (params : AudioParams) (hn : 0 < n) (hw : 0 < w)
    (hword : ∀ x, (word x).length = w) {xs : List α} (hxs : xs ≠ []) :
    Rechunked (w*n) (xs.flatMap word)
      (marked (fun b p => speechChunk requestId params b (p.flatMap word)) (cuts n xs)) := by
  obtain hnil | ⟨init,last,hsplit⟩ := List.eq_nil_or_concat' (cuts n xs)
  · exact absurd hnil (cuts_ne_nil hn hxs)
  have hmem : last ∈ cuts n xs := by
    rw [hsplit]
    exact List.mem_append_right _ List.mem_cons_self
  constructor
  case bytes =>
    rw [flatMap_marked _ (fun p => p.flatMap word) fun _ _ => rfl,flatMap_flatten_word,flatten_cuts hn]
  case full =>
    have hfull := length_of_mem_dropLast_cuts hn xs
    rw [hsplit,List.dropLast_concat] at hfull
    rw [hsplit,marked_concat,List.dropLast_concat]
    intro c hc
    obtain ⟨p,hp,rfl⟩ := List.mem_map.mp hc
    exact (length_flatMap_word hword p).trans (congrArg (w*·) (hfull p hp))
  case last =>
    rw [hsplit,marked_concat,List.getLast?_concat]
    have hlen := length_flatMap_word hword last
    refine ⟨_,rfl,?_,?_⟩
    · exact hlen.trans_le (Nat.mul_le_mul_left w (length_le_of_mem_cuts hn xs last hmem))
    · intro hempty
      change last.flatMap word = [] at hempty
      rw [hempty,List.length_nil] at hlen
      have hne := List.length_pos_iff.mpr (ne_nil_of_mem_cuts hn xs last hmem)
      exact absurd hlen (Nat.mul_pos hw hne).ne
  case final =>
    rw [hsplit,marked_concat,endsOnce_snoc_iff]
    refine ⟨rfl,?_⟩
    intro c hc
    obtain ⟨p,-,rfl⟩ := List.mem_map.mp hc
    rfl

theorem rechunked_nil (size : ℕ) : Rechunked size [] [speechChunk requestId params true []] := by
  constructor
  case bytes => rfl
  case full => exact nofun
  case last => exact ⟨_,rfl,Nat.zero_le _,fun _ => rfl⟩
  case final => exact ⟨[],_,rfl,rfl,nofun⟩

/-- A round cuts a piece off what is left. The sum fits a word, because the offset is zero or a piece
has been cut. -/
theorem cutChunk_of_lt (requestId : String) (params : AudioParams) {offset : ℕ} (hlt : offset < bytes.bytes.length)
    (hn : n < 2^64) (hoffset : offset = 0 ∨ n ≤ offset) (acc : List SpeechChunk) :
    cutChunk requestId params n bytes (offset,acc) =
      some (.inl (min (offset+n) bytes.bytes.length,
        acc++[speechChunk requestId params (min (offset+n) bytes.bytes.length = bytes.bytes.length)
          ((bytes.bytes.drop offset).take n)])) := by
  have hfits := bytes.fits
  have hadd : checkedAdd offset n = some (offset+n) := if_pos (by omega)
  have hslice : slice bytes.bytes offset (min (offset+n) bytes.bytes.length) =
      some ((bytes.bytes.drop offset).take n) := by
    rw [slice,if_pos (by omega)]
    congr 1
    rw [List.take_eq_take_iff,List.length_drop]
    omega
  unfold cutChunk
  dsimp only
  rw [if_pos hlt,hadd,Option.bind_eq_bind,Option.bind_some,hslice]
  rfl

/-- What is left behind a round. -/
theorem drop_min (xs : List α) (i : ℕ) : xs.drop (min i xs.length) = xs.drop i := by
  obtain hle | hlt := Nat.le_total i xs.length
  · rw [Nat.min_eq_left hle]
  · rw [Nat.min_eq_right hlt,List.drop_length,List.drop_eq_nil_of_le hlt]

/-- From an offset on the loop cuts what is left. -/
theorem loop_cutChunk (hn : 0 < n) (hword : n < 2^64) (rest : List UInt8) : ∀ offset acc,
    bytes.bytes.drop offset = rest → (rest ≠ [] → offset = 0 ∨ n ≤ offset) → ∀ fuel, rest.length < fuel →
      loop (cutChunk requestId params n bytes) fuel (offset,acc) =
        .returned (acc++marked (speechChunk requestId params) (cuts n rest)) := by
  induction rest using cuts_induction hn with
  | nil =>
    intro offset acc hrest _
    have hle := List.drop_eq_nil_iff.mp hrest
    have hround : cutChunk requestId params n bytes (offset,acc) = some (.inr acc) := if_neg (Nat.not_lt_of_ge hle)
    rw [cuts_nil]
    change ∀ fuel, _ → _ = Ended.returned (acc++[])
    rw [List.append_nil]
    exact loop_return hround
  | cut rest hne ih =>
    intro offset acc hrest hoffset fuel hfuel
    have hlen := congrArg List.length hrest
    rw [List.length_drop] at hlen
    have hpos := List.length_pos_iff.mpr hne
    have hlt : offset < bytes.bytes.length := by omega
    have hround := cutChunk_of_lt requestId params hlt hword (hoffset hne) acc
    have hleft : bytes.bytes.drop (min (offset+n) bytes.bytes.length) = rest.drop n := by
      rw [drop_min,← hrest,List.drop_drop]
    have hlast : decide (min (offset+n) bytes.bytes.length = bytes.bytes.length) = (rest.drop n).isEmpty := by
      rw [← hleft,Bool.eq_iff_iff,decide_eq_true_iff,List.isEmpty_iff,List.drop_eq_nil_iff]
      omega
    rw [hrest,hlast] at hround
    have hoffset' : rest.drop n ≠ [] →
        min (offset+n) bytes.bytes.length = 0 ∨ n ≤ min (offset+n) bytes.bytes.length := by
      rw [ne_eq,List.drop_eq_nil_iff]
      omega
    have hnext := ih _ (acc++[speechChunk requestId params (rest.drop n).isEmpty (rest.take n)]) hleft hoffset'
    have hfuel' : (rest.drop n).length+1 < fuel := by
      rw [List.length_drop]
      omega
    rw [loop_round hround hnext fuel hfuel',marked_cuts hn hne,List.append_assoc]
    rfl

/-- The loop ends, and its chunks are those of the body. -/
theorem cutBody_rechunks (requestId : String) (params : AudioParams) (bytes : Bytes) (hn : 0 < n)
    (hword : n < 2^64) :
    ∃ out, (∀ fuel, bytes.bytes.length < fuel → cutBody requestId params n bytes fuel = .returned out) ∧
      Rechunked n bytes.bytes out := by
  by_cases hnil : bytes.bytes = []
  · refine ⟨[speechChunk requestId params true []],fun fuel _ => if_pos (congrArg List.length hnil),?_⟩
    rw [hnil]
    exact rechunked_nil n
  · have hlength : bytes.bytes.length ≠ 0 := (List.length_pos_iff.mpr hnil).ne'
    refine ⟨marked (speechChunk requestId params) (cuts n bytes.bytes),?_,?_⟩
    · intro fuel hfuel
      rw [cutBody,if_neg hlength]
      exact loop_cutChunk hn hword bytes.bytes 0 [] rfl (fun _ => .inl rfl) fuel hfuel
    · have hbyte : ∀ b : UInt8, [b].length = 1 := fun _ => rfl
      have hrechunked := rechunked_marked requestId params hn Nat.one_pos hbyte hnil
      simpa using hrechunked

theorem pcmF32ToChunks_rechunks (pcm : List Float32) (requestId : String) (sampleRate : UInt32) (hn : 0 < n) :
    Rechunked (2*n) (pcm.flatMap fun s => Piper.toLeBytes (Piper.i16Val s))
      (Piper.pcmF32ToChunks pcm requestId sampleRate n) := by
  unfold Piper.pcmF32ToChunks
  by_cases hnil : pcm = []
  · rw [hnil]
    exact rechunked_nil _
  · rw [if_neg (by simpa using hnil),← length_cuts hn]
    have hmarked := mapIdx_last (fun b window => speechChunk requestId ⟨sampleRate,1,.pcm16Le⟩ b
      (window.flatMap fun s => Piper.toLeBytes (Piper.i16Val s))) (cuts n pcm)
    rw [hmarked]
    exact rechunked_marked requestId _ hn Nat.two_pos (fun _ => rfl) hnil

/-- Every body is cut to chunks of the configured size by the three runners, and the loops end. -/
theorem speech_is_rechunked (batch : SpeechBatch) (sampleRate : UInt32) (size : UInt64) (bytes : Bytes)
    (pcm : List Float32) :
    (∃ out, (∀ fuel, bytes.bytes.length < fuel → ElevenLabs.speakHttps batch size bytes fuel = .returned out) ∧
      Rechunked (max size.toNat 1) bytes.bytes out) ∧
    (∃ out, (∀ fuel, bytes.bytes.length < fuel → OpenAiTts.speak batch size bytes fuel = .returned out) ∧
      Rechunked (max size.toNat 1) bytes.bytes out) ∧
    Rechunked (2*max size.toNat 1) (pcm.flatMap fun s => Piper.toLeBytes (Piper.i16Val s))
      (Piper.speak batch.requestId sampleRate size pcm) := by
  have hn : 0 < max size.toNat 1 := by omega
  have hword : max size.toNat 1 < 2^64 := max_lt size.toNat_lt (by decide)
  refine ⟨?_,?_,?_⟩
  · exact cutBody_rechunks batch.requestId (ElevenLabs.outputParams batch.format) bytes hn hword
  · exact cutBody_rechunks batch.requestId (OpenAiTts.outputParams batch.format) bytes hn hword
  · exact pcmF32ToChunks_rechunks pcm batch.requestId sampleRate hn

end RakkaInference
