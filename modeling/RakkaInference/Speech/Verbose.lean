import Mathlib.Data.Rat.Floor
import RakkaInference.Core.Audio
import RakkaInference.Machine.Endings
import RakkaInference.Machine.Shares

/-! Transcripts with segments and words, turned into one chunk for each segment. -/
namespace RakkaInference.OpenAiStt
open Machine

structure VerboseSegment where
  start : ℚ
  stop : ℚ
  text : String

structure VerboseWord where
  word : String
  start : ℚ
  stop : ℚ

/-- Times are in seconds. -/
structure VerboseResponse where
  text : String
  segments : List VerboseSegment := []
  words : List VerboseWord := []

/-- The cast to a word of 32 bits keeps what fits, and cuts the rest. -/
def secondsToMs (s : ℚ) : UInt32 := .ofNat (min ⌊max (s*1000) 0⌋.toNat (2^32-1))

def wordsMs (words : List VerboseWord) : List WordTiming :=
  words.map fun w =>
    { text := w.word
      tsStartMs := secondsToMs w.start
      tsEndMs := secondsToMs w.stop }

def VerboseSegment.holds (seg : VerboseSegment) (w : WordTiming) : Bool :=
  w.tsStartMs ≥ secondsToMs seg.start ∧ w.tsEndMs ≤ secondsToMs seg.stop

def segmentChunk (requestId : String) (words : List WordTiming) (lastIdx i : ℕ) (seg : VerboseSegment) :
    TranscriptChunk :=
  { requestId
    isFinal := i = lastIdx
    text := seg.text
    tsStartMs := secondsToMs seg.start
    tsEndMs := secondsToMs seg.stop
    words := words.filter seg.holds }

def verboseToChunks (requestId : String) (parsed : VerboseResponse) : List (Except InferenceError TranscriptChunk) :=
  let words := wordsMs parsed.words
  if parsed.segments.isEmpty then
    [.ok
      { requestId
        isFinal := true
        text := parsed.text
        tsStartMs := (words.map (·.tsStartMs)).min?.getD 0
        tsEndMs := (words.map (·.tsEndMs)).max?.getD 0
        words }]
  else
    let lastIdx := parsed.segments.length-1
    parsed.segments.mapIdx fun i seg => .ok (segmentChunk requestId words lastIdx i seg)

/-- The segments follow each other without a gap, and the words lie within them. -/
structure Spoken (parsed : VerboseResponse) : Prop where
  segments_le : ∀ seg ∈ parsed.segments, seg.start ≤ seg.stop
  joined : parsed.segments.IsChain fun a b => a.stop = b.start
  words_le : ∀ w ∈ parsed.words, w.start ≤ w.stop
  after_start : ∀ w ∈ parsed.words, ∀ seg ∈ parsed.segments.head?, seg.start ≤ w.start
  before_end : ∀ w ∈ parsed.words, ∀ seg ∈ parsed.segments.getLast?, w.stop ≤ seg.stop

structure EveryWordOnce (parsed : VerboseResponse) (chunks : List TranscriptChunk) : Prop where
  single : parsed.segments = [] → chunks.length = 1
  perSegment : parsed.segments ≠ [] → chunks.map (fun c => (c.text,c.tsStartMs,c.tsEndMs)) =
    parsed.segments.map fun seg => (seg.text,secondsToMs seg.start,secondsToMs seg.stop)
  final : EndsOnce (·.isFinal) chunks
  words : SharedOut (wordsMs parsed.words) (chunks.map (·.words))

/-- In whole milliseconds the word ends by the start of the segment, or else starts from it on. -/
def VerboseSegment.Parts (seg : VerboseSegment) (w : VerboseWord) : Prop :=
  secondsToMs w.stop ≤ secondsToMs seg.start ↔ ¬ secondsToMs seg.start ≤ secondsToMs w.start

instance (seg : VerboseSegment) (w : VerboseWord) : Decidable (seg.Parts w) :=
  inferInstanceAs (Decidable (_ ↔ _))

variable {parsed : VerboseResponse} {segments : List VerboseSegment}

theorem toNat_secondsToMs (s : ℚ) : (secondsToMs s).toNat = min ⌊max (s*1000) 0⌋.toNat (2^32-1) := by
  rw [secondsToMs,UInt32.toNat_ofNat']
  exact Nat.mod_eq_of_lt (by omega)

theorem secondsToMs_mono {s t : ℚ} (h : s ≤ t) : secondsToMs s ≤ secondsToMs t := by
  have hfloor : ⌊max (s*1000) 0⌋ ≤ ⌊max (t*1000) 0⌋ :=
    Int.floor_mono (max_le_max_right 0 (mul_le_mul_of_nonneg_right h (by norm_num)))
  rw [UInt32.le_iff_toNat_le,toNat_secondsToMs,toNat_secondsToMs]
  omega

/-- The start of each segment and the end of the last, in whole milliseconds. -/
def edge (segments : List VerboseSegment) (j : ℕ) : ℕ :=
  (secondsToMs ((segments[j]?.map (·.start)).getD ((segments.getLast?.map (·.stop)).getD 0))).toNat

theorem edge_start {j : ℕ} (h : j < segments.length) : edge segments j = (secondsToMs segments[j].start).toNat := by
  rw [edge,List.getElem?_eq_getElem h]
  rfl

theorem edge_stop (hjoined : segments.IsChain fun a b => a.stop = b.start) {j : ℕ} (h : j < segments.length) :
    edge segments (j+1) = (secondsToMs segments[j].stop).toNat := by
  obtain hnext | hlast := Nat.lt_or_ge (j+1) segments.length
  · rw [edge_start hnext,List.isChain_iff_getElem.mp hjoined j hnext]
  · obtain rfl : j = segments.length-1 := by omega
    rw [edge,List.getElem?_eq_none hlast,List.getLast?_eq_getElem?,List.getElem?_eq_getElem h]
    rfl

theorem edge_monotone (hle : ∀ seg ∈ segments, seg.start ≤ seg.stop)
    (hjoined : segments.IsChain fun a b => a.stop = b.start) : Monotone (edge segments) := by
  apply monotone_nat_of_le_succ
  intro j
  obtain hj | hj := Nat.lt_or_ge j segments.length
  · rw [edge_start hj,edge_stop hjoined hj]
    exact UInt32.le_iff_toNat_le.mp (secondsToMs_mono (hle _ (List.getElem_mem hj)))
  · rw [edge,edge,List.getElem?_eq_none hj,List.getElem?_eq_none (by omega)]

theorem holds_iff (seg : VerboseSegment) (w : WordTiming) :
    seg.holds w ↔ (secondsToMs seg.start).toNat ≤ w.tsStartMs.toNat ∧
      w.tsEndMs.toNat ≤ (secondsToMs seg.stop).toNat := by
  rw [VerboseSegment.holds,decide_eq_true_eq,ge_iff_le,UInt32.le_iff_toNat_le,UInt32.le_iff_toNat_le]

/-- A segment holds a word that lies between its edges. -/
theorem holds_at_iff (hjoined : segments.IsChain fun a b => a.stop = b.start) (w : WordTiming) (j : ℕ) :
    (∃ p : WordTiming → Bool, (segments.map VerboseSegment.holds)[j]? = some p ∧ p w) ↔
      j < segments.length ∧ edge segments j ≤ w.tsStartMs.toNat ∧ w.tsEndMs.toNat ≤ edge segments (j+1) := by
  constructor
  · rintro ⟨p,hp,hw⟩
    rw [List.getElem?_map] at hp
    obtain ⟨seg,hseg,rfl⟩ := Option.map_eq_some_iff.mp hp
    obtain ⟨hj,rfl⟩ := List.getElem?_eq_some_iff.mp hseg
    rw [edge_start hj,edge_stop hjoined hj]
    exact ⟨hj,(holds_iff _ _).mp hw⟩
  · rintro ⟨hj,hin⟩
    rw [edge_start hj,edge_stop hjoined hj] at hin
    refine ⟨segments[j].holds,?_,(holds_iff _ _).mpr hin⟩
    rw [List.getElem?_map,List.getElem?_eq_getElem hj,Option.map_some]

/-- The edges between two segments are the starts of all segments but the first. -/
theorem parts_tail_iff (segments : List VerboseSegment) (w : VerboseWord) :
    (∀ seg ∈ segments.tail, seg.Parts w) ↔ ∀ k, 0 < k → k < segments.length →
      ((secondsToMs w.stop).toNat ≤ edge segments k ↔ ¬ edge segments k ≤ (secondsToMs w.start).toNat) := by
  constructor
  · intro hside k hk hlt
    obtain ⟨k,rfl⟩ := Nat.exists_eq_succ_of_ne_zero hk.ne'
    have hmem : segments[k+1] ∈ segments.tail := by
      rw [← List.getElem_tail (h := by rw [List.length_tail]; omega)]
      exact List.getElem_mem _
    have hkside := hside _ hmem
    rw [VerboseSegment.Parts,UInt32.le_iff_toNat_le,UInt32.le_iff_toNat_le] at hkside
    rw [Nat.succ_eq_add_one,edge_start hlt]
    exact hkside
  · intro hside seg hseg
    obtain ⟨k,hk,rfl⟩ := List.mem_iff_getElem.mp hseg
    rw [List.length_tail] at hk
    have hkside := hside (k+1) (Nat.succ_pos k) (by omega)
    rw [edge_start (by omega)] at hkside
    rw [List.getElem_tail,VerboseSegment.Parts,UInt32.le_iff_toNat_le,UInt32.le_iff_toNat_le]
    exact hkside

/-- One segment holds a word when the word is on one side of every edge between two segments. -/
theorem existsUnique_holds_iff (h : Spoken parsed) (hne : parsed.segments ≠ []) {w : VerboseWord}
    (hw : w ∈ parsed.words) {timing : WordTiming} (hstart : timing.tsStartMs = secondsToMs w.start)
    (hstop : timing.tsEndMs = secondsToMs w.stop) :
    (∃! j : ℕ, ∃ p : WordTiming → Bool, (parsed.segments.map VerboseSegment.holds)[j]? = some p ∧ p timing) ↔
      ∀ seg ∈ parsed.segments.tail, seg.Parts w := by
  have hpos := List.length_pos_of_ne_nil hne
  have hfirst : edge parsed.segments 0 ≤ (secondsToMs w.start).toNat := by
    rw [edge_start hpos]
    apply UInt32.le_iff_toNat_le.mp (secondsToMs_mono (h.after_start w hw _ _))
    rw [List.head?_eq_getElem?,List.getElem?_eq_getElem hpos]
    rfl
  have hlast : (secondsToMs w.stop).toNat ≤ edge parsed.segments parsed.segments.length := by
    have hend : parsed.segments.length-1 < parsed.segments.length := by omega
    rw [show parsed.segments.length = parsed.segments.length-1+1 by omega,edge_stop h.joined hend]
    apply UInt32.le_iff_toNat_le.mp (secondsToMs_mono (h.before_end w hw _ _))
    rw [List.getLast?_eq_getElem?,List.getElem?_eq_getElem hend]
    rfl
  rw [existsUnique_congr (holds_at_iff h.joined timing),hstart,hstop,parts_tail_iff]
  exact existsUnique_within_iff (edge_monotone h.segments_le h.joined) hpos hfirst hlast

/-- The chunks of a response are final at the end only, and belong to the segments. -/
theorem segmentChunks_final (requestId : String) (words : List WordTiming) (hne : segments ≠ []) :
    EndsOnce (·.isFinal) (segments.mapIdx (segmentChunk requestId words (segments.length-1))) := by
  obtain rfl | ⟨init,last,rfl⟩ := List.eq_nil_or_concat' segments
  · exact absurd rfl hne
  rw [List.mapIdx_concat,endsOnce_snoc_iff]
  constructor
  · simp [segmentChunk]
  · intro c hc
    obtain ⟨i,hi,rfl⟩ := List.mem_mapIdx.mp hc
    simp [segmentChunk]
    omega

theorem map_segmentChunk {β : Type*} (f : TranscriptChunk → β) (requestId : String) (words : List WordTiming)
    (lastIdx : ℕ) (g : VerboseSegment → β) (segments : List VerboseSegment)
    (hfg : ∀ i seg, f (segmentChunk requestId words lastIdx i seg) = g seg) :
    (segments.mapIdx (segmentChunk requestId words lastIdx)).map f = segments.map g := by
  apply List.ext_getElem
  · simp
  · intro i _ _
    simp [hfg]

theorem verboseToChunks_of_nil (requestId : String) (hnil : parsed.segments = []) :
    ∃ c : TranscriptChunk, verboseToChunks requestId parsed = [.ok c] ∧ c.isFinal ∧
      c.words = wordsMs parsed.words := by
  refine ⟨_,if_pos ?_,rfl,rfl⟩
  rw [hnil]
  rfl

theorem verboseToChunks_of_ne (requestId : String) (hne : parsed.segments ≠ []) :
    verboseToChunks requestId parsed =
      (parsed.segments.mapIdx
        (segmentChunk requestId (wordsMs parsed.words) (parsed.segments.length-1))).map .ok := by
  rw [verboseToChunks,if_neg (by simpa using hne)]
  apply List.ext_getElem
  · simp
  · intro i _ _
    simp

theorem everyWordOnce_iff (requestId : String) (h : Spoken parsed) (hne : parsed.segments ≠ []) :
    (∃ chunks, verboseToChunks requestId parsed = chunks.map .ok ∧ EveryWordOnce parsed chunks) ↔
      ∀ seg ∈ parsed.segments.tail, ∀ w ∈ parsed.words, seg.Parts w := by
  rw [verboseToChunks_of_ne requestId hne]
  have hwords := map_segmentChunk (·.words) requestId (wordsMs parsed.words)
    (parsed.segments.length-1) (fun seg => (wordsMs parsed.words).filter seg.holds) parsed.segments
    fun _ _ => rfl
  have hshared := sharedOut_filter_iff (wordsMs parsed.words) (parsed.segments.map VerboseSegment.holds)
  rw [List.map_map] at hshared
  constructor
  · rintro ⟨chunks,hout,honce⟩
    rw [← List.map_injective_iff.mpr (fun _ _ => Except.ok.inj) hout] at honce
    have hall := honce.words
    rw [hwords] at hall
    intro seg hseg w hw
    exact (existsUnique_holds_iff h hne hw rfl rfl).mp (hshared.mp hall _ (List.mem_map_of_mem hw)) seg hseg
  · intro hside
    refine ⟨_,rfl,?_⟩
    constructor
    case single => exact fun hnil => absurd hnil hne
    case perSegment => exact fun _ => map_segmentChunk _ _ _ _ _ _ fun _ _ => rfl
    case final => exact segmentChunks_final _ _ hne
    case words =>
      rw [hwords]
      apply hshared.mpr
      intro timing htiming
      obtain ⟨w,hw,rfl⟩ := List.mem_map.mp htiming
      exact (existsUnique_holds_iff h hne hw rfl rfl).mpr fun seg hseg => hside seg hseg w hw

/-- Every word is in one chunk when it is on one side of every edge between two segments, and only then. -/
theorem verbose_keeps_words_iff (requestId : String) (parsed : VerboseResponse) (h : Spoken parsed) :
    (∃ chunks, verboseToChunks requestId parsed = chunks.map .ok ∧ EveryWordOnce parsed chunks) ↔
      ∀ seg ∈ parsed.segments.tail, ∀ w ∈ parsed.words, seg.Parts w := by
  by_cases hnil : parsed.segments = []
  · obtain ⟨c,hout,hfinal,hwords⟩ := verboseToChunks_of_nil requestId hnil
    rw [hnil]
    refine iff_of_true ⟨[c],hout,?_⟩ nofun
    constructor
    case single => exact fun _ => rfl
    case perSegment => exact fun hne => absurd hnil hne
    case final => exact ⟨[],c,rfl,hfinal,nofun⟩
    case words =>
      rw [List.map_singleton,hwords]
      exact sharedOut_whole _
  · exact everyWordOnce_iff requestId h hnil

/-- Two segments that meet after a second, and these words. -/
def twoSegments (words : List VerboseWord) : VerboseResponse :=
  { text := "a b", segments := [⟨0,1,"a"⟩,⟨1,2," b"⟩], words }

theorem spoken_twoSegments {words : List VerboseWord} (hle : ∀ w ∈ words, w.start ≤ w.stop)
    (hstart : ∀ w ∈ words, 0 ≤ w.start) (hstop : ∀ w ∈ words, w.stop ≤ 2) : Spoken (twoSegments words) := by
  constructor
  case segments_le => simp [twoSegments]
  case joined => simp [twoSegments]
  case words_le => exact hle
  case after_start => simpa [twoSegments] using hstart
  case before_end => simpa [twoSegments] using hstop

/-- Words that end where a segment ends are kept. -/
theorem verbose_keeps_words_iff_touching :
    ∃ chunks, verboseToChunks "r" (twoSegments [⟨"a",0,1⟩,⟨"b",1,2⟩]) = chunks.map .ok ∧
      EveryWordOnce (twoSegments [⟨"a",0,1⟩,⟨"b",1,2⟩]) chunks :=
  (verbose_keeps_words_iff "r" (twoSegments [⟨"a",0,1⟩,⟨"b",1,2⟩])
    (spoken_twoSegments (by decide +kernel) (by decide +kernel) (by decide +kernel))).mpr (by decide +kernel)

/-- A word that ends in the segment behind the one it starts in is in no chunk. -/
theorem verbose_drops_straddling :
    Spoken (twoSegments [⟨"ab",9/10,11/10⟩]) ∧
      ¬ ∃ chunks, verboseToChunks "r" (twoSegments [⟨"ab",9/10,11/10⟩]) = chunks.map .ok ∧
        EveryWordOnce (twoSegments [⟨"ab",9/10,11/10⟩]) chunks := by
  have hspoken : Spoken (twoSegments [⟨"ab",9/10,11/10⟩]) :=
    spoken_twoSegments (by decide +kernel) (by decide +kernel) (by decide +kernel)
  refine ⟨hspoken,?_⟩
  rw [everyWordOnce_iff "r" hspoken (List.cons_ne_nil _ _)]
  decide +kernel

end RakkaInference.OpenAiStt
