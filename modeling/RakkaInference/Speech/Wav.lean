import Mathlib.Data.List.Induction
import Mathlib.Data.Nat.Digits.Defs
import RakkaInference.Machine.Loops
import RakkaInference.Machine.Slices

/-! Recordings in RIFF files, decoded to samples. -/
namespace RakkaInference.Wav
open Machine

structure UnsupportedAudio where
  message : String
deriving DecidableEq

def u16FromLe (a b : UInt8) : UInt16 := .ofNat (a.toNat+256*b.toNat)

def u32FromLe (a b c d : UInt8) : UInt32 := .ofNat (a.toNat+256*(b.toNat+256*(c.toNat+256*d.toNat)))

def u16At (data : List UInt8) (i : ℕ) : Option UInt16 := do
  return u16FromLe (← data[i]?) (← data[i+1]?)

def u32At (data : List UInt8) (i : ℕ) : Option UInt32 := do
  return u32FromLe (← data[i]?) (← data[i+1]?) (← data[i+2]?) (← data[i+3]?)

def pcm16Samples : List UInt8 → List Float32
  | a::b::rest => (u16FromLe a b).toInt16.toFloat32/(32767 : Int16).toFloat32::pcm16Samples rest
  | _ => []

def decodePcm16 (data : List UInt8) : Except UnsupportedAudio (List Float32) :=
  if data.length%2 ≠ 0 then
    .error ⟨s!"Pcm16Le payload byte length {data.length} is not a multiple of 2"⟩
  else .ok (pcm16Samples data)

def pcmF32Samples : List UInt8 → List Float32
  | a::b::c::d::rest => Float32.ofBits (u32FromLe a b c d)::pcmF32Samples rest
  | _ => []

def decodePcmF32 (data : List UInt8) : Except UnsupportedAudio (List Float32) :=
  if data.length%4 ≠ 0 then
    .error ⟨s!"PcmF32Le payload byte length {data.length} is not a multiple of 4"⟩
  else .ok (pcmF32Samples data)

/-- The local variables of the decoder. -/
structure Scan where
  pos : ℕ := 12
  fmtTag : Option UInt16 := none
  channels : Option UInt16 := none
  sampleRate : Option UInt32 := none
  bitsPerSample : Option UInt16 := none
  audio : Option (List UInt8) := none

def fourcc (s : String) : List UInt8 := utf8Bytes s.toList

/-- What a chunk says is noted. -/
def noteChunk (s : Scan) (id body : List UInt8) : Option Scan :=
  if id = fourcc "fmt " ∧ 16 ≤ body.length then do
    let tag ← u16At body 0
    let channels ← u16At body 2
    let rate ← u32At body 4
    let bits ← u16At body 14
    return { s with
      fmtTag := some tag, channels := some channels, sampleRate := some rate, bitsPerSample := some bits }
  else if id = fourcc "data" then some { s with audio := some body }
  else some s

/-- One round of the loop over the chunks. -/
def readChunk (data : List UInt8) (s : Scan) : Option (Scan ⊕ Except UnsupportedAudio Scan) :=
  if s.pos+8 ≤ data.length then do
    let id ← slice data s.pos (s.pos+4)
    let size := (← u32At data (s.pos+4)).toNat
    let bodyStart := s.pos+8
    match checkedAdd bodyStart size with
    | none => return .inr (.error ⟨"WAV: chunk size overflow"⟩)
    | some bodyEnd =>
      if data.length < bodyEnd then return .inr (.error ⟨s!"WAV: chunk `{fromUtf8Lossy id}` extends past EOF"⟩)
      let body ← slice data bodyStart bodyEnd
      let s ← noteChunk s id body
      let advance := if size%2 = 0 then size else size+1
      return .inl { s with pos := bodyStart+advance }
  else some (.inr (.ok s))

/-- What is done after the loop. -/
def decodeFound (s : Scan) : Except UnsupportedAudio (List Float32) :=
  match s.fmtTag with
  | none => .error ⟨"WAV: missing fmt chunk"⟩
  | some fmtTag =>
    let channels := s.channels.getD 0
    let sampleRate := s.sampleRate.getD 0
    let bits := s.bitsPerSample.getD 0
    match s.audio with
    | none => .error ⟨"WAV: missing data chunk"⟩
    | some audio =>
      if channels ≠ 1 then .error ⟨s!"WAV: expected mono, got {channels} channels"⟩
      else if sampleRate ≠ 16000 then .error ⟨s!"WAV: expected 16000 Hz, got {sampleRate} Hz"⟩
      else if fmtTag = 1 ∧ bits = 16 then decodePcm16 audio
      else if fmtTag = 3 ∧ bits = 32 then decodePcmF32 audio
      else
        .error ⟨"WAV: only PCM-16 (fmt 1, 16-bit) or IEEE-FLOAT (fmt 3, 32-bit) supported; "++
          s!"got fmt {fmtTag}/{bits}-bit"⟩

/-- The file begins as a RIFF file of this kind does. -/
def hasHeader (data : List UInt8) : Option Bool :=
  if data.length < 12 then some false
  else do
    if (← slice data 0 4) ≠ fourcc "RIFF" then return false
    return (← slice data 8 12) = fourcc "WAVE"

def decodeWav (fuel : ℕ) (data : Bytes) : Ended (Except UnsupportedAudio (List Float32)) :=
  match hasHeader data.bytes with
  | none => .panicked
  | some false => .returned (.error ⟨"WAV: missing RIFF/WAVE header"⟩)
  | some true => (loop (readChunk data.bytes) fuel {}).map fun found => found.bind decodeFound

/-- The number that these bytes are, the low one first. -/
def leValue (bs : List UInt8) : ℕ := Nat.ofDigits 256 (bs.map UInt8.toNat)

def fieldAt (body : List UInt8) (i n : ℕ) : ℕ := leValue ((body.drop i).take n)

def le32 (n : ℕ) : List UInt8 := [.ofNat n,.ofNat (n/256),.ofNat (n/256^2),.ofNat (n/256^3)]

structure Chunk where
  id : List UInt8
  body : List UInt8
  /-- What stands after a body of odd length. -/
  pad : UInt8 := 0
  id_length : id.length = 4
  body_lt : body.length < 2^32

def Chunk.render (c : Chunk) : List UInt8 :=
  c.id++(le32 c.body.length++(c.body++if c.body.length%2 = 0 then [] else [c.pad]))

def render (size : UInt32) (chunks : List Chunk) : List UInt8 :=
  fourcc "RIFF"++(le32 size.toNat++(fourcc "WAVE"++chunks.flatMap Chunk.render))

def Chunk.isFmt (c : Chunk) : Bool := c.id = fourcc "fmt " ∧ 16 ≤ c.body.length

def Chunk.isData (c : Chunk) : Bool := c.id = fourcc "data"

def lastBody (p : Chunk → Bool) (chunks : List Chunk) : Option (List UInt8) :=
  (chunks.filter p).getLast?.map Chunk.body

/-- The format is one channel at 16000 Hz, in this coding. -/
def Says (fmt : List UInt8) (tag bits : ℕ) : Prop :=
  fieldAt fmt 2 2 = 1 ∧ fieldAt fmt 4 4 = 16000 ∧ fieldAt fmt 0 2 = tag ∧ fieldAt fmt 14 2 = bits

def Playable (fmt audio : List UInt8) : Prop :=
  Says fmt 1 16 ∧ 2 ∣ audio.length ∨ Says fmt 3 32 ∧ 4 ∣ audio.length

/-- The words of a width that the bytes are made of, without what is left. -/
def words (w : ℕ) (bs : List UInt8) : List (List UInt8) :=
  (List.range (bs.length/w)).map fun i => (bs.drop (w*i)).take w

def pcm16Word (word : List UInt8) : Float32 :=
  (UInt16.ofNat (leValue word)).toInt16.toFloat32/(32767 : Int16).toFloat32

def pcmF32Word (word : List UInt8) : Float32 := .ofBits (.ofNat (leValue word))

def samples (fmt audio : List UInt8) : List Float32 :=
  if fieldAt fmt 0 2 = 1 then (words 2 audio).map pcm16Word else (words 4 audio).map pcmF32Word

section Samples

theorem words_append {w : ℕ} (hw : 0 < w) (word : List UInt8) (hword : word.length = w) (bs : List UInt8) :
    words w (word++bs) = word::words w bs := by
  have hcount : (word++bs).length/w = bs.length/w+1 := by
    rw [List.length_append,hword,Nat.add_div_left _ hw]
  rw [words,hcount,List.range_succ_eq_map,List.map_cons,List.map_map]
  apply congrArg₂
  · rw [Nat.mul_zero,List.drop_zero,← hword,List.take_left]
  · apply List.map_congr_left
    intro i _
    rw [Function.comp_apply,Nat.mul_succ,Nat.add_comm,← List.drop_drop,← hword,List.drop_left]

theorem words_of_lt {w : ℕ} {bs : List UInt8} (h : bs.length < w) : words w bs = [] := by
  rw [words,Nat.div_eq_of_lt h]
  rfl

theorem u16FromLe_eq (a b : UInt8) : u16FromLe a b = .ofNat (leValue [a,b]) := by
  simp [u16FromLe,leValue,Nat.ofDigits]

theorem u32FromLe_eq (a b c d : UInt8) : u32FromLe a b c d = .ofNat (leValue [a,b,c,d]) := by
  simp [u32FromLe,leValue,Nat.ofDigits]

theorem pcm16Samples_eq (bs : List UInt8) : pcm16Samples bs = (words 2 bs).map pcm16Word := by
  induction bs using pcm16Samples.induct with
  | case1 a b rest ih =>
    have hwords := words_append Nat.two_pos [a,b] rfl rest
    rw [pcm16Samples,ih,u16FromLe_eq]
    exact (congrArg (List.map pcm16Word) hwords).symm
  | case2 bs hshort =>
    have hlt : bs.length < 2 := by
      match bs with
      | [] | [_] => simp
      | a::b::rest => exact absurd rfl (hshort a b rest)
    rw [words_of_lt hlt,pcm16Samples.eq_2 bs hshort]
    rfl

theorem pcmF32Samples_eq (bs : List UInt8) : pcmF32Samples bs = (words 4 bs).map pcmF32Word := by
  induction bs using pcmF32Samples.induct with
  | case1 a b c d rest ih =>
    have hwords := words_append (Nat.succ_pos 3) [a,b,c,d] rfl rest
    rw [pcmF32Samples,ih,u32FromLe_eq]
    exact (congrArg (List.map pcmF32Word) hwords).symm
  | case2 bs hshort =>
    have hlt : bs.length < 4 := by
      match bs with
      | [] | [_] | [_,_] | [_,_,_] => simp
      | a::b::c::d::rest => exact absurd rfl (hshort a b c d rest)
    rw [words_of_lt hlt,pcmF32Samples.eq_2 bs hshort]
    rfl

end Samples

section Reads
variable {data : List UInt8} {i : ℕ}

theorem slice_eq {start stop : ℕ} (h : start ≤ stop) (hstop : stop ≤ data.length) :
    slice data start stop = some ((data.drop start).take (stop-start)) := if_pos ⟨h,hstop⟩

theorem exists_drop_eq (h : i < data.length) : ∃ a, data[i]? = some a ∧ data.drop i = a::data.drop (i+1) :=
  ⟨data[i],List.getElem?_eq_getElem h,List.drop_eq_getElem_cons h⟩

theorem u16At_eq (h : i+2 ≤ data.length) : u16At data i = some (.ofNat (fieldAt data i 2)) := by
  have hi : i < data.length := by omega
  have hi' : i+1 < data.length := by omega
  obtain ⟨a,ha,hdrop⟩ := exists_drop_eq hi
  obtain ⟨b,hb,hdrop'⟩ := exists_drop_eq hi'
  rw [u16At,ha,hb,fieldAt,hdrop,hdrop']
  exact congrArg some (u16FromLe_eq a b)

theorem u32At_eq (h : i+4 ≤ data.length) : u32At data i = some (.ofNat (fieldAt data i 4)) := by
  have hat : ∀ j < 4, i+j < data.length := by omega
  obtain ⟨a,ha,hdrop₀⟩ := exists_drop_eq (hat 0 (by decide))
  obtain ⟨b,hb,hdrop₁⟩ := exists_drop_eq (hat 1 (by decide))
  obtain ⟨c,hc,hdrop₂⟩ := exists_drop_eq (hat 2 (by decide))
  obtain ⟨d,hd,hdrop₃⟩ := exists_drop_eq (hat 3 (by decide))
  rw [Nat.add_zero] at ha hdrop₀
  rw [u32At,ha,hb,hc,hd,fieldAt,hdrop₀,hdrop₁,hdrop₂,hdrop₃]
  exact congrArg some (u32FromLe_eq a b c d)

end Reads

section Loop
variable {data : List UInt8} {s : Scan}

/-- What a chunk says, without a look at the ranges. -/
def noted (s : Scan) (id body : List UInt8) : Scan :=
  if id = fourcc "fmt " ∧ 16 ≤ body.length then
    { s with
      fmtTag := some (.ofNat (fieldAt body 0 2)), channels := some (.ofNat (fieldAt body 2 2))
      sampleRate := some (.ofNat (fieldAt body 4 4)), bitsPerSample := some (.ofNat (fieldAt body 14 2)) }
  else if id = fourcc "data" then { s with audio := some body }
  else s

theorem noteChunk_eq (s : Scan) (id body : List UInt8) : noteChunk s id body = some (noted s id body) := by
  unfold noteChunk noted
  split
  case isTrue h =>
    obtain ⟨-,hbody⟩ := h
    rw [u16At_eq (by omega),u16At_eq (by omega),u32At_eq (by omega),u16At_eq (by omega)]
    rfl
  case isFalse h => split <;> rfl

/-- A round of the loop reads in range, and goes on behind what it has read. -/
theorem readChunk_total (data : List UInt8) (s : Scan) :
    ∃ x, readChunk data s = some x ∧ ∀ t, x = .inl t → s.pos < data.length ∧ s.pos < t.pos := by
  unfold readChunk
  split
  case isFalse h => exact ⟨_,rfl,nofun⟩
  case isTrue h =>
    rw [slice_eq (by omega) (by omega),u32At_eq (by omega)]
    simp only [Option.bind_eq_bind,Option.bind_some]
    generalize (UInt32.ofNat (fieldAt data (s.pos+4) 4)).toNat = size
    cases hadd : checkedAdd (s.pos+8) size with
    | none => exact ⟨_,rfl,nofun⟩
    | some bodyEnd =>
      have hend : bodyEnd = s.pos+8+size := by
        unfold checkedAdd at hadd
        split at hadd
        · exact (Option.some.inj hadd).symm
        · exact nomatch hadd
      dsimp only
      split
      · exact ⟨_,rfl,nofun⟩
      · rw [slice_eq (by omega) (by omega),Option.bind_some,noteChunk_eq,Option.bind_some]
        refine ⟨_,rfl,?_⟩
        rintro t heq
        rw [← Sum.inl.inj heq]
        exact ⟨by omega,by dsimp only; omega⟩

theorem length_le32 (n : ℕ) : (le32 n).length = 4 := rfl

theorem leValue_le32 {n : ℕ} (h : n < 2^32) : leValue (le32 n) = n := by
  simp only [leValue,le32,List.map_cons,List.map_nil,Nat.ofDigits_cons,Nat.ofDigits_nil,UInt8.toNat_ofNat']
  omega

theorem slice_append (as bs cs : List UInt8) :
    slice (as++(bs++cs)) as.length (as.length+bs.length) = some bs := by
  rw [slice_eq (Nat.le_add_right _ _) (by simp only [List.length_append]; omega),List.drop_left,
    Nat.add_sub_cancel_left,List.take_left]

theorem fieldAt_append (as bs cs : List UInt8) : fieldAt (as++(bs++cs)) as.length bs.length = leValue bs := by
  rw [fieldAt,List.drop_left,List.take_left]

def Chunk.padding (c : Chunk) : List UInt8 := if c.body.length%2 = 0 then [] else [c.pad]

theorem Chunk.length_render (c : Chunk) : c.render.length = 8+c.body.length+c.padding.length := by
  simp only [Chunk.render,Chunk.padding,List.length_append,c.id_length,length_le32]
  omega

/-- A chunk that has been rendered is read, and what follows it is next. -/
theorem readChunk_chunk {pre rest : List UInt8} (c : Chunk) (hfits : (pre++(c.render++rest)).length < 2^63)
    (hs : s.pos = pre.length) :
    readChunk (pre++(c.render++rest)) s =
      some (.inl { noted s c.id c.body with pos := s.pos+c.render.length }) := by
  have hid := slice_append pre c.id (le32 c.body.length++(c.body++(c.padding++rest)))
  have hsize := fieldAt_append (pre++c.id) (le32 c.body.length) (c.body++(c.padding++rest))
  have hbody := slice_append (pre++(c.id++le32 c.body.length)) c.body (c.padding++rest)
  have hdata : pre++(c.render++rest) = pre++(c.id++(le32 c.body.length++(c.body++(c.padding++rest)))) := by
    simp [Chunk.render,Chunk.padding]
  have hlen := c.length_render
  simp only [List.length_append,length_le32,c.id_length,← hs,List.append_assoc,← hdata,
    leValue_le32 c.body_lt] at hid hsize hbody hfits
  have hnat : (UInt32.ofNat c.body.length).toNat = c.body.length := Nat.mod_eq_of_lt c.body_lt
  have hadd : checkedAdd (s.pos+8) c.body.length = some (s.pos+8+c.body.length) := if_pos (by omega)
  have hin : s.pos+8+c.body.length ≤ (pre++(c.render++rest)).length := by
    simp only [List.length_append]
    omega
  unfold readChunk
  rw [if_pos (by omega),hid,u32At_eq (by omega),hsize]
  simp only [Option.bind_eq_bind,Option.bind_some,hnat,hadd]
  rw [if_neg (by omega),hbody,Option.bind_some,noteChunk_eq,Option.bind_some]
  have hadvance : s.pos+8+(if c.body.length%2 = 0 then c.body.length else c.body.length+1) =
      s.pos+c.render.length := by
    rw [hlen,Chunk.padding]
    split
    · rw [List.length_nil]
      omega
    · rw [List.length_singleton]
      omega
  rw [hadvance]
  rfl

/-- What the loop has found after these chunks. -/
def collect (s : Scan) (chunks : List Chunk) : Scan :=
  chunks.foldl (fun s c => { noted s c.id c.body with pos := s.pos+c.render.length }) s

theorem rounds_chunks (chunks : List Chunk) {pre : List UInt8}
    (hfits : (pre++chunks.flatMap Chunk.render).length < 2^63) (hs : s.pos = pre.length) :
    Rounds (readChunk (pre++chunks.flatMap Chunk.render)) s (collect s chunks) ∧
      (collect s chunks).pos = (pre++chunks.flatMap Chunk.render).length := by
  induction chunks generalizing pre s with
  | nil =>
    refine ⟨.refl,?_⟩
    rw [List.flatMap_nil,List.append_nil]
    exact hs
  | cons c chunks ih =>
    have hnext : ({ noted s c.id c.body with pos := s.pos+c.render.length } : Scan).pos =
      (pre++c.render).length := by
      rw [List.length_append,hs]
    have hdata : pre++(c::chunks).flatMap Chunk.render = pre++c.render++chunks.flatMap Chunk.render := by
      rw [List.flatMap_cons,List.append_assoc]
    rw [hdata] at hfits ⊢
    obtain ⟨hrounds,hpos⟩ := ih hfits hnext
    rw [List.append_assoc] at hfits
    have hstep := readChunk_chunk c hfits hs
    rw [← List.append_assoc] at hstep
    exact ⟨.head hstep hrounds,hpos⟩

/-- A chunk of the other kind, or of no kind, leaves what was noted. -/
theorem collect_snoc (s : Scan) (chunks : List Chunk) (c : Chunk) :
    collect s (chunks++[c]) =
      { noted (collect s chunks) c.id c.body with pos := (collect s chunks).pos+c.render.length } := by
  simp [collect]

theorem lastBody_snoc (p : Chunk → Bool) (chunks : List Chunk) (c : Chunk) :
    lastBody p (chunks++[c]) = if p c then some c.body else lastBody p chunks := by
  unfold lastBody
  rw [List.filter_append]
  split
  case isTrue hc => rw [List.filter_cons_of_pos hc,List.filter_nil,List.getLast?_concat,Option.map_some]
  case isFalse hc => rw [List.filter_cons_of_neg hc,List.filter_nil,List.append_nil]

/-- The last format and the last recording are what is found. -/
theorem collect_eq (chunks : List Chunk) :
    collect {} chunks =
      { pos := (collect {} chunks).pos
        fmtTag := (lastBody Chunk.isFmt chunks).map fun fmt => .ofNat (fieldAt fmt 0 2)
        channels := (lastBody Chunk.isFmt chunks).map fun fmt => .ofNat (fieldAt fmt 2 2)
        sampleRate := (lastBody Chunk.isFmt chunks).map fun fmt => .ofNat (fieldAt fmt 4 4)
        bitsPerSample := (lastBody Chunk.isFmt chunks).map fun fmt => .ofNat (fieldAt fmt 14 2)
        audio := lastBody Chunk.isData chunks } := by
  induction chunks using List.reverseRecOn with
  | nil => rfl
  | append_singleton chunks c ih =>
    rw [collect_snoc,lastBody_snoc,lastBody_snoc]
    generalize collect {} chunks = s at ih
    by_cases hfmt : c.id = fourcc "fmt " ∧ 16 ≤ c.body.length
    · have hdata : ¬ c.isData := by
        rw [Chunk.isData,hfmt.1]
        decide
      have hfmt' : c.isFmt := decide_eq_true hfmt
      rw [if_pos hfmt',if_neg hdata,noted,if_pos hfmt,ih]
      rfl
    · have hfmt' : ¬ c.isFmt := by rwa [Chunk.isFmt,decide_eq_true_eq]
      rw [if_neg hfmt',noted,if_neg hfmt]
      by_cases hdata : c.id = fourcc "data"
      · have hdata' : c.isData := decide_eq_true hdata
        rw [if_pos hdata,if_pos hdata',ih]
      · have hdata' : ¬ c.isData := by rwa [Chunk.isData,decide_eq_true_eq]
        rw [if_neg hdata,if_neg hdata',ih]

end Loop

section Decode
variable {fmt audio : List UInt8} {pcm : List Float32}

theorem leValue_lt (bs : List UInt8) : leValue bs < 256^bs.length := by
  have hlt : ∀ d ∈ bs.map UInt8.toNat, d < 256 := by
    intro d hd
    obtain ⟨b,-,rfl⟩ := List.mem_map.mp hd
    exact b.toNat_lt
  have hdigits := Nat.ofDigits_lt_base_pow_length (by decide) hlt
  rwa [List.length_map] at hdigits

theorem fieldAt_lt (body : List UInt8) (i n : ℕ) : fieldAt body i n < 256^n :=
  (leValue_lt _).trans_le (Nat.pow_le_pow_right (by decide) (List.length_take_le n _))

theorem u16_eq_iff (body : List UInt8) (i : ℕ) {n : ℕ} (hn : n < 2^16) :
    UInt16.ofNat (fieldAt body i 2) = UInt16.ofNat n ↔ fieldAt body i 2 = n := by
  have hlt : fieldAt body i 2 < 2^16 := fieldAt_lt body i 2
  rw [← UInt16.toNat_inj,UInt16.toNat_ofNat',UInt16.toNat_ofNat',Nat.mod_eq_of_lt hlt,Nat.mod_eq_of_lt hn]

theorem u32_eq_iff (body : List UInt8) (i : ℕ) {n : ℕ} (hn : n < 2^32) :
    UInt32.ofNat (fieldAt body i 4) = UInt32.ofNat n ↔ fieldAt body i 4 = n := by
  have hlt : fieldAt body i 4 < 2^32 := fieldAt_lt body i 4
  rw [← UInt32.toNat_inj,UInt32.toNat_ofNat',UInt32.toNat_ofNat',Nat.mod_eq_of_lt hlt,Nat.mod_eq_of_lt hn]

theorem decodePcm16_iff : decodePcm16 audio = .ok pcm ↔ 2 ∣ audio.length ∧ pcm = (words 2 audio).map pcm16Word := by
  unfold decodePcm16
  split
  case isTrue h => exact ⟨nofun,fun hok => absurd (Nat.mod_eq_zero_of_dvd hok.1) h⟩
  case isFalse h =>
    rw [Except.ok.injEq,pcm16Samples_eq]
    exact ⟨fun heq => ⟨Nat.dvd_of_mod_eq_zero (not_not.mp h),heq.symm⟩,fun hok => hok.2.symm⟩

theorem decodePcmF32_iff : decodePcmF32 audio = .ok pcm ↔
    4 ∣ audio.length ∧ pcm = (words 4 audio).map pcmF32Word := by
  unfold decodePcmF32
  split
  case isTrue h => exact ⟨nofun,fun hok => absurd (Nat.mod_eq_zero_of_dvd hok.1) h⟩
  case isFalse h =>
    rw [Except.ok.injEq,pcmF32Samples_eq]
    exact ⟨fun heq => ⟨Nat.dvd_of_mod_eq_zero (not_not.mp h),heq.symm⟩,fun hok => hok.2.symm⟩

/-- What is done with the last format and the last recording. -/
theorem decodeFound_iff (pos : ℕ) :
    decodeFound
        { pos, audio
          fmtTag := some (.ofNat (fieldAt fmt 0 2)), channels := some (.ofNat (fieldAt fmt 2 2))
          sampleRate := some (.ofNat (fieldAt fmt 4 4)), bitsPerSample := some (.ofNat (fieldAt fmt 14 2)) } =
          .ok pcm ↔
      Playable fmt audio ∧ pcm = samples fmt audio := by
  have hchannels : UInt16.ofNat (fieldAt fmt 2 2) = 1 ↔ fieldAt fmt 2 2 = 1 := u16_eq_iff fmt 2 (by decide)
  have hrate : UInt32.ofNat (fieldAt fmt 4 4) = 16000 ↔ fieldAt fmt 4 4 = 16000 := u32_eq_iff fmt 4 (by decide)
  have htag₁ : UInt16.ofNat (fieldAt fmt 0 2) = 1 ↔ fieldAt fmt 0 2 = 1 := u16_eq_iff fmt 0 (by decide)
  have htag₃ : UInt16.ofNat (fieldAt fmt 0 2) = 3 ↔ fieldAt fmt 0 2 = 3 := u16_eq_iff fmt 0 (by decide)
  have hbits₁₆ : UInt16.ofNat (fieldAt fmt 14 2) = 16 ↔ fieldAt fmt 14 2 = 16 := u16_eq_iff fmt 14 (by decide)
  have hbits₃₂ : UInt16.ofNat (fieldAt fmt 14 2) = 32 ↔ fieldAt fmt 14 2 = 32 := u16_eq_iff fmt 14 (by decide)
  simp only [decodeFound,Option.getD_some,ne_eq,hchannels,hrate,htag₁,htag₃,hbits₁₆,hbits₃₂]
  by_cases hmono : fieldAt fmt 2 2 = 1
  case neg =>
    rw [if_pos hmono]
    exact ⟨nofun,fun h => absurd (h.1.elim (·.1.1) (·.1.1)) hmono⟩
  case pos =>
    by_cases hspeed : fieldAt fmt 4 4 = 16000
    case neg =>
      rw [if_neg (not_not.mpr hmono),if_pos hspeed]
      exact ⟨nofun,fun h => absurd (h.1.elim (·.1.2.1) (·.1.2.1)) hspeed⟩
    case pos =>
      rw [if_neg (not_not.mpr hmono),if_neg (not_not.mpr hspeed)]
      unfold Playable Says samples
      by_cases hint : fieldAt fmt 0 2 = 1 ∧ fieldAt fmt 14 2 = 16
      · rw [if_pos hint,if_pos hint.1,decodePcm16_iff]
        simp only [hmono,hspeed,hint,true_and,Nat.reduceEqDiff,false_and,or_false]
      · rw [if_neg hint]
        by_cases hfloat : fieldAt fmt 0 2 = 3 ∧ fieldAt fmt 14 2 = 32
        · have hother : fieldAt fmt 0 2 ≠ 1 := by omega
          rw [if_pos hfloat,if_neg hother,decodePcmF32_iff]
          simp only [hmono,hspeed,hfloat,true_and,Nat.reduceEqDiff,false_and,false_or]
        · rw [if_neg hfloat]
          refine ⟨nofun,?_⟩
          rintro ⟨⟨⟨-,-,htag,hbits⟩,-⟩ | ⟨⟨-,-,htag,hbits⟩,-⟩,-⟩
          · exact absurd ⟨htag,hbits⟩ hint
          · exact absurd ⟨htag,hbits⟩ hfloat

end Decode

/-- The chunks are decoded by the last format and the last recording among them. -/
theorem decodeFound_collect_iff {pcm : List Float32} (chunks : List Chunk) :
    decodeFound (collect {} chunks) = .ok pcm ↔
      ∃ fmt audio, lastBody Chunk.isFmt chunks = some fmt ∧ lastBody Chunk.isData chunks = some audio ∧
        Playable fmt audio ∧ pcm = samples fmt audio := by
  rw [collect_eq]
  cases hfmt : lastBody Chunk.isFmt chunks with
  | none => exact ⟨nofun,fun ⟨_,_,h,_⟩ => nomatch h⟩
  | some fmt =>
    cases haudio : lastBody Chunk.isData chunks with
    | none => exact ⟨nofun,fun ⟨_,_,_,h,_⟩ => nomatch h⟩
    | some audio =>
      rw [Option.map_some,Option.map_some,Option.map_some,Option.map_some,decodeFound_iff]
      constructor
      · intro h
        exact ⟨fmt,audio,rfl,rfl,h⟩
      · rintro ⟨fmt',audio',hfmt',haudio',h⟩
        obtain rfl := Option.some.inj hfmt'
        obtain rfl := Option.some.inj haudio'
        exact h

theorem hasHeader_total (data : List UInt8) : ∃ b, hasHeader data = some b := by
  unfold hasHeader
  split
  case isTrue h => exact ⟨_,rfl⟩
  case isFalse h =>
    rw [slice_eq (by omega) (by omega),slice_eq (by omega) (by omega)]
    simp only [Option.bind_eq_bind,Option.bind_some]
    split <;> exact ⟨_,rfl⟩

theorem hasHeader_render (size : UInt32) (chunks : List Chunk) : hasHeader (render size chunks) = some true := by
  have hriff : slice (render size chunks) 0 4 = some (fourcc "RIFF") :=
    slice_append [] (fourcc "RIFF") (le32 size.toNat++(fourcc "WAVE"++chunks.flatMap Chunk.render))
  have hwave : slice (render size chunks) 8 12 = some (fourcc "WAVE") := by
    rw [render,← List.append_assoc]
    exact slice_append (fourcc "RIFF"++le32 size.toNat) (fourcc "WAVE") (chunks.flatMap Chunk.render)
  have hlen : ¬ (render size chunks).length < 12 := by
    rw [render,List.length_append,List.length_append,List.length_append,length_le32]
    change ¬ 4+(4+(4+_)) < 12
    omega
  rw [hasHeader,if_neg hlen,hriff,hwave]
  rfl

theorem readChunk_returns (data : List UInt8) :
    ∃ r, ∀ fuel, data.length < fuel → loop (readChunk data) fuel {} = .returned r := by
  have hround : ∀ s : Scan, True → ∃ x, readChunk data s = some x ∧
      ∀ t, x = .inl t → True ∧ data.length-t.pos < data.length-s.pos := by
    intro s _
    obtain ⟨x,hx,hon⟩ := readChunk_total data s
    refine ⟨x,hx,?_⟩
    intro t ht
    have hpos := hon t ht
    exact ⟨trivial,by omega⟩
  obtain ⟨-,r,-,-,-,hloop⟩ := loop_returns (fun s : Scan => data.length-s.pos) hround (s := {}) trivial
  exact ⟨r,fun fuel hfuel => hloop fuel (Nat.lt_of_le_of_lt (Nat.sub_le _ _) hfuel)⟩

/-- The chunks of a file are all read. -/
theorem readChunk_render (size : UInt32) (chunks : List Chunk) (hfits : (render size chunks).length < 2^63) :
    ∃ n, ∀ fuel, n < fuel → loop (readChunk (render size chunks)) fuel {} = .returned (.ok (collect {} chunks)) := by
  have hpre : render size chunks =
      (fourcc "RIFF"++(le32 size.toNat++fourcc "WAVE"))++chunks.flatMap Chunk.render := by
    simp only [render,List.append_assoc]
  rw [hpre] at hfits ⊢
  obtain ⟨hrounds,hpos⟩ := rounds_chunks (s := {}) chunks hfits rfl
  apply loop_of_rounds hrounds
  rw [readChunk,if_neg (by omega)]

/-- Every file is decoded, or refused, after as many rounds as it has bytes; a file of chunks is decoded
by the last format and the last recording in it. -/
theorem decode_wav_reads (data : Bytes) :
    ∃ r, (∀ fuel, data.bytes.length < fuel → decodeWav fuel data = .returned r) ∧
      ∀ size chunks, data.bytes = render size chunks → ∀ pcm, r = .ok pcm ↔
        ∃ fmt audio, lastBody Chunk.isFmt chunks = some fmt ∧ lastBody Chunk.isData chunks = some audio ∧
          Playable fmt audio ∧ pcm = samples fmt audio := by
  obtain ⟨b,hb⟩ := hasHeader_total data.bytes
  unfold decodeWav
  cases b with
  | false =>
    rw [hb]
    refine ⟨_,fun _ _ => rfl,?_⟩
    intro size chunks hdata
    rw [hdata,hasHeader_render] at hb
    exact nomatch hb
  | true =>
    obtain ⟨found,hloop⟩ := readChunk_returns data.bytes
    rw [hb]
    refine ⟨found.bind decodeFound,?_,?_⟩
    · intro fuel hfuel
      dsimp only
      rw [hloop fuel hfuel]
      rfl
    · intro size chunks hdata pcm
      have hfits := data.fits
      rw [hdata] at hfits hloop
      obtain ⟨n,hn⟩ := readChunk_render size chunks hfits
      -- both hold with enough fuel
      have hsame := (hloop _ (Nat.lt_succ_of_le (Nat.le_max_left _ n))).symm.trans
        (hn _ (Nat.lt_succ_of_le (Nat.le_max_right _ n)))
      rw [Ended.returned.inj hsame]
      exact decodeFound_collect_iff chunks

def monoFmt : Chunk :=
  { id := fourcc "fmt "
    body := [1,0,1,0,0x80,0x3e,0,0,0,0x7d,0,0,2,0,16,0]
    id_length := rfl
    body_lt := by decide }

def threeBytes : Chunk := { id := fourcc "note", body := [7,8,9], id_length := rfl, body_lt := by decide }

def twoSamples : Chunk := { id := fourcc "data", body := [0,0,0xff,0x7f], id_length := rfl, body_lt := by decide }

/-- The recording is found behind a chunk of odd length. -/
theorem decode_wav_reads_two_samples :
    decodeWav 61 ⟨render 0 [monoFmt,threeBytes,twoSamples],by decide⟩ =
      .returned (.ok [pcm16Word [0,0],pcm16Word [0xff,0x7f]]) := by
  obtain ⟨r,hloop,hdecode⟩ := decode_wav_reads ⟨render 0 [monoFmt,threeBytes,twoSamples],by decide⟩
  have hr := (hdecode 0 [monoFmt,threeBytes,twoSamples] rfl _).mpr
    ⟨monoFmt.body,twoSamples.body,rfl,rfl,.inl ⟨⟨rfl,rfl,rfl,rfl⟩,by decide⟩,rfl⟩
  rw [hloop 61 (by decide),hr]
  rfl

end RakkaInference.Wav
