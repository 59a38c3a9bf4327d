import RakkaInference.Machine.PrefixCode
import RakkaInference.Ort.Tensors
import RakkaInference.Speech.Rechunk

/-! A call of the Piper runner, from the text to the chunks. The padding between the phonemes lets a text be told
from its ids. -/
namespace RakkaInference.Piper
open Machine Ort

def bosKey : String := "^"
def eosKey : String := "$"
def padKey : String := "_"

inductive PiperError
  | unknownPhoneme (phoneme : String)
  | speakerOutOfRange (requested : Int64) (numSpeakers : UInt32)
  | ort (message : String)
  deriving DecidableEq

structure PhonemeMap where
  inner : String → Option (List Int64)

namespace PhonemeMap

def lookup (m : PhonemeMap) (c : Char) : Option (List Int64) := m.inner (String.singleton c)

def pad (m : PhonemeMap) : List Int64 := (m.inner padKey).getD []

/-- One character with the padding behind it. -/
def push (m : PhonemeMap) (out : List Int64) (c : Char) : Except PiperError (List Int64) :=
  match m.lookup c with
  | some ids => .ok (out++ids++m.pad)
  | none => .error (.unknownPhoneme (String.singleton c))

/-- What stands before the text. -/
def opening (m : PhonemeMap) : List Int64 :=
  match m.inner bosKey with
  | some bos => bos++m.pad
  | none => []

def idsForText (m : PhonemeMap) (text : List Char) : Except PiperError (List Int64) := do
  let out ← text.foldlM m.push m.opening
  return out++(m.inner eosKey).getD []

/-- The padding is one id, which no other phoneme has among its own. -/
def Separated (m : PhonemeMap) : Prop :=
  ∃ p, m.inner padKey = some [p] ∧ ∀ c ids, m.lookup c = some ids → ids ≠ [] ∧ (p ∈ ids → ids = [p])

/-- The map of the entries of a voice. -/
def new (entries : List (String × List Int64)) : PhonemeMap where
  inner key := entries.lookup key

/-- What the entries of a voice are looked through for. -/
theorem separated_new {entries : List (String × List Int64)} {p : Int64} (hp : entries.lookup padKey = some [p])
    (h : entries.all fun e => e.2 != [] && (!e.2.contains p || e.2 == [p])) : (new entries).Separated := by
  refine ⟨p,hp,?_⟩
  intro c ids hc
  obtain ⟨before,after,hsplit,-⟩ := List.lookup_eq_some_iff.mp hc
  have hmem : (String.singleton c,ids) ∈ entries := by
    rw [hsplit]
    exact List.mem_append_right before List.mem_cons_self
  have hids := List.all_eq_true.mp h _ hmem
  simpa [imp_iff_not_or] using hids

/-- The ids of one character. -/
def code (m : PhonemeMap) (c : Char) : List Int64 := (m.lookup c).getD []++m.pad

variable {m : PhonemeMap} {text text' : List Char} {ids ids' : List Int64}

theorem foldlM_push (h : ∀ c ∈ text, (m.lookup c).isSome) (out : List Int64) :
    text.foldlM m.push out = .ok (out++(text.map m.code).flatten) := by
  induction text generalizing out with
  | nil => exact congrArg Except.ok (List.append_nil out).symm
  | cons c text ih =>
    rw [List.forall_mem_cons] at h
    obtain ⟨ids,hids⟩ := Option.isSome_iff_exists.mp h.1
    have hpush : m.push out c = .ok (out++m.code c) := by
      unfold push code
      rw [hids]
      exact congrArg Except.ok (List.append_assoc out ids m.pad)
    rw [List.foldlM_cons,hpush]
    change text.foldlM m.push (out++m.code c) = _
    rw [ih h.2,List.map_cons,List.flatten_cons,List.append_assoc]

theorem foldlM_push_unknown {pre post : List Char} {c : Char} (hpre : ∀ d ∈ pre, (m.lookup d).isSome)
    (hc : m.lookup c = none) (out : List Int64) :
    (pre++c::post).foldlM m.push out = .error (.unknownPhoneme (String.singleton c)) := by
  have hpush : ∀ out, m.push out c = .error (.unknownPhoneme (String.singleton c)) := by
    intro out
    unfold push
    rw [hc]
  rw [List.foldlM_append,foldlM_push hpre]
  change (c::post).foldlM m.push _ = _
  rw [List.foldlM_cons,hpush]
  rfl

/-- A text is known, or has a first character that is not. -/
theorem known_or_first (m : PhonemeMap) (text : List Char) : (∀ c ∈ text, (m.lookup c).isSome) ∨
    ∃ pre c post, text = pre++c::post ∧ (∀ d ∈ pre, (m.lookup d).isSome) ∧ m.lookup c = none := by
  induction text with
  | nil =>
    left
    intro c hc
    cases hc
  | cons c text ih =>
    cases hc : m.lookup c with
    | none =>
      refine .inr ⟨[],c,text,rfl,?_,hc⟩
      intro d hd
      cases hd
    | some ids =>
      have hsome : (m.lookup c).isSome = true := by rw [hc]; rfl
      obtain hknown | ⟨pre,d,post,rfl,hpre,hd⟩ := ih
      · left
        rw [List.forall_mem_cons]
        exact ⟨hsome,hknown⟩
      · refine .inr ⟨c::pre,d,post,rfl,?_,hd⟩
        rw [List.forall_mem_cons]
        exact ⟨hsome,hpre⟩

theorem idsForText_of_known (h : ∀ c ∈ text, (m.lookup c).isSome) :
    m.idsForText text = .ok (m.opening++(text.map m.code).flatten++(m.inner eosKey).getD []) := by
  unfold idsForText
  rw [foldlM_push h]
  rfl

theorem idsForText_of_unknown {pre post : List Char} {c : Char} (hpre : ∀ d ∈ pre, (m.lookup d).isSome)
    (hc : m.lookup c = none) : m.idsForText (pre++c::post) = .error (.unknownPhoneme (String.singleton c)) := by
  unfold idsForText
  rw [foldlM_push_unknown hpre hc]
  rfl

theorem known_of_ok (h : m.idsForText text = .ok ids) : ∀ c ∈ text, (m.lookup c).isSome := by
  obtain hknown | ⟨pre,c,post,rfl,hpre,hc⟩ := m.known_or_first text
  · exact hknown
  · rw [idsForText_of_unknown hpre hc] at h
    cases h

theorem prefixFree_codes (hm : m.Separated) : PrefixFree { w | ∃ c, (m.lookup c).isSome ∧ w = m.code c } := by
  obtain ⟨p,hp,hids⟩ := hm
  apply prefixFree_marked (p := p)
  intro w hw
  obtain ⟨c,hc,rfl⟩ := hw
  obtain ⟨ids,heq⟩ := Option.isSome_iff_exists.mp hc
  refine ⟨ids,?_,hids c ids heq⟩
  unfold code pad
  rw [heq,hp]
  rfl

theorem mem_codes (h : ∀ c ∈ text, (m.lookup c).isSome) :
    ∀ w ∈ text.map m.code, w ∈ { w | ∃ c, (m.lookup c).isSome ∧ w = m.code c } := by
  intro w hw
  obtain ⟨c,hc,rfl⟩ := List.mem_map.mp hw
  exact ⟨c,h c hc,rfl⟩

theorem map_code (text : List Char) : text.map m.code = (text.map m.lookup).map fun v => v.getD []++m.pad := by
  rw [List.map_map]
  rfl

/-- The phonemes stand in the codes before the padding. -/
theorem map_lookup (h : ∀ c ∈ text, (m.lookup c).isSome) :
    text.map m.lookup = (text.map m.code).map fun w => some (w.take (w.length-m.pad.length)) := by
  rw [List.map_map]
  apply List.map_congr_left
  intro c hc
  obtain ⟨ids,heq⟩ := Option.isSome_iff_exists.mp (h c hc)
  have hcode : m.code c = ids++m.pad := by
    unfold code
    rw [heq]
    rfl
  rw [Function.comp_apply,hcode,List.length_append,Nat.add_sub_cancel,List.take_left,heq]

/-- The ids are told apart as the phonemes are. -/
theorem idsForText_eq_ok_iff (hm : m.Separated) (h : m.idsForText text = .ok ids) :
    m.idsForText text' = .ok ids ↔ text'.map m.lookup = text.map m.lookup := by
  have hknown := known_of_ok h
  rw [idsForText_of_known hknown] at h
  have hids := Except.ok.inj h
  constructor
  · intro h'
    have hknown' := known_of_ok h'
    rw [idsForText_of_known hknown',← hids,Except.ok.injEq] at h'
    have hflat := List.append_cancel_left (List.append_cancel_right h')
    have hcodes := (prefixFree_codes hm).uniquelyDecodable (text'.map m.code) (text.map m.code) (mem_codes hknown')
      (mem_codes hknown) hflat
    rw [map_lookup hknown',map_lookup hknown,hcodes]
  · intro hsame
    have hknown' : ∀ c ∈ text', (m.lookup c).isSome := by
      intro c hc
      have hmem : m.lookup c ∈ text.map m.lookup := hsame ▸ List.mem_map_of_mem hc
      obtain ⟨d,hd,heq⟩ := List.mem_map.mp hmem
      rw [← heq]
      exact hknown d hd
    rw [idsForText_of_known hknown',map_code,hsame,← map_code,← hids]

example : (new [("_",[0]),("^",[1]),("$",[2]),("h",[10]),("e",[11])]).idsForText ['h','e'] =
    .ok [1,0,10,0,11,0,2] := by decide

theorem idsForText_eq_error_iff {e : PiperError} : m.idsForText text = .error e ↔ ∃ pre c post, text = pre++c::post ∧
    (∀ d ∈ pre, (m.lookup d).isSome) ∧ m.lookup c = none ∧ e = .unknownPhoneme (String.singleton c) := by
  constructor
  · intro h
    obtain hknown | ⟨pre,c,post,rfl,hpre,hc⟩ := m.known_or_first text
    · rw [idsForText_of_known hknown] at h
      cases h
    · rw [idsForText_of_unknown hpre hc] at h
      exact ⟨pre,c,post,rfl,hpre,hc,(Except.error.inj h).symm⟩
  · intro h
    obtain ⟨pre,c,post,rfl,hpre,hc,rfl⟩ := h
    exact idsForText_of_unknown hpre hc

/-- No id comes of no text and no marks around it. -/
theorem idsForText_eq_nil_iff (hm : m.Separated) : m.idsForText text = .ok [] ↔
    text = [] ∧ m.inner bosKey = none ∧ (m.inner eosKey).getD [] = [] := by
  obtain ⟨p,hp,-⟩ := hm
  have hpad : m.pad = [p] := by
    unfold pad
    rw [hp]
    rfl
  have hopening : m.opening = [] ↔ m.inner bosKey = none := by
    unfold opening
    rw [hpad]
    cases m.inner bosKey with
    | none => exact ⟨fun _ => rfl,fun _ => rfl⟩
    | some bos => exact ⟨fun h => absurd h (by simp),fun h => nomatch h⟩
  constructor
  · intro h
    have hknown := known_of_ok h
    rw [idsForText_of_known hknown] at h
    obtain ⟨hbefore,heos⟩ := List.append_eq_nil_iff.mp (Except.ok.inj h)
    obtain ⟨hbos,hcodes⟩ := List.append_eq_nil_iff.mp hbefore
    refine ⟨?_,hopening.mp hbos,heos⟩
    cases text with
    | nil => rfl
    | cons c text =>
      rw [List.map_cons,List.flatten_cons,code,hpad] at hcodes
      simp at hcodes
  · rintro ⟨rfl,hbos,heos⟩
    rw [idsForText_of_known (by simp),hopening.mpr hbos,heos]
    rfl

end PhonemeMap

structure PiperState where
  phonemeMap : PhonemeMap
  numSpeakers : UInt32
  sampleRate : UInt32

structure PiperConfig where
  speakerId : Option Int64
  lengthScale : Float32
  noiseScale : Float32
  noiseW : Float32
  chunkSamples : UInt64

/-- What the session is run on. -/
structure Entries where
  input : List Int64
  inputLengths : Int64
  scales : Float32 × Float32 × Float32
  sid : Option Int64

/-- A run of the session: its outputs in their order, each with its data if these are 32-bit floats. -/
abbrev Session := Entries → Except String (List (Option (List Float32)))

namespace PiperConfig

def sid (cfg : PiperConfig) : Int64 := cfg.speakerId.getD 0

def scales (cfg : PiperConfig) : Float32 × Float32 × Float32 := (cfg.noiseScale,cfg.lengthScale,cfg.noiseW)

end PiperConfig

namespace PiperState

/-- The cast takes the lower half of the id. -/
def refuses (state : PiperState) (sid : Int64) : Bool := sid < 0 || state.numSpeakers ≤ sid.toUInt64.toUInt32

/-- A voice of one speaker does not declare the speaker. -/
def entries (state : PiperState) (cfg : PiperConfig) (ids : List Int64) : Entries where
  input := ids
  inputLengths := Int64.ofNat ids.length
  scales := cfg.scales
  sid := if state.numSpeakers > 1 then some cfg.sid else none

/-- The shapes and the lengths of the arrays: the ids, their number, the scales, and the speaker. -/
def arrays (ids : List Int64) : List (List ℤ × ℕ) := [([1,(ids.length : ℤ)],ids.length),([1],1),([3],3),([1],1)]

/-- The call up to the session. The first complaint about an array ends it. -/
def prepare (fromArray : FromArray) (state : PiperState) (text : List Char) (cfg : PiperConfig) :
    Except PiperError Entries := do
  let ids ← state.phonemeMap.idsForText text
  if state.refuses cfg.sid then .error (.speakerOutOfRange cfg.sid state.numSpeakers)
  else
    match (arrays ids).findSome? fun a => fromArray a.1 a.2 with
    | some message => .error (.ort message)
    | none => .ok (state.entries cfg ids)

def runSynthesis (fromArray : FromArray) (state : PiperState) (session : Session) (text : List Char)
    (cfg : PiperConfig) : Except PiperError (List Float32) := do
  let entries ← state.prepare fromArray text cfg
  match session entries with
  | .error message => .error (.ort message)
  | .ok outputs =>
    match outputs.findSome? id with
    | some data => .ok data
    | none => .error (.ort "no f32 output tensor")

/-- The runner's call. -/
def speakText (fromArray : FromArray) (state : PiperState) (session : Session) (requestId : String)
    (text : List Char) (cfg : PiperConfig) : Except PiperError (List SpeechChunk) := do
  let pcm ← state.runSynthesis fromArray session text cfg
  return speak requestId state.sampleRate cfg.chunkSamples pcm

variable {fromArray : FromArray} {state : PiperState} {text text' : List Char} {cfg cfg' : PiperConfig}
  {ids ids' : List Int64} {x : Entries}

theorem entries_eq_iff : state.entries cfg' ids' = state.entries cfg ids ↔
    ids' = ids ∧ cfg'.scales = cfg.scales ∧ (1 < state.numSpeakers → cfg'.sid = cfg.sid) := by
  unfold entries
  rw [Entries.mk.injEq]
  constructor
  · rintro ⟨hids,-,hscales,hsid⟩
    refine ⟨hids,hscales,?_⟩
    intro hmany
    rw [if_pos hmany,if_pos hmany] at hsid
    exact Option.some.inj hsid
  · rintro ⟨rfl,hscales,hsid⟩
    refine ⟨rfl,rfl,hscales,?_⟩
    by_cases hmany : 1 < state.numSpeakers
    · rw [hsid hmany]
    · rw [if_neg hmany,if_neg hmany]

/-- Of the arrays only an empty one for the ids is refused. -/
theorem arrays_accepted_iff (h : ChecksShape fromArray) :
    ((arrays ids).findSome? fun a => fromArray a.1 a.2) = none ↔ ids ≠ [] := by
  have hone : fromArray [1] 1 = none := h.accepts [1] 1 (by decide) rfl
  have hthree : fromArray [3] 3 = none := h.accepts [3] 3 (by decide) rfl
  rw [List.findSome?_eq_none_iff]
  constructor
  · rintro hall rfl
    obtain ⟨e,he,-⟩ := h.refuses [1,0] 0 ⟨0,by simp,by decide⟩
    have hnone := hall ([1,0],0) List.mem_cons_self
    exact nomatch hnone.symm.trans he
  · intro hne
    simp only [arrays,List.forall_mem_cons]
    exact ⟨h.row (mt List.length_eq_zero_iff.mp hne),hone,hthree,hone,nofun⟩

theorem prepare_of_ids (h : state.phonemeMap.idsForText text = .ok ids) : state.prepare fromArray text cfg =
    if state.refuses cfg.sid then .error (.speakerOutOfRange cfg.sid state.numSpeakers)
    else match (arrays ids).findSome? fun a => fromArray a.1 a.2 with
      | some message => .error (.ort message)
      | none => .ok (state.entries cfg ids) := by
  unfold prepare
  rw [h]
  rfl

theorem prepare_eq_ok_iff (hchecks : ChecksShape fromArray) : state.prepare fromArray text cfg = .ok x ↔
    state.refuses cfg.sid = false ∧ ∃ ids, state.phonemeMap.idsForText text = .ok ids ∧ ids ≠ [] ∧
      x = state.entries cfg ids := by
  cases hids : state.phonemeMap.idsForText text with
  | error e =>
    unfold prepare
    rw [hids]
    constructor
    · intro h
      cases h
    · rintro ⟨-,ids,h,-⟩
      cases h
  | ok ids =>
    rw [prepare_of_ids hids]
    cases state.refuses cfg.sid with
    | true =>
      constructor
      · intro h
        cases h
      · rintro ⟨h,-⟩
        cases h
    | false =>
      rw [if_neg Bool.false_ne_true]
      cases hfirst : (arrays ids).findSome? fun a => fromArray a.1 a.2 with
      | some message =>
        constructor
        · intro h
          cases h
        · rintro ⟨-,ids',h,hne,-⟩
          obtain rfl := Except.ok.inj h
          rw [(arrays_accepted_iff hchecks).mpr hne] at hfirst
          cases hfirst
      | none =>
        constructor
        · intro h
          exact ⟨rfl,ids,rfl,(arrays_accepted_iff hchecks).mp hfirst,(Except.ok.inj h).symm⟩
        · rintro ⟨-,ids',h,-,rfl⟩
          rw [Except.ok.inj h]

theorem prepare_eq_error_iff (hchecks : ChecksShape fromArray) {e : PiperError} :
    state.prepare fromArray text cfg = .error e ↔
    state.phonemeMap.idsForText text = .error e ∨
      (∃ ids, state.phonemeMap.idsForText text = .ok ids) ∧ state.refuses cfg.sid = true ∧
        e = .speakerOutOfRange cfg.sid state.numSpeakers ∨
      state.phonemeMap.idsForText text = .ok [] ∧ state.refuses cfg.sid = false ∧
        ∃ message, fromArray [1,0] 0 = some message ∧ e = .ort message := by
  cases hids : state.phonemeMap.idsForText text with
  | error e' =>
    unfold prepare
    rw [hids]
    constructor
    · intro h
      exact .inl (congrArg Except.error (Except.error.inj h))
    · rintro (h | ⟨⟨ids,h⟩,-⟩ | ⟨h,-⟩)
      · rw [Except.error.inj h]
        rfl
      · cases h
      · cases h
  | ok ids =>
    rw [prepare_of_ids hids]
    cases state.refuses cfg.sid with
    | true =>
      constructor
      · intro h
        exact .inr (.inl ⟨⟨ids,rfl⟩,rfl,(Except.error.inj h).symm⟩)
      · rintro (h | ⟨-,-,rfl⟩ | ⟨-,h,-⟩)
        · cases h
        · rfl
        · cases h
    | false =>
      rw [if_neg Bool.false_ne_true]
      by_cases hne : ids = []
      · subst hne
        obtain ⟨message,hmessage,-⟩ := hchecks.refuses [1,0] 0 ⟨0,by simp,by decide⟩
        have hfirst : ((arrays []).findSome? fun a => fromArray a.1 a.2) = some message := by
          simp [arrays,hmessage]
        rw [hfirst]
        constructor
        · intro h
          exact .inr (.inr ⟨rfl,rfl,message,hmessage,(Except.error.inj h).symm⟩)
        · rintro (h | ⟨-,h,-⟩ | ⟨-,-,message',hmessage',rfl⟩)
          · cases h
          · cases h
          · rw [Option.some.inj (hmessage.symm.trans hmessage')]
      · rw [(arrays_accepted_iff hchecks).mpr hne]
        constructor
        · intro h
          cases h
        · rintro (h | ⟨-,h,-⟩ | ⟨h,-⟩)
          · cases h
          · cases h
          · exact absurd (Except.ok.inj h) hne

/-- One input of the session stands for one text and one speaker. -/
theorem prepare_same_iff (hchecks : ChecksShape fromArray) (hm : state.phonemeMap.Separated)
    (h : state.prepare fromArray text cfg = .ok x) :
    state.prepare fromArray text' cfg' = .ok x ↔
      text'.map state.phonemeMap.lookup = text.map state.phonemeMap.lookup ∧
      state.refuses cfg'.sid = false ∧ cfg'.scales = cfg.scales ∧ (1 < state.numSpeakers → cfg'.sid = cfg.sid) := by
  obtain ⟨-,ids,hids,hne,rfl⟩ := (prepare_eq_ok_iff hchecks).mp h
  rw [prepare_eq_ok_iff hchecks,← PhonemeMap.idsForText_eq_ok_iff hm hids]
  constructor
  · rintro ⟨hrefuses,ids',hids',-,hentries⟩
    obtain ⟨rfl,hscales,hsid⟩ := entries_eq_iff.mp hentries.symm
    exact ⟨hids',hrefuses,hscales,hsid⟩
  · rintro ⟨hids',hrefuses,hscales,hsid⟩
    exact ⟨hrefuses,ids,hids',hne,(entries_eq_iff.mpr ⟨rfl,hscales,hsid⟩).symm⟩

theorem speakText_of_error {e : PiperError} (h : state.prepare fromArray text cfg = .error e) (session : Session)
    (requestId : String) : state.speakText fromArray session requestId text cfg = .error e := by
  unfold speakText runSynthesis
  rw [h]
  rfl

theorem speakText_eq_ok_iff {session : Session} {requestId : String} {out : List SpeechChunk}
    (h : state.prepare fromArray text cfg = .ok x) : state.speakText fromArray session requestId text cfg = .ok out ↔
      ∃ outputs pcm, session x = .ok outputs ∧ outputs.findSome? id = some pcm ∧
        out = speak requestId state.sampleRate cfg.chunkSamples pcm := by
  unfold speakText runSynthesis
  rw [h]
  change (match session x with | .error message => _ | .ok outputs => _ : Except PiperError (List Float32)).bind _ =
    _ ↔ _
  cases session x with
  | error message =>
    constructor
    · intro h
      cases h
    · rintro ⟨outputs,pcm,h,-⟩
      cases h
  | ok outputs =>
    change (match outputs.findSome? id with | some data => _ | none => _ : Except PiperError (List Float32)).bind _ =
      _ ↔ _
    cases hfirst : outputs.findSome? id with
    | none =>
      constructor
      · intro h
        cases h
      · rintro ⟨outputs',pcm,h,hpcm,-⟩
        rw [← Except.ok.inj h,hfirst] at hpcm
        cases hpcm
    | some pcm =>
      constructor
      · intro h
        exact ⟨outputs,pcm,rfl,hfirst,(Except.ok.inj h).symm⟩
      · rintro ⟨outputs',pcm',h,hpcm,rfl⟩
        rw [← Except.ok.inj h,hfirst] at hpcm
        rw [Option.some.inj hpcm]
        rfl

end PiperState

/-- The call of a text with a voice whose phonemes are told apart. -/
structure Spoken (fromArray : FromArray) (state : PiperState) (text : List Char) (cfg : PiperConfig) : Prop where
  /-- Before the session, the first unknown character is looked for, then the speaker, and then whether there is an
  id at all, which a text has and a mark at either end. -/
  refused : ∀ e, state.prepare fromArray text cfg = .error e ↔
    (∃ pre c post, text = pre++c::post ∧ (∀ d ∈ pre, (state.phonemeMap.lookup d).isSome) ∧
      state.phonemeMap.lookup c = none ∧ e = .unknownPhoneme (String.singleton c)) ∨
    (∀ c ∈ text, (state.phonemeMap.lookup c).isSome) ∧ state.refuses cfg.sid = true ∧
      e = .speakerOutOfRange cfg.sid state.numSpeakers ∨
    (text = [] ∧ state.phonemeMap.inner bosKey = none ∧ (state.phonemeMap.inner eosKey).getD [] = []) ∧
      state.refuses cfg.sid = false ∧ ∃ message, fromArray [1,0] 0 = some message ∧ e = .ort message
  unsaid : ∀ e, state.prepare fromArray text cfg = .error e → ∀ session requestId,
    state.speakText fromArray session requestId text cfg = .error e
  apart : ∀ x, state.prepare fromArray text cfg = .ok x → ∀ text' cfg', state.prepare fromArray text' cfg' = .ok x ↔
    text'.map state.phonemeMap.lookup = text.map state.phonemeMap.lookup ∧ state.refuses cfg'.sid = false ∧
      cfg'.scales = cfg.scales ∧ (1 < state.numSpeakers → cfg'.sid = cfg.sid)
  said : ∀ x, state.prepare fromArray text cfg = .ok x → ∀ session requestId out,
    state.speakText fromArray session requestId text cfg = .ok out → ∃ outputs pcm, session x = .ok outputs ∧
      outputs.findSome? id = some pcm ∧
      Rechunked (2*max cfg.chunkSamples.toNat 1) (pcm.flatMap fun s => toLeBytes (i16Val s)) out

end RakkaInference.Piper

namespace RakkaInference
open Ort Piper

theorem piper_speaks {fromArray : FromArray} (hchecks : ChecksShape fromArray) {state : PiperState}
    (hm : state.phonemeMap.Separated) (text : List Char) (cfg : PiperConfig) : Spoken fromArray state text cfg where
  refused := by
    intro e
    rw [PiperState.prepare_eq_error_iff hchecks,PhonemeMap.idsForText_eq_error_iff,
      PhonemeMap.idsForText_eq_nil_iff hm]
    have hids : (∃ ids, state.phonemeMap.idsForText text = .ok ids) ↔
        ∀ c ∈ text, (state.phonemeMap.lookup c).isSome :=
      ⟨fun ⟨_,h⟩ => PhonemeMap.known_of_ok h,fun h => ⟨_,PhonemeMap.idsForText_of_known h⟩⟩
    rw [hids]
  unsaid := by
    intro e h session requestId
    exact PiperState.speakText_of_error h session requestId
  apart := by
    intro x h text' cfg'
    exact PiperState.prepare_same_iff hchecks hm h
  said := by
    intro x h session requestId out hout
    obtain ⟨outputs,pcm,hsession,hpcm,rfl⟩ := (PiperState.speakText_eq_ok_iff h).mp hout
    have hsize : 0 < max cfg.chunkSamples.toNat 1 := by omega
    exact ⟨outputs,pcm,hsession,hpcm,pcmF32ToChunks_rechunks pcm requestId state.sampleRate hsize⟩

theorem piper_speaks_hello : Spoken checkedArray
    ⟨PhonemeMap.new [("_",[0]),("^",[1]),("$",[2]),("h",[10]),("e",[11])],1,22050⟩ ['h','e']
      ⟨none,1,0.667,0.8,4096⟩ :=
  piper_speaks checksShape_checkedArray (PhonemeMap.separated_new (p := 0) rfl (by decide)) ['h','e']
    ⟨none,1,0.667,0.8,4096⟩

end RakkaInference
