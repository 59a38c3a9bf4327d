import Mathlib.Algebra.Ring.Nat
import RakkaInference.Core.Audio
import RakkaInference.Machine.Packing

/-! Queued binary frames are put together, under a cap on their size and never across another frame. -/
namespace RakkaInference.Ws
open Machine.Packing

/-- What is in the buffer goes out. -/
def flushBuf (buf : List UInt8) : List Frame := if buf.isEmpty then [] else [.binary buf]

/-- The loop over the frames. -/
def coalesceLoop (maxBytes : ℕ) : List UInt8 → List Frame → List Frame
  | buf,[] => flushBuf buf
  | buf,.binary b::frames =>
    if maxBytes ≤ b.length then flushBuf buf++.binary b::coalesceLoop maxBytes [] frames
    else if maxBytes < buf.length+b.length then flushBuf buf++coalesceLoop maxBytes b frames
    else coalesceLoop maxBytes (buf++b) frames
  | buf,other::frames => flushBuf buf++other::coalesceLoop maxBytes [] frames

def coalesceBinary (frames : List Frame) (maxBytes : ℕ) : List Frame :=
  if maxBytes = 0 ∨ frames.length ≤ 1 then frames else coalesceLoop maxBytes [] frames

/-- The payloads before the first frame that is not binary, and those after each such frame. -/
def runs : List Frame → List (List UInt8) × List (Frame × List (List UInt8))
  | [] => ([],[])
  | .binary b::frames => (b::(runs frames).1,(runs frames).2)
  | other::frames => ([],(other,(runs frames).1)::(runs frames).2)

def Frame.isBinary : Frame → Bool
  | .binary _ => true
  | _ => false

def binaryCount (frames : List Frame) : ℕ := (frames.filter (·.isBinary)).length

/-- Each run is merged in some way, and the other frames stay. -/
def Merges (maxBytes : ℕ) (frames other : List Frame) : Prop :=
  Merging maxBytes (runs frames).1 (runs other).1 ∧
    List.Forall₂ (fun x y => x.1 = y.1 ∧ Merging maxBytes x.2 y.2) (runs frames).2 (runs other).2

/-- The frames that are not binary stay, and the payloads between them are packed. -/
structure Coalesced (maxBytes : ℕ) (frames out : List Frame) : Prop where
  others : out.filter (!·.isBinary) = frames.filter (!·.isBinary)
  first : Packed maxBytes (runs frames).1 (runs out).1
  between : List.Forall₂ (fun x y => x.1 = y.1 ∧ Packed maxBytes x.2 y.2) (runs frames).2 (runs out).2
  fewest : ∀ other, Merges maxBytes frames other → binaryCount out ≤ binaryCount other

variable {maxBytes : ℕ} {buf b : List UInt8} {f : Frame} {frames : List Frame}

theorem Frame.binary_or (f : Frame) : (∃ b, f = .binary b) ∨ f.isBinary = false := by
  cases f with
  | binary b => exact .inl ⟨b,rfl⟩
  | text s => exact .inr rfl
  | ping b => exact .inr rfl
  | pong b => exact .inr rfl
  | close code reason => exact .inr rfl

theorem runs_other (hf : f.isBinary = false) (frames : List Frame) :
    runs (f::frames) = ([],(f,(runs frames).1)::(runs frames).2) := by
  cases f with
  | binary b => exact nomatch hf
  | text s => rfl
  | ping b => rfl
  | pong b => rfl
  | close code reason => rfl

theorem coalesceLoop_other (hf : f.isBinary = false) (buf : List UInt8) (frames : List Frame) :
    coalesceLoop maxBytes buf (f::frames) = flushBuf buf++f::coalesceLoop maxBytes [] frames := by
  cases f with
  | binary b => exact nomatch hf
  | text s => rfl
  | ping b => rfl
  | pong b => rfl
  | close code reason => rfl

/-- The frames with these runs. -/
def ofRuns (rs : List (List UInt8) × List (Frame × List (List UInt8))) : List Frame :=
  rs.1.map .binary++rs.2.flatMap fun x => x.1::x.2.map .binary

theorem ofRuns_runs : Function.LeftInverse ofRuns runs := by
  intro frames
  induction frames with
  | nil => rfl
  | cons f frames ih =>
    obtain ⟨b,rfl⟩ | hf := f.binary_or
    · exact congrArg (Frame.binary b::·) ih
    · rw [runs_other hf]
      exact congrArg (f::·) ih

theorem filter_not_isBinary (frames : List Frame) :
    frames.filter (!·.isBinary) = (runs frames).2.map Prod.fst := by
  induction frames with
  | nil => rfl
  | cons f frames ih =>
    obtain ⟨b,rfl⟩ | hf := f.binary_or
    · exact ih
    · rw [runs_other hf,List.map_cons,← ih]
      exact List.filter_cons_of_pos (by simp [hf])

theorem binaryCount_eq (frames : List Frame) :
    binaryCount frames = (runs frames).1.length+((runs frames).2.map fun x => x.2.length).sum := by
  induction frames with
  | nil => rfl
  | cons f frames ih =>
    obtain ⟨b,rfl⟩ | hf := f.binary_or
    · have hcount : binaryCount (.binary b::frames) = binaryCount frames+1 := rfl
      rw [hcount,ih]
      simp only [runs,List.length_cons]
      omega
    · have hcount : binaryCount (f::frames) = binaryCount frames :=
        congrArg List.length (List.filter_cons_of_neg (by simp [hf]))
      rw [hcount,ih,runs_other hf,List.map_cons,List.sum_cons]
      exact (Nat.zero_add _).symm

theorem runs_flushBuf (buf : List UInt8) (frames : List Frame) :
    runs (flushBuf buf++frames) = (flush buf++(runs frames).1,(runs frames).2) := by
  cases buf <;> rfl

/-- The loop packs each run. -/
theorem runs_coalesceLoop (maxBytes : ℕ) (buf : List UInt8) (frames : List Frame) :
    runs (coalesceLoop maxBytes buf frames) =
      (pack maxBytes buf (runs frames).1,(runs frames).2.map fun x => (x.1,pack maxBytes [] x.2)) := by
  induction frames generalizing buf with
  | nil =>
    rw [coalesceLoop,← List.append_nil (flushBuf buf),runs_flushBuf]
    exact Prod.ext (List.append_nil _) rfl
  | cons f frames ih =>
    obtain ⟨b,rfl⟩ | hf := f.binary_or
    · simp only [coalesceLoop,runs,pack]
      split
      · rw [runs_flushBuf,runs,ih]
      · split
        · rw [runs_flushBuf,ih]
        · exact ih (buf++b)
    · rw [coalesceLoop_other hf,runs_flushBuf,runs_other hf,runs_other hf,ih]
      exact Prod.ext (List.append_nil _) rfl

/-- The second time the loop finds every run packed. -/
theorem coalesceLoop_coalesceLoop (hmax : 0 < maxBytes) (frames : List Frame) :
    coalesceLoop maxBytes [] (coalesceLoop maxBytes [] frames) = coalesceLoop maxBytes [] frames := by
  apply ofRuns_runs.injective
  rw [runs_coalesceLoop maxBytes [] (coalesceLoop maxBytes [] frames),runs_coalesceLoop]
  apply Prod.ext
  · exact pack_pack hmax _
  · rw [List.map_map]
    apply List.map_congr_left
    intro x _
    exact Prod.ext rfl (pack_pack hmax x.2)

theorem sum_length_le {rs rs' : List (Frame × List (List UInt8))}
    (h : List.Forall₂ (fun x y => x.1 = y.1 ∧ Merging maxBytes x.2 y.2) rs rs') (hmax : 0 < maxBytes) :
    ((rs.map fun x => (x.1,pack maxBytes [] x.2)).map fun x => x.2.length).sum ≤
      (rs'.map fun x => x.2.length).sum := by
  induction h with
  | nil => exact Nat.le_refl 0
  | cons hxy _ ih =>
    have hle := (packed_pack hmax _).minimal _ hxy.2
    simp only [List.map_cons,List.sum_cons]
    exact Nat.add_le_add (hle.trans (List.length_filter_le _ _)) ih

theorem coalesced_coalesceLoop (hmax : 0 < maxBytes) (frames : List Frame) :
    Coalesced maxBytes frames (coalesceLoop maxBytes [] frames) := by
  have hruns := runs_coalesceLoop maxBytes [] frames
  constructor
  case others =>
    rw [filter_not_isBinary,filter_not_isBinary,hruns,List.map_map]
    rfl
  case first =>
    rw [hruns]
    exact packed_pack hmax _
  case between =>
    rw [hruns,List.forall₂_map_right_iff]
    exact List.forall₂_same.mpr fun x _ => ⟨rfl,packed_pack hmax x.2⟩
  case fewest =>
    rintro other ⟨hfirst,hbetween⟩
    have hle := (packed_pack hmax _).minimal _ hfirst
    rw [binaryCount_eq,binaryCount_eq,hruns]
    exact Nat.add_le_add (hle.trans (List.length_filter_le _ _)) (sum_length_le hbetween hmax)

theorem coalesce_binary_packs (frames : List Frame) (maxBytes : ℕ) :
    (maxBytes = 0 ∨ frames.length ≤ 1 → coalesceBinary frames maxBytes = frames) ∧
    (0 < maxBytes → 1 < frames.length → Coalesced maxBytes frames (coalesceBinary frames maxBytes)) ∧
    coalesceBinary (coalesceBinary frames maxBytes) maxBytes = coalesceBinary frames maxBytes := by
  refine ⟨fun h => if_pos h,?_,?_⟩
  · intro hmax hframes
    rw [coalesceBinary,if_neg (by omega)]
    exact coalesced_coalesceLoop hmax frames
  · by_cases hsame : maxBytes = 0 ∨ frames.length ≤ 1
    · have hout : coalesceBinary frames maxBytes = frames := if_pos hsame
      rw [hout,hout]
    · have hmax : 0 < maxBytes := by omega
      have hout : coalesceBinary frames maxBytes = coalesceLoop maxBytes [] frames := if_neg hsame
      rw [hout]
      unfold coalesceBinary
      split
      · rfl
      · exact coalesceLoop_coalesceLoop hmax frames

/-- Two short payloads go out as one, and the text keeps its place. -/
theorem coalesce_binary_packs_short :
    Coalesced 4 [.binary [1],.binary [2,3],.text "t",.binary [4]] [.binary [1,2,3],.text "t",.binary [4]] :=
  (coalesce_binary_packs [.binary [1],.binary [2,3],.text "t",.binary [4]] 4).2.1 (by decide) (by decide)

end RakkaInference.Ws
