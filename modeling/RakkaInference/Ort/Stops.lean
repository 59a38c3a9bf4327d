import RakkaInference.Machine.Endings
import RakkaInference.Ort.Generate

/-! When the loop stops, and the chunk that says so. -/
namespace RakkaInference.Ort
open Machine
variable {Rng : Type} {out : Outside Rng} {args : Args} {s t u v : State Rng} {id : UInt32} {full : String}
  {rng : Rng}
  {ids : List UInt32} {reason : FinishReason}

/-- A step does not go beyond the bound, except that it samples in any case. -/
theorem Emitted.length_le (hu : Emitted out args s id full u) (hs : Going args s) (hpos : args.maxNew ≠ 0) :
    (u.generated args).length ≤ args.maxNew.toNat := by
  rw [hu.generated hs,List.length_append,List.length_singleton,← hs.count]
  obtain hnil | hbelow := hs.below
  · rw [hs.count,hnil]
    exact Nat.pos_of_ne_zero fun h => hpos (UInt32.toNat_inj.mp h)
  · exact UInt32.lt_iff_toNat_lt.mp hbelow

theorem Emitted.unfinished (hu : Emitted out args s id full u) (hs : ∀ c ∈ s.sent, c.finishReason.isSome = false) :
    ∀ c ∈ u.sent, c.finishReason.isSome = false := by
  intro c hc
  rw [hu.sent,List.mem_append] at hc
  obtain hc | hc := hc
  · exact hs c hc
  · unfold deltaChunks at hc
    split at hc
    · exact nomatch hc
    · rw [List.mem_singleton.mp hc]
      rfl

end RakkaInference.Ort
