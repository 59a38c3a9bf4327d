import Mathlib.Algebra.BigOperators.Group.List.Basic
import Mathlib.Algebra.Ring.Int.Defs

/-! Arrays on their way to a session: the library checks the shape against the elements. -/
namespace RakkaInference.Ort

/-- The complaint about an array of this length for this shape, if there is one. -/
abbrev FromArray := List ℤ → ℕ → Option String

/-- How the library checks an array: no dimension is less than one, and it has as many elements as the shape says. -/
structure ChecksShape (fromArray : FromArray) : Prop where
  refuses : ∀ shape n, (∃ d ∈ shape, d < 1) →
    ∃ e, fromArray shape n = some e ∧ "invalid".toList <:+: (e.map Char.toLower).toList
  accepts : ∀ shape (n : ℕ), (∀ d ∈ shape, 1 ≤ d) → shape.prod = (n : ℤ) → fromArray shape n = none

/-- A row with at least one element. -/
theorem ChecksShape.row {fromArray : FromArray} (h : ChecksShape fromArray) {n : ℕ} (hn : n ≠ 0) :
    fromArray [1,(n : ℤ)] n = none := by
  apply h.accepts
  · intro d hd
    obtain rfl | rfl := List.mem_pair.mp hd
    · decide
    · omega
  · simp

/-- What the library says of an array. -/
def checkedArray (shape : List ℤ) (n : ℕ) : Option String :=
  if shape.any (· < 1) then
    some (s!"Invalid dimension #{shape.findIdx (· < 1)+1}; "++
      "all dimensions must be >= 1 when creating a tensor from raw data")
  else if shape.prod = (n : ℤ) then none
  else some s!"Cannot create a tensor from raw data; shape {shape} is not that of {n} elements"

theorem checksShape_checkedArray : ChecksShape checkedArray := by
  constructor
  case refuses =>
    intro shape n hempty
    have hany : shape.any (· < 1) = true := by simpa using hempty
    refine ⟨_,if_pos hany,?_⟩
    have hstart : "invalid".toList <+: "Invalid dimension #".toList.map Char.toLower := by decide
    simp only [String.toList_map,String.toList_append,List.map_append,List.append_assoc,toString]
    exact (hstart.trans (List.prefix_append _ _)).isInfix
  case accepts =>
    intro shape n hdims hprod
    have hany : ¬shape.any (· < 1) = true := by simpa using hdims
    exact (if_neg hany).trans (if_pos hprod)

end RakkaInference.Ort
