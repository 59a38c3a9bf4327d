import RakkaInference.Core.ErrorWire
import RakkaInference.Machine.Records

/-! Structs in JSON, by the rules of the derived serialization. -/
namespace RakkaInference
open Machine

namespace Json
variable {α : Type} {slots : List (String × Option Json)} {name : String} {j : Json} {v : Option Json}
  {f : Json → Option α}

/-- The fields of a struct. It may be written as a list of its values too, which has to reach as far as the last
field that has no default. -/
def fieldsOf (names : List String) (j : Json) (least : ℕ := 0) : Option (List (String × Json)) :=
  match j with
  | .object fields => some fields
  | .array items => if least ≤ items.length ∧ items.length ≤ names.length then some (names.zip items) else none
  | _ => none

@[simp] theorem fieldsOf_object (names : List String) (fields : List (String × Json)) (least : ℕ) :
    fieldsOf names (.object fields) least = some fields := rfl

/-- A field that is taken to have this value when it is missing. -/
def defaulted (fields : List (String × Json)) (name : String) (default : α) (f : Json → Option α) : Option α :=
  match valuesOf fields name with
  | [] => some default
  | [j] => f j
  | _ => none

def asBool : Json → Option Bool
  | .bool b => some b
  | _ => none

/-- A number that is not finite is written as null. -/
def ofF64 : F64 → Json
  | .finite x => .float x
  | _ => .null

def ofF32 : F32 → Json
  | .finite x => .float (x.widen fun _ => FloatFormat.binary64_has)
  | _ => .null

/-- A number with a fraction may be read as a slightly different one, where it comes from a text. -/
def asF64 (j : Json) (reread : FiniteFloat .binary64 → FiniteFloat .binary64 := id) : Option F64 :=
  match j with
  | .int n => some (.ofInt n)
  | .float x => some (.finite (reread x))
  | _ => none

def asF32 : Json → Option F32
  | .int n => some (.ofInt n)
  | .float x => some (.rounded x.negative x.magnitude)
  | _ => none

def asList (f : Json → Option α) : Json → Option (List α)
  | .array items => items.mapM f
  | _ => none

/-- A variant without fields. -/
def asUnit (ofUnit : String → Option α) : Json → Option α
  | .string variant => ofUnit variant
  | .object [(variant,.null)] => ofUnit variant
  | _ => none

/-- The tag of a variant, and what holds its fields. -/
def tagged (tag : String) : Json → Option (String × Json)
  | .object fields =>
    match valuesOf fields tag with
    | [.string variant] => some (variant,.object (fields.filter fun field => field.1 ≠ tag))
    | _ => none
  | .array (.string variant::items) => some (variant,.array items)
  | _ => none

/-- A variant with its fields beside the tag. -/
def withTag (tag variant : String) (fields : List (String × Json)) : Json := .object ((tag,.string variant)::fields)

theorem tagged_withTag {tag : String} {fields : List (String × Json)} (h : ∀ field ∈ fields, field.1 ≠ tag)
    (variant : String) : tagged tag (withTag tag variant fields) = some (variant,.object fields) := by
  have hnone : valuesOf fields tag = [] := by simpa [valuesOf] using h
  have htag : valuesOf ((tag,.string variant)::fields) tag = [.string variant] := by
    rw [valuesOf,List.filter_cons_of_pos (by simp),List.map_cons]
    exact congrArg _ hnone
  have hrest : ((tag,.string variant)::fields).filter (fun field => field.1 ≠ tag) = fields := by
    rw [List.filter_cons_of_neg (by simp),List.filter_eq_self]
    simpa using h
  simp only [withTag,tagged,htag,hrest]

/-- Two fields with the name of the tag are too many. -/
theorem tagged_withTag_twice {tag : String} {fields : List (String × Json)} (h : ∃ field ∈ fields, field.1 = tag)
    (variant : String) : tagged tag (withTag tag variant fields) = none := by
  obtain ⟨field,hmem,hname⟩ := h
  have hmem' : field.2 ∈ valuesOf fields tag :=
    List.mem_map.mpr ⟨field,List.mem_filter.mpr ⟨hmem,by simpa using hname⟩,rfl⟩
  obtain ⟨j,js,hjs⟩ := List.exists_cons_of_ne_nil (List.ne_nil_of_mem hmem')
  have htag : valuesOf ((tag,.string variant)::fields) tag = .string variant::j::js := by
    rw [valuesOf,List.filter_cons_of_pos (by simp),List.map_cons]
    exact congrArg _ hjs
  simp only [withTag,tagged,htag]

theorem required_written (h : (slots.map Prod.fst).Nodup) (hmem : (name,some j) ∈ slots) :
    required (written slots) name f = f j := by
  have hvalues : valuesOf (written slots) name = [j] := valuesUnder_written h hmem
  rw [required,hvalues]

theorem optional_written (h : (slots.map Prod.fst).Nodup) (hmem : (name,v) ∈ slots) :
    optional (written slots) name f = v.elim (some none) (asOption f) := by
  have hvalues : valuesOf (written slots) name = v.toList := valuesUnder_written h hmem
  rw [optional,hvalues]
  cases v with
  | none => rfl
  | some j => rfl

theorem defaulted_written {default : α} (h : (slots.map Prod.fst).Nodup) (hmem : (name,some j) ∈ slots) :
    defaulted (written slots) name default f = f j := by
  have hvalues : valuesOf (written slots) name = [j] := valuesUnder_written h hmem
  rw [defaulted,hvalues]

theorem asOption_of_ne_null (h : j ≠ .null) : asOption f j = (f j).map some := by
  cases j with
  | null => exact absurd rfl h
  | _ => rfl

/-- A value that may be left out, and is not read as missing when it is there. -/
theorem optional_skipped {g : α → Json} {o : Option α} (h : (slots.map Prod.fst).Nodup)
    (hmem : (name,o.map g) ∈ slots) (hnull : ∀ a ∈ o, g a ≠ .null) (hf : ∀ a ∈ o, f (g a) = some a) :
    optional (written slots) name f = some o := by
  rw [optional_written h hmem]
  cases o with
  | none => rfl
  | some a =>
    rw [Option.map_some,Option.elim_some,asOption_of_ne_null (hnull a rfl),hf a rfl,Option.map_some]

/-- A value that is written as null when it is missing. -/
theorem optional_null {g : α → Json} {o : Option α} (h : (slots.map Prod.fst).Nodup)
    (hmem : (name,some (ofOption g o)) ∈ slots) (hnull : ∀ a ∈ o, g a ≠ .null) (hf : ∀ a ∈ o, f (g a) = some a) :
    optional (written slots) name f = some o := by
  rw [optional_written h hmem]
  exact asOption_ofOption hnull hf

/-- A value that is written as null is read as missing. -/
theorem ne_null_of_optional {o : Option α} (h : (slots.map Prod.fst).Nodup) (hmem : (name,some j) ∈ slots)
    (hread : optional (written slots) name f = some o) (ho : o.isSome) : j ≠ .null := by
  rintro rfl
  rw [optional_written h hmem,Option.elim_some] at hread
  obtain rfl := Option.some.inj hread
  cases ho

theorem asF64_ofF64 {x : F64} (h : x.IsFinite) : asF64 (ofF64 x) = some x := by
  obtain ⟨x,rfl⟩ := h
  rfl

theorem asF32_ofF32 {x : F32} (h : x.IsFinite) : asF32 (ofF32 x) = some x := by
  obtain ⟨x,rfl⟩ := h
  simp only [ofF32,asF32,FiniteFloat.widen,Floating.rounded_self]

theorem ofF64_eq_null_iff {x : F64} : ofF64 x = .null ↔ ¬x.IsFinite := by
  cases x <;> simp [ofF64,Floating.IsFinite]

theorem ofF32_eq_null_iff {x : F32} : ofF32 x = .null ↔ ¬x.IsFinite := by
  cases x <;> simp [ofF32,Floating.IsFinite]

theorem asList_map {g : α → Json} {xs : List α} (h : ∀ a ∈ xs, f (g a) = some a) :
    asList f (.array (xs.map g)) = some xs :=
  mapM_map h

theorem asWord_uint32 (n : UInt32) : asWord 32 (ofNat n.toNat) = some n.toNat :=
  asWord_ofNat (UInt32.toNat_lt n)

/-- A word of 32 bits. -/
def asU32 (j : Json) : Option UInt32 := (asWord 32 j).map UInt32.ofNat

theorem asU32_ofNat (n : UInt32) : asU32 (ofNat n.toNat) = some n := by
  rw [asU32,asWord_uint32,Option.map_some,UInt32.ofNat_toNat]

theorem lt_of_asWord {w n : ℕ} (h : asWord w j = some n) : n < 2^w := by
  cases j with
  | int i =>
    simp only [asWord] at h
    split at h
    case isTrue hi =>
      obtain rfl := Option.some.inj h
      have hcast : (i.toNat : ℤ) = i := Int.toNat_of_nonneg hi.1
      exact_mod_cast hcast ▸ hi.2
    case isFalse => cases h
  | _ => cases h

theorem read_of_required {fields : List (String × Json)} {a : α} (h : required fields name f = some a) :
    ∃ j, f j = some a := by
  unfold required at h
  split at h
  · exact ⟨_,h⟩
  · cases h

theorem read_of_optional {fields : List (String × Json)} {o : Option α} (h : optional fields name f = some o) :
    ∀ a ∈ o, ∃ j, f j = some a := by
  intro a ha
  obtain rfl : o = some a := ha
  unfold optional at h
  split at h
  · cases h
  · rename_i j _
    unfold asOption at h
    split at h
    · cases h
    · obtain ⟨b,hb,hba⟩ := Option.map_eq_some_iff.mp h
      obtain rfl := Option.some.inj hba
      exact ⟨j,hb⟩
  · cases h

end Json
end RakkaInference
