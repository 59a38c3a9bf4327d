import Mathlib.Data.List.Infix
import Mathlib.InformationTheory.Coding.UniquelyDecodable

/-! Codes of which no word begins another. -/
namespace Machine
open InformationTheory
variable {α β : Type*} {S : Set (List α)}

/-- No word of the code is empty, and none begins another. -/
structure PrefixFree (S : Set (List α)) : Prop where
  nonempty : [] ∉ S
  eq_of_starts : ∀ v ∈ S, ∀ w ∈ S, v <+: w → v = w

theorem PrefixFree.uniquelyDecodable (hS : PrefixFree S) : UniquelyDecodable S := by
  intro vs
  induction vs with
  | nil =>
    intro ws _ hws hflat
    cases ws with
    | nil => rfl
    | cons w ws =>
      rw [List.flatten_nil,List.flatten_cons] at hflat
      have hw : w = [] := (List.append_eq_nil_iff.mp hflat.symm).1
      exact absurd (hw ▸ hws w List.mem_cons_self) hS.nonempty
  | cons v vs ih =>
    intro ws hvs hws hflat
    rw [List.forall_mem_cons] at hvs
    cases ws with
    | nil =>
      rw [List.flatten_nil,List.flatten_cons] at hflat
      have hv : v = [] := (List.append_eq_nil_iff.mp hflat).1
      exact absurd (hv ▸ hvs.1) hS.nonempty
    | cons w ws =>
      rw [List.forall_mem_cons] at hws
      rw [List.flatten_cons,List.flatten_cons] at hflat
      have hv : v <+: w++ws.flatten := hflat ▸ List.prefix_append v vs.flatten
      have heq : v = w := by
        obtain hvw | hwv := List.prefix_or_prefix_of_prefix hv (List.prefix_append w ws.flatten)
        · exact hS.eq_of_starts v hvs.1 w hws.1 hvw
        · exact (hS.eq_of_starts w hws.1 v hvs.1 hwv).symm
      subst heq
      rw [ih ws hvs.2 hws.2 (List.append_cancel_left hflat)]

/-- Words that end at a mark: the mark alone, twice, or once behind others. -/
theorem prefixFree_marked {p : α} (hS : ∀ w ∈ S, ∃ v, w = v++[p] ∧ v ≠ [] ∧ (p ∈ v → v = [p])) : PrefixFree S where
  nonempty := by
    intro hnil
    obtain ⟨v,hv,-⟩ := hS [] hnil
    exact absurd hv.symm (List.concat_ne_nil p v)
  eq_of_starts := by
    intro v hv w hw hstart
    obtain ⟨x,rfl,hx,hxp⟩ := hS v hv
    obtain ⟨y,rfl,hy,hyp⟩ := hS w hw
    obtain heq | hshort := List.prefix_concat_iff.mp hstart
    · exact heq
    · -- The mark stands in the longer word before its end, so that word is the mark twice.
      have hmem : p ∈ y := hshort.subset (List.mem_append_right x List.mem_cons_self)
      have hlength := hshort.length_le
      have hpos := List.length_pos_iff.mpr hx
      rw [hyp hmem,List.length_append,List.length_singleton] at hlength
      omega

end Machine
