import Mathlib.Data.List.Basic

/-! Records with named slots. A slot without a value is not written. -/
namespace Machine
variable {ν : Type*} {slots : List (String × Option ν)} {name : String} {v : Option ν}

/-- The fields that are written. -/
def written (slots : List (String × Option ν)) : List (String × ν) :=
  slots.filterMap fun slot => slot.2.map fun value => (slot.1,value)

/-- The values of the fields with a name. -/
def valuesUnder (fields : List (String × ν)) (name : String) : List ν :=
  (fields.filter fun field => field.1 = name).map Prod.snd

theorem written_cons (slot : String × Option ν) (slots : List (String × Option ν)) :
    written (slot::slots) = (slot.2.map fun value => (slot.1,value)).toList++written slots := by
  obtain ⟨name,value⟩ := slot
  cases value with
  | none => rfl
  | some value => rfl

theorem valuesUnder_append (fields fields' : List (String × ν)) (name : String) :
    valuesUnder (fields++fields') name = valuesUnder fields name++valuesUnder fields' name := by
  simp [valuesUnder]

theorem valuesUnder_written_of_notMem (h : name ∉ slots.map Prod.fst) : valuesUnder (written slots) name = [] := by
  induction slots with
  | nil => rfl
  | cons slot slots ih =>
    obtain ⟨other,value⟩ := slot
    obtain ⟨hne,hrest⟩ := not_or.mp (List.mem_cons.not.mp h)
    rw [written_cons,valuesUnder_append,ih hrest,List.append_nil]
    cases value with
    | none => rfl
    | some value => simp [valuesUnder,Ne.symm hne]

/-- A slot whose name no other has is read back. -/
theorem valuesUnder_written (h : (slots.map Prod.fst).Nodup) (hmem : (name,v) ∈ slots) :
    valuesUnder (written slots) name = v.toList := by
  induction slots with
  | nil => cases hmem
  | cons slot slots ih =>
    obtain ⟨hnot,hrest⟩ := List.nodup_cons.mp h
    rw [written_cons,valuesUnder_append]
    rcases List.mem_cons.mp hmem with rfl | hmem
    · rw [valuesUnder_written_of_notMem hnot,List.append_nil]
      cases v with
      | none => rfl
      | some value => simp [valuesUnder]
    · have hne : slot.1 ≠ name := by
        rintro rfl
        exact hnot (List.mem_map.mpr ⟨_,hmem,rfl⟩)
      rw [ih hrest hmem]
      obtain ⟨other,value⟩ := slot
      cases value with
      | none => rfl
      | some value => simp [valuesUnder,hne]

/-- A list that is read item by item is read back when every item is. -/
theorem mapM_map {α β : Type} {f : α → β} {g : β → Option α} {xs : List α} (h : ∀ a ∈ xs, g (f a) = some a) :
    (xs.map f).mapM g = some xs := by
  induction xs with
  | nil => rfl
  | cons x xs ih =>
    obtain ⟨hx,hrest⟩ := List.forall_mem_cons.mp h
    rw [List.map_cons,List.mapM_cons,hx,ih hrest]
    rfl

end Machine
