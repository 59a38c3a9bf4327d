import RakkaInference.Xtask.Release

/-! The reader of the version on single lines, and the lines of the block it looks at. -/
namespace RakkaInference.Xtask
open Machine

section Values
variable {q rest line version : List Char}

/-- What is written is read again. -/
theorem versionValue_assignment (hversion : ∀ c ∈ version, c ∉ ['\"','\'','\n']) :
    versionValue (assignment version) = version := by
  have hdouble : '\"' ∉ version := fun hmem => hversion _ hmem (by decide)
  have hsingle : '\'' ∉ version := fun hmem => hversion _ hmem (by decide)
  have hsplit : splitOnce '=' (assignment version) = some ("       ".toList,' '::('\"'::(version++['\"']))) :=
    splitOnce_append (a := "       ".toList) (by decide) _
  have htrim : trim (' '::('\"'::(version++['\"']))) = '\"'::(version++['\"']) := by
    have hstart : trimStart (' '::('\"'::(version++['\"']))) = ('\"'::version)++['\"'] := rfl
    unfold trim
    rw [hstart,List.rdropWhile_concat_neg _ _ _ (by decide)]
    rfl
  unfold versionValue
  dsimp only
  rw [hsplit,Option.map_some,Option.getD_some,htrim,trimMatches_quoted hdouble,trimMatches_of_not_mem hsingle]

/-- A line with nothing but white space before the key. -/
theorem versionOfLine_key (hq : ∀ c ∈ q, isWhitespace c) (rest : List Char) :
    versionOfLine (q++(key++rest)) = some (versionValue rest) := by
  have hkey : trimStart (key++rest) = key++rest := rfl
  unfold versionOfLine
  rw [trimStart_of_forall hq,hkey,stripPrefix_append]
  rfl

theorem versionOfLine_nil : versionOfLine [] = none := rfl

theorem versionValue_cr (rest : List Char) : versionValue (rest++['\r']) = versionValue rest := by
  have hsplit : (splitOnce '=' (rest++['\r'])).map (fun kv => trim kv.2) =
      (splitOnce '=' rest).map fun kv => trim kv.2 := by
    unfold splitOnce
    by_cases hmem : '=' ∈ rest
    · have hne : rest.dropWhile (· ≠ '=') ≠ [] := by
        rw [ne_eq,List.dropWhile_eq_nil_iff]
        intro hall
        exact absurd (hall _ hmem) (by decide)
      rw [if_pos hmem,if_pos (List.mem_append_left _ hmem),Option.map_some,Option.map_some,List.dropWhile_append,
        if_neg (mt List.isEmpty_iff.mp hne),List.tail_append_of_ne_nil hne,trim_cr]
    · have hmem' : '=' ∉ rest++['\r'] := by
        rw [List.mem_append]
        exact not_or.mpr ⟨hmem,by decide⟩
      rw [if_neg hmem,if_neg hmem']
  unfold versionValue
  rw [hsplit]

theorem versionOfLine_cr (line : List Char) : versionOfLine (line++['\r']) = versionOfLine line := by
  unfold versionOfLine
  obtain h | ⟨h,h'⟩ := trimStart_cr line
  · rw [h]
    by_cases hkey : key <+: trimStart line
    · obtain ⟨rest,hrest⟩ := hkey
      rw [← hrest,List.append_assoc,stripPrefix_append,stripPrefix_append,Option.map_some,Option.map_some,
        versionValue_cr]
    · have hkey' : ¬key <+: trimStart line++['\r'] := by
        rw [List.prefix_concat_iff,not_or]
        refine ⟨fun heq => ?_,hkey⟩
        have hmem : '\r' ∈ key := heq ▸ List.mem_append_right _ List.mem_cons_self
        exact absurd hmem (by decide)
      rw [stripPrefix_eq_none hkey,stripPrefix_eq_none hkey']
  · rw [h,h']

/-- A line where something else stands before the first key. -/
theorem versionOfLine_of_first (hq : ¬∀ c ∈ q, isWhitespace c) (hfirst : ∀ j < q.length, ¬key <+: (q++key).drop j)
    (rest : List Char) : versionOfLine (q++(key++rest)) = none := by
  have hne : trimStart q ≠ [] := by
    unfold trimStart
    rwa [ne_eq,List.dropWhile_eq_nil_iff]
  obtain ⟨ws,hws⟩ : trimStart q <:+ q := List.dropWhile_suffix _
  have htrim : trimStart (q++(key++rest)) = trimStart q++(key++rest) := by
    unfold trimStart
    rw [List.dropWhile_append]
    exact if_neg (mt List.isEmpty_iff.mp hne)
  have hnot : ¬key <+: trimStart q++(key++rest) := by
    intro hat
    rw [← List.append_assoc] at hat
    have hshort : key <+: trimStart q++key := List.prefix_of_prefix_length_le hat (List.prefix_append _ _) (by simp)
    apply hfirst ws.length
    · rw [← hws,List.length_append]
      exact Nat.lt_add_of_pos_right (List.length_pos_iff.mpr hne)
    · rw [← hws,List.append_assoc,List.drop_left]
      exact hshort
  unfold versionOfLine
  rw [htrim,stripPrefix_eq_none hnot]
  rfl

/-- The key occurs in the lines with a value. -/
theorem infix_of_versionOfLine (h : versionOfLine line = some version) : key <:+: line := by
  have hkey : key <+: trimStart line := by
    by_contra hnot
    unfold versionOfLine at h
    rw [stripPrefix_eq_none hnot] at h
    cases h
  exact hkey.isInfix.trans (List.dropWhile_suffix _).isInfix

end Values

section Blocks

/-- The lines up to the first that starts with a bracket. -/
def blockLines : List (List Char) → List (List Char)
  | [] => []
  | l::ls => l::ls.takeWhile fun l => l.head? ≠ some '['

variable {as bs : List (List Char)} {m version : List Char}

theorem mem_of_mem_blockLines {l : List Char} {ls : List (List Char)} (h : l ∈ blockLines ls) : l ∈ ls := by
  cases ls with
  | nil => cases h
  | cons l' ls =>
    rw [blockLines,List.mem_cons] at h
    rw [List.mem_cons]
    exact h.imp_right fun hl => List.takeWhile_subset _ hl

theorem findSome?_blockOf (after : List Char) :
    (lines (blockOf after)).findSome? versionOfLine = (blockLines (after.splitOn '\n')).findSome? versionOfLine := by
  have hlines : ∀ l ∈ after.splitOn '\n', '\n' ∉ l := fun l hl => not_mem_of_mem_splitOn hl
  have hafter : ['\n'].intercalate (after.splitOn '\n') = after := List.intercalate_splitOn '\n'
  obtain ⟨l,ls,heq⟩ := List.exists_cons_of_ne_nil (List.splitOn_ne_nil '\n' after)
  rw [heq,List.forall_mem_cons] at hlines
  rw [heq] at hafter ⊢
  have hblock : blockOf after = ['\n'].intercalate (l::ls.takeWhile fun l => l.head? ≠ some '[') := by
    rw [← hafter]
    exact take_find_intercalate (by decide) l ls hlines.1 hlines.2
  rw [hblock,findSome?_lines versionOfLine_nil versionOfLine_cr]
  · rfl
  · rw [List.forall_mem_cons]
    exact ⟨hlines.1,fun l' hl' => hlines.2 l' (List.takeWhile_subset _ hl')⟩

/-- The block reaches to the line `m`. -/
def Inside (as : List (List Char)) (m : List Char) : Prop :=
  as = [] ∨ (∀ l ∈ as.tail, l.head? ≠ some '[') ∧ m.head? ≠ some '['

theorem findSome?_blockLines (has : ∀ l ∈ as, versionOfLine l = none) (hin : Inside as m) (bs : List (List Char)) :
    (blockLines (as++m::bs)).findSome? versionOfLine =
      (versionOfLine m).or ((bs.takeWhile fun l => l.head? ≠ some '[').findSome? versionOfLine) := by
  cases as with
  | nil =>
    rw [List.nil_append,blockLines,List.findSome?_cons]
    cases versionOfLine m <;> rfl
  | cons l as =>
    obtain hnil | ⟨hall,hm⟩ := hin
    · cases hnil
    rw [List.tail_cons] at hall
    rw [List.forall_mem_cons] at has
    have hnone : as.findSome? versionOfLine = none := List.findSome?_eq_none_iff.mpr has.2
    have htake : ((as++m::bs).takeWhile fun l => l.head? ≠ some '[') =
        as++m::bs.takeWhile fun l => l.head? ≠ some '[' := by
      rw [List.takeWhile_append_of_pos fun l hl => decide_eq_true (hall l hl),
        List.takeWhile_cons_of_pos (by simpa using hm)]
    rw [List.cons_append,blockLines,htake,List.findSome?_cons,has.1,List.findSome?_append,hnone,Option.none_or,
      List.findSome?_cons]
    cases versionOfLine m <;> rfl

theorem inside_of_findSome? (has : ∀ l ∈ as, versionOfLine l = none)
    (h : (blockLines (as++m::bs)).findSome? versionOfLine = some version) : Inside as m := by
  cases as with
  | nil => exact .inl rfl
  | cons l as =>
    right
    rw [List.forall_mem_cons] at has
    rw [List.cons_append,blockLines,List.findSome?_cons,has.1] at h
    by_contra hnot
    -- The block ends in `as`, and there is no value there.
    have hpart : ((as++m::bs).takeWhile fun l => l.head? ≠ some '[') <+: as := by
      rw [List.takeWhile_append]
      split
      case isTrue hlength =>
        have hall : as.takeWhile (fun l => l.head? ≠ some '[') = as := (List.takeWhile_prefix _).eq_of_length hlength
        have hm : ¬(m.head? ≠ some '[') := fun hm =>
          hnot ⟨fun l hl => of_decide_eq_true (List.takeWhile_eq_self_iff.mp hall l hl),hm⟩
        rw [List.takeWhile_cons_of_neg (by simpa using hm),List.append_nil]
      case isFalse => exact List.takeWhile_prefix _
    have hnone : ((as++m::bs).takeWhile fun l => l.head? ≠ some '[').findSome? versionOfLine = none :=
      List.findSome?_eq_none_iff.mpr fun l hl => has.2 l (hpart.subset hl)
    rw [hnone] at h
    cases h

end Blocks

end RakkaInference.Xtask
