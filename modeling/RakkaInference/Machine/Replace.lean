import RakkaInference.Machine.Text

/-! Replacing the occurrences of a pattern, and the values that stand between quotes behind an opening. -/
namespace Machine

section Occurrences
variable {α : Type*} [DecidableEq α] {pat a s : List α}

theorem find_eq_none (h : ¬pat <:+: s) : find pat s = none := by
  rw [Option.eq_none_iff_forall_ne_some]
  intro i hi
  obtain ⟨a,b,rfl,-⟩ := exists_of_find hi
  exact h ⟨a,b,(List.append_assoc a pat b)⟩

theorem infix_of_find {i : ℕ} (h : find pat s = some i) : pat <:+: s := by
  obtain ⟨a,b,rfl,-⟩ := exists_of_find h
  exact ⟨a,b,List.append_assoc a pat b⟩

theorem not_infix_before (hne : pat ≠ []) (h : find pat (a++s) = some a.length) : ¬pat <:+: a := by
  intro hin
  obtain ⟨x,y,rfl⟩ := hin
  rw [List.append_assoc,List.append_assoc] at h
  have hle := find_le h
  have hpos := List.length_pos_iff.mpr hne
  rw [List.length_append,List.length_append] at hle
  omega

/-- The first occurrence in a text is the first in what is left of it. -/
theorem find_suffix {x b : List α} (h : find pat (x++a++(pat++b)) = some (x++a).length) (c : List α) :
    find pat (a++(pat++c)) = some a.length := by
  apply find_congr
  obtain ⟨-,-,hbefore⟩ := find_eq_some_iff.mp h
  refine find_eq_some_iff.mpr ⟨by simp,by simp,?_⟩
  intro j hj hat
  apply hbefore (x.length+j)
  · rw [List.length_append]
    exact Nat.add_lt_add_left hj _
  · rw [List.append_assoc,List.drop_length_add_append]
    exact hat

end Occurrences

section Replace
variable {α : Type*} [DecidableEq α] {pat rep s : List α}

/-- The occurrences are found from the left. What is skipped is the rest of one that was replaced. -/
def replaceFrom (pat rep : List α) : ℕ → List α → List α
  | _,[] => []
  | k+1,_::s => replaceFrom pat rep k s
  | 0,c::s => if pat.isPrefixOf (c::s) then rep++replaceFrom pat rep (pat.length-1) s else c::replaceFrom pat rep 0 s

/-- The pattern is not empty. -/
def replaceAll (pat rep s : List α) : List α := replaceFrom pat rep 0 s

theorem replaceFrom_drop (k : ℕ) (s : List α) : replaceFrom pat rep k s = replaceAll pat rep (s.drop k) := by
  induction k generalizing s with
  | zero => rfl
  | succ k ih =>
    cases s with
    | nil => rfl
    | cons c s =>
      rw [replaceFrom,ih]
      rfl

theorem replaceAll_append (hne : pat ≠ []) (s : List α) :
    replaceAll pat rep (pat++s) = rep++replaceAll pat rep s := by
  obtain ⟨c,pat,rfl⟩ := List.exists_cons_of_ne_nil hne
  have hstart : (c::pat).isPrefixOf (c::(pat++s)) = true :=
    List.isPrefixOf_iff_prefix.mpr (List.prefix_append (c::pat) s)
  unfold replaceAll
  rw [List.cons_append,replaceFrom,if_pos hstart,replaceFrom_drop,List.length_cons,Nat.add_sub_cancel,List.drop_left]
  rfl

theorem replaceAll_cons {c : α} (h : ¬pat <+: c::s) : replaceAll pat rep (c::s) = c::replaceAll pat rep s := by
  unfold replaceAll
  rw [replaceFrom,if_neg fun hstart => h (List.isPrefixOf_iff_prefix.mp hstart)]

/-- The text is taken apart as the replacement does it. -/
theorem replace_induction {motive : List α → Prop} (hne : pat ≠ []) (nil : motive [])
    (found : ∀ s, motive s → motive (pat++s)) (cons : ∀ c s, ¬pat <+: c::s → motive s → motive (c::s)) (s : List α) :
    motive s := by
  induction h : s.length using Nat.strong_induction_on generalizing s with
  | _ n ih =>
    by_cases hstart : pat <+: s
    · obtain ⟨rest,rfl⟩ := hstart
      have hlt : rest.length < n := by
        rw [← h,List.length_append]
        exact Nat.lt_add_of_pos_left (List.length_pos_iff.mpr hne)
      exact found rest (ih rest.length hlt rest rfl)
    · cases s with
      | nil => exact nil
      | cons c s =>
        have hlt : s.length < n := by
          rw [← h]
          exact Nat.lt_succ_self _
        exact cons c s hstart (ih s.length hlt s rfl)

theorem replaceAll_append_of_not_mem {c : α} {a : List α} (h : c ∉ a) (s : List α) :
    replaceAll (c::pat) rep (a++s) = a++replaceAll (c::pat) rep s := by
  induction a with
  | nil => rfl
  | cons d a ih =>
    rw [List.mem_cons,not_or] at h
    have hnot : ¬c::pat <+: d::(a++s) := by
      rw [List.cons_prefix_cons]
      exact fun hstart => h.1 hstart.1
    rw [List.cons_append,replaceAll_cons hnot,ih h.2]
    rfl

theorem replaceAll_concat (hne : pat ≠ []) {d : α} (hd : d ∉ pat) (s : List α) :
    replaceAll pat rep (s++[d]) = replaceAll pat rep s++[d] := by
  have hnot : ∀ s : List α, ¬pat <+: s → ¬pat <+: s++[d] := by
    intro s hs hstart
    obtain heq | hshort := List.prefix_concat_iff.mp hstart
    · exact hd (heq ▸ List.mem_append_right s List.mem_cons_self)
    · exact hs hshort
  induction s using replace_induction hne with
  | nil => exact replaceAll_cons (hnot [] fun hnil => hne (List.prefix_nil.mp hnil))
  | found s ih => rw [List.append_assoc,replaceAll_append hne,replaceAll_append hne,ih,List.append_assoc]
  | cons c s hs ih =>
    have hs' : ¬pat <+: c::(s++[d]) := hnot (c::s) hs
    rw [List.cons_append,replaceAll_cons hs',replaceAll_cons hs,ih]
    rfl

theorem head?_replaceAll (hne : pat ≠ []) (hrep : rep.head? = pat.head?) (hne' : rep ≠ []) (s : List α) :
    (replaceAll pat rep s).head? = s.head? := by
  cases s with
  | nil => rfl
  | cons c s =>
    by_cases hstart : pat <+: c::s
    · obtain ⟨rest,hrest⟩ := hstart
      rw [← hrest,replaceAll_append hne,List.head?_append_of_ne_nil _ hne',List.head?_append_of_ne_nil _ hne,hrep]
    · rw [replaceAll_cons hstart]
      rfl

theorem mem_replaceAll (hne : pat ≠ []) {c : α} (h : c ∈ replaceAll pat rep s) : c ∈ s ∨ c ∈ rep := by
  induction s using replace_induction hne with
  | nil => cases h
  | found s ih =>
    rw [replaceAll_append hne,List.mem_append] at h
    obtain hrep | hrest := h
    · exact .inr hrep
    · exact (ih hrest).imp_left (List.mem_append_right pat)
  | cons d s hs ih =>
    rw [replaceAll_cons hs,List.mem_cons] at h
    obtain rfl | hrest := h
    · exact .inl List.mem_cons_self
    · exact (ih hrest).imp_left (List.mem_cons_of_mem d)

/-- The first occurrence is replaced, and what stands before it is kept. -/
theorem exists_replaceAll (hne : pat ≠ []) (rep s : List α) :
    replaceAll pat rep s = s ∨ ∃ a b b', s = a++(pat++b) ∧ replaceAll pat rep s = a++(rep++b') := by
  induction s using replace_induction hne with
  | nil => exact .inl rfl
  | found s _ => exact .inr ⟨[],s,replaceAll pat rep s,rfl,replaceAll_append hne s⟩
  | cons c s hs ih =>
    rw [replaceAll_cons hs]
    obtain hsame | ⟨a,b,b',rfl,hreplaced⟩ := ih
    · rw [hsame]
      exact .inl rfl
    · rw [hreplaced]
      exact .inr ⟨c::a,b,b',rfl,rfl⟩

theorem replaceAll_of_absent (h : ¬pat <:+: s) : replaceAll pat rep s = s := by
  induction s with
  | nil => rfl
  | cons c s ih =>
    rw [List.infix_cons_iff,not_or] at h
    rw [replaceAll_cons h.1,ih h.2]

end Replace

section Segments
variable {α : Type*} {q : α} {m w x s t : List α}

/-- What stands before the first quote is compared as a whole. -/
theorem prefix_segment (hm : q ∉ m) (hx : q ∉ x) : m++q::w <+: x++q::s ↔ m = x ∧ w <+: s := by
  induction m generalizing x with
  | nil =>
    cases x with
    | nil => simp
    | cons d x =>
      rw [List.mem_cons,not_or] at hx
      rw [List.nil_append,List.cons_append,List.cons_prefix_cons]
      exact ⟨fun h => absurd h.1 hx.1,fun h => by cases h.1⟩
  | cons e m ih =>
    rw [List.mem_cons,not_or] at hm
    cases x with
    | nil =>
      rw [List.nil_append,List.cons_append,List.cons_prefix_cons]
      exact ⟨fun h => absurd h.1.symm hm.1,fun h => by cases h.1⟩
    | cons d x =>
      rw [List.mem_cons,not_or] at hx
      rw [List.cons_append,List.cons_append,List.cons_prefix_cons,ih hm.2 hx.2,List.cons.injEq,and_assoc]

theorem infix_segment (hm : q ∉ m) (hx : q ∉ x) : m++q::w <:+: x++q::s ↔ m <:+ x ∧ w <+: s ∨ m++q::w <:+: s := by
  induction x with
  | nil => rw [List.nil_append,List.infix_cons_iff,← List.nil_append (q::s),prefix_segment hm hx,List.suffix_nil]
  | cons d x ih =>
    have hstart := prefix_segment (w := w) (s := s) hm hx
    rw [List.cons_append] at hstart
    rw [List.mem_cons,not_or] at hx
    rw [List.cons_append,List.infix_cons_iff,hstart,ih hx.2,List.suffix_cons_iff,or_and_right,or_assoc]

theorem prefix_of_not_mem (hw : q ∉ w) (h : w <+: t++q::s) : w <+: t := by
  obtain hshort | ⟨z,rfl⟩ := List.prefix_or_prefix_of_prefix h (List.prefix_append t (q::s))
  · exact hshort
  · rw [List.prefix_append_right_inj] at h
    cases z with
    | nil => rw [List.append_nil]
    | cons d z =>
      rw [List.cons_prefix_cons] at h
      exact absurd (List.mem_append_right t (h.1 ▸ List.mem_cons_self)) hw

/-- A marker with one quote in it does not reach to the quote behind another opening. -/
theorem prefix_opening (hm : q ∉ m) (hw : q ∉ w) (ht : t ≠ m) (s : List α) :
    m++q::w <+: t++q::s ↔ m++q::w <+: t := by
  constructor
  · intro h
    by_cases hq : q ∈ t
    · obtain ⟨x,y,rfl,hx⟩ := List.eq_append_cons_of_mem hq
      rw [List.append_assoc,List.cons_append,prefix_segment hm hx] at h
      rw [prefix_segment hm hx]
      exact ⟨h.1,prefix_of_not_mem hw h.2⟩
    · rw [prefix_segment hm hq] at h
      exact absurd h.1.symm ht
  · intro h
    exact h.trans (List.prefix_append _ _)

end Segments

section Values
variable {α : Type*} [DecidableEq α] {q : α} {m p w x s t v old new : List α}

/-- A value between quotes, behind its opening. -/
def enclosed (m : List α) (q : α) (v : List α) : List α := m++q::(v++[q])

omit [DecidableEq α] in
theorem enclosed_ne_nil (m v : List α) : enclosed m q v ≠ [] := by simp [enclosed]

/-- What stands before the next quote. -/
def upTo (q : α) (s : List α) : Option (List α) := if q ∈ s then some (s.takeWhile (· ≠ q)) else none

/-- The value behind an opening at the start of the text. -/
def valueAt (m : List α) (q : α) (s : List α) : Option (List α) :=
  if (m++[q]).isPrefixOf s then upTo q (s.drop (m++[q]).length) else none

/-- The values behind all openings of a text. -/
def values (m : List α) (q : α) : List α → List (List α)
  | [] => []
  | c::s => (valueAt m q (c::s)).toList++values m q s

theorem upTo_append (hv : q ∉ v) (s : List α) : upTo q (v++q::s) = some v := by
  have hne : ∀ d ∈ v, decide (d ≠ q) = true := by
    intro d hd
    exact decide_eq_true fun heq => hv (heq ▸ hd)
  unfold upTo
  rw [if_pos (List.mem_append_right v List.mem_cons_self),List.takeWhile_append_of_pos hne,
    List.takeWhile_cons_of_neg (by simp),List.append_nil]

theorem valueAt_opening (m s : List α) : valueAt m q (m++q::s) = upTo q s := by
  have hsplit : m++q::s = (m++[q])++s := by simp
  unfold valueAt
  rw [hsplit,if_pos (List.isPrefixOf_iff_prefix.mpr (List.prefix_append _ s)),List.drop_left]

theorem valueAt_of_not (h : ¬m++[q] <+: s) : valueAt m q s = none :=
  if_neg fun hstart => h (List.isPrefixOf_iff_prefix.mp hstart)

theorem enclosed_of_valueAt (h : valueAt m q s = some v) : enclosed m q v <+: s := by
  by_cases hstart : m++[q] <+: s
  · obtain ⟨r,rfl⟩ := hstart
    rw [List.append_assoc,List.singleton_append,valueAt_opening] at h
    by_cases hq : q ∈ r
    · obtain ⟨x,y,rfl,hx⟩ := List.eq_append_cons_of_mem hq
      rw [upTo_append hx,Option.some_inj] at h
      rw [← h]
      exact ⟨y,by simp [enclosed]⟩
    · unfold upTo at h
      rw [if_neg hq] at h
      cases h
  · rw [valueAt_of_not hstart] at h
    cases h

/-- A value that is opened before a later quote does not depend on what comes behind that quote. -/
theorem valueAt_congr (hm : q ∉ m) (ht : t ≠ m) (a b : List α) : valueAt m q (t++q::a) = valueAt m q (t++q::b) := by
  have hstart := prefix_opening (w := []) hm List.not_mem_nil ht
  by_cases h : m++[q] <+: t
  · obtain ⟨r,rfl⟩ := h
    have hopen : ∀ a, m++[q]++r++q::a = m++q::(r++q::a) := by
      intro a
      simp
    rw [hopen,hopen,valueAt_opening,valueAt_opening]
    by_cases hq : q ∈ r
    · obtain ⟨x,y,rfl,hx⟩ := List.eq_append_cons_of_mem hq
      rw [List.append_assoc,List.append_assoc,List.cons_append,List.cons_append,upTo_append hx,upTo_append hx]
    · rw [upTo_append hq,upTo_append hq]
  · rw [valueAt_of_not (mt (hstart a).mp h),valueAt_of_not (mt (hstart b).mp h)]

/-- The values of a text by the part before its first quote. -/
theorem values_segment (hm : q ∉ m) (hne : m ≠ []) (hx : q ∉ x) (s : List α) :
    values m q (x++q::s) = (if m <:+ x then (upTo q s).toList else [])++values m q s := by
  induction x with
  | nil =>
    have hstart : ¬m++[q] <+: []++q::s := by
      rw [prefix_segment hm List.not_mem_nil]
      exact fun h => hne h.1
    rw [List.nil_append] at hstart
    rw [List.nil_append,values,valueAt_of_not hstart,if_neg (mt List.suffix_nil.mp hne)]
    rfl
  | cons d x ih =>
    have hstart := prefix_segment (w := []) (s := s) hm hx
    rw [List.mem_cons,not_or] at hx
    rw [List.cons_append,values,ih hx.2]
    by_cases hall : m = d::x
    · have hlong : ¬m <:+ x := by
        intro h
        have hlength := h.length_le
        rw [hall,List.length_cons] at hlength
        exact Nat.not_succ_le_self _ hlength
      rw [if_neg hlong,if_pos (hall ▸ List.suffix_refl m),List.nil_append,← List.cons_append,← hall,valueAt_opening]
    · have hnot : ¬m++[q] <+: d::(x++q::s) := fun h => hall (hstart.mp h).1
      have hend : m <:+ d::x ↔ m <:+ x := by
        rw [List.suffix_cons_iff]
        exact or_iff_right hall
      simp only [valueAt_of_not hnot,hend,Option.toList_none,List.nil_append]

theorem values_enclosed (hm : q ∉ m) (hne : m ≠ []) (hv : q ∉ v) (hend : ¬m <:+ v) (s : List α) :
    values m q (enclosed m q v++s) = v::values m q s := by
  have hsplit : enclosed m q v++s = m++q::(v++q::s) := by simp [enclosed]
  rw [hsplit,values_segment hm hne hm,if_pos (List.suffix_refl m),upTo_append hv,values_segment hm hne hv,
    if_neg hend]
  rfl

/-- Replacing one value behind its opening replaces it among the values, and no other. -/
theorem values_replaceAll (hm : q ∉ m) (hne : m ≠ []) (hold : q ∉ old) (hnew : q ∉ new) (hendold : ¬m <:+ old)
    (hendnew : ¬m <:+ new) (s : List α) :
    values m q (replaceAll (enclosed m q old) (enclosed m q new) s) =
      (values m q s).map fun v => if v = old then new else v := by
  induction s using replace_induction (enclosed_ne_nil (q := q) m old) with
  | nil => rfl
  | found s ih =>
    rw [replaceAll_append (enclosed_ne_nil m old),values_enclosed hm hne hnew hendnew,
      values_enclosed hm hne hold hendold,List.map_cons,if_pos rfl,ih]
  | cons c s hnot ih =>
    -- The value at this place is not the old one, and the first that is replaced stands behind its opening.
    have hkept : valueAt m q (c::replaceAll (enclosed m q old) (enclosed m q new) s) = valueAt m q (c::s) := by
      obtain hsame | ⟨a,b,b',hs,hreplaced⟩ := exists_replaceAll (enclosed_ne_nil (q := q) m old) (enclosed m q new) s
      · rw [hsame]
      · have hlong : c::(a++m) ≠ m := by
          intro h
          have hlength := congrArg List.length h
          rw [List.length_cons,List.length_append] at hlength
          omega
        have hopen : ∀ v b, c::(a++(enclosed m q v++b)) = (c::(a++m))++q::(v++[q]++b) := by
          intro v b
          simp [enclosed]
        rw [hreplaced,hs,hopen,hopen,valueAt_congr hm hlong]
    have hother : ∀ v ∈ (valueAt m q (c::s)).toList, v ≠ old := by
      intro v hv heq
      rw [heq,Option.mem_toList] at hv
      exact hnot (enclosed_of_valueAt hv)
    rw [replaceAll_cons hnot,values,values,hkept,ih,List.map_append]
    congr 1
    rw [List.map_congr_left fun v hv => if_neg (hother v hv)]
    exact (List.map_id' _).symm

/-- Replacing a value leaves the other markers of a text where they are. -/
theorem infix_replaceAll (hm : q ∉ m) (hp : q ∉ p) (hw : q ∉ w) (hold : q ∉ old) (hnew : q ∉ new) (hpm : ¬p <:+ m)
    (hmp : ¬m <:+ p) (hendold : ¬p <:+ old) (hendnew : ¬p <:+ new) (s : List α) :
    p++q::w <:+: replaceAll (enclosed m q old) (enclosed m q new) s ↔ p++q::w <:+: s := by
  have henclosed : ∀ v s : List α, q ∉ v → ¬p <:+ v → (p++q::w <:+: enclosed m q v++s ↔ p++q::w <:+: s) := by
    intro v s hv hend
    have hsplit : enclosed m q v++s = m++q::(v++q::s) := by simp [enclosed]
    rw [hsplit,infix_segment hp hm,infix_segment hp hv]
    simp only [hpm,hend,false_and,false_or]
  induction s using replace_induction (enclosed_ne_nil (q := q) m old) with
  | nil => exact Iff.rfl
  | found s ih =>
    rw [replaceAll_append (enclosed_ne_nil m old),henclosed new _ hnew hendnew,henclosed old _ hold hendold]
    exact ih
  | cons c s hnot ih =>
    have hkept : p++q::w <+: c::replaceAll (enclosed m q old) (enclosed m q new) s ↔ p++q::w <+: c::s := by
      obtain hsame | ⟨a,b,b',hs,hreplaced⟩ := exists_replaceAll (enclosed_ne_nil (q := q) m old) (enclosed m q new) s
      · rw [hsame]
      · have hother : c::(a++m) ≠ p := by
          intro h
          exact hmp ⟨c::a,h⟩
        have hopen : ∀ v b, c::(a++(enclosed m q v++b)) = (c::(a++m))++q::(v++[q]++b) := by
          intro v b
          simp [enclosed]
        rw [hreplaced,hs,hopen,hopen,prefix_opening hp hw hother,prefix_opening hp hw hother]
    rw [replaceAll_cons hnot,List.infix_cons_iff,List.infix_cons_iff,hkept]
    exact or_congr_right ih

end Values

end Machine
