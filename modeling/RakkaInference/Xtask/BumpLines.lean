import RakkaInference.Xtask.Bump

/-! What a bump does to the dependencies, line by line. -/
namespace RakkaInference.Xtask
open Machine

/-- A version without quotes, brackets, equals signs and newlines. -/
def PlainVersion (version : List Char) : Prop := ∀ c ∈ version, c ∉ ['\"','\'','\n','=','[']

theorem contains_iff {line needle : List Char} : contains line needle = true ↔ needle <:+: line := by
  unfold contains
  rw [Option.isSome_iff_exists]
  constructor
  · intro h
    obtain ⟨i,hi⟩ := h
    exact infix_of_find hi
  · exact exists_find

section Line
variable {prev next : List Char}

theorem pin_ne_nil (version : List Char) : pin version ≠ [] := enclosed_ne_nil pinKey version

theorem PlainVersion.not_mem {version : List Char} (h : PlainVersion version) {c : Char}
    (hc : c ∈ ['\"','\'','\n','=','[']) :
    c ∉ version := fun hmem => h c hmem hc

/-- The equals sign of a key is not in a version. -/
theorem PlainVersion.not_suffix {version k : List Char} (h : PlainVersion version) (hk : '=' ∈ k) :
    ¬k <:+ version := by
  intro hend
  exact h.not_mem (by decide) (hend.subset hk)

theorem PlainVersion.newline_pin {version : List Char} (h : PlainVersion version) : '\n' ∉ pin version := by
  have hversion : '\n' ∉ version := h.not_mem (by decide)
  have hkey : '\n' ∉ pinKey := by decide
  simp only [pin,enclosed,List.mem_append,List.mem_cons,List.not_mem_nil,hkey,hversion,or_false,false_or]
  decide

/-- Where the line has no version to be replaced, the replacement leaves it as it is. -/
theorem rewriteLine_eq (prev next line : List Char) :
    rewriteLine prev next line =
      if contains line cratePath then replaceAll (pin prev) (pin next) line else line := by
  unfold rewriteLine
  by_cases hpath : contains line cratePath = true
  · by_cases hpin : contains line (pin prev) = true
    · rw [hpath,hpin]
      rfl
    · have hnot : ¬pin prev <:+: line := fun h => hpin (contains_iff.mpr h)
      rw [if_neg (by simp [hpin]),if_pos hpath,replaceAll_of_absent hnot]
  · rw [if_neg (by simp [hpath]),if_neg hpath]

theorem rewriteLine_of_no_path {line : List Char} (h : ¬cratePath <:+: line) :
    rewriteLine prev next line = line := by
  rw [rewriteLine_eq,if_neg fun hpath => h (contains_iff.mp hpath)]

theorem rewriteLine_nil : rewriteLine prev next [] = [] := rewriteLine_of_no_path (by decide)

theorem contains_concat {line needle : List Char} {c : Char} (hc : c ∉ needle) :
    contains (line++[c]) needle = contains line needle := by
  rw [Bool.eq_iff_iff,contains_iff,contains_iff,List.infix_concat_iff]
  refine or_iff_right_iff_imp.mpr ?_
  intro hend
  by_cases hnil : needle = []
  · rw [hnil]
    exact List.nil_infix
  · obtain ⟨x,hx⟩ := hend
    have hlast := congrArg List.getLast? hx
    rw [List.getLast?_append_of_ne_nil _ hnil,List.getLast?_concat] at hlast
    exact absurd (List.mem_of_getLast? hlast) hc

theorem rewriteLine_newline (hprev : PlainVersion prev) (line : List Char) :
    rewriteLine prev next (line++['\n']) = rewriteLine prev next line++['\n'] := by
  rw [rewriteLine_eq,rewriteLine_eq,contains_concat (by decide)]
  split
  · exact replaceAll_concat (pin_ne_nil prev) hprev.newline_pin line
  · rfl

theorem newline_rewriteLine (hnext : PlainVersion next) {line : List Char} (h : '\n' ∉ line) :
    '\n' ∉ rewriteLine prev next line := by
  rw [rewriteLine_eq]
  split
  · intro hmem
    obtain hold | hnew := mem_replaceAll (pin_ne_nil prev) hmem
    · exact h hold
    · exact hnext.newline_pin hnew
  · exact h

theorem head?_rewriteLine (line : List Char) : (rewriteLine prev next line).head? = line.head? := by
  rw [rewriteLine_eq]
  have hhead : (pin next).head? = (pin prev).head? := rfl
  split
  · exact head?_replaceAll (pin_ne_nil prev) hhead (pin_ne_nil next) line
  · rfl

/-- The header of the dependencies stays where it is. -/
theorem exists_rewriteLine_header (rest : List Char) :
    ∃ rest', rewriteLine prev next (depsHeader++rest) = depsHeader++rest' := by
  rw [rewriteLine_eq]
  split
  · exact ⟨_,replaceAll_append_of_not_mem (c := 'v') (a := depsHeader) (by decide) rest⟩
  · exact ⟨rest,rfl⟩

/-- In every line with a crate of the workspace the version is replaced where it was the one before. -/
theorem linePins_rewriteLine (hprev : PlainVersion prev) (hnext : PlainVersion next) (line : List Char) :
    linePins (rewriteLine prev next line) = (linePins line).map fun v => if v = prev then next else v := by
  have hquote : ∀ {version}, PlainVersion version → '\"' ∉ version := fun h => h.not_mem (by decide)
  have hpath : cratePath = "path = ".toList++ '\"'::"crates/".toList := rfl
  have hcontains : contains (rewriteLine prev next line) cratePath = contains line cratePath := by
    rw [Bool.eq_iff_iff,contains_iff,contains_iff,rewriteLine_eq]
    split
    · rw [hpath]
      exact infix_replaceAll (by decide) (by decide) (by decide) (hquote hprev) (hquote hnext) (by decide)
        (by decide)
        (hprev.not_suffix (by decide)) (hnext.not_suffix (by decide)) line
    · exact Iff.rfl
  unfold linePins
  rw [hcontains]
  split
  case isTrue h =>
    rw [rewriteLine_eq,if_pos h]
    exact values_replaceAll (by decide) (by decide) (hquote hprev) (hquote hnext) (hprev.not_suffix (by decide))
      (hnext.not_suffix (by decide)) line
  case isFalse => rfl

end Line

section Blocks
variable {f : List Char → List Char} {r : List Char} {ls bs : List (List Char)}

/-- Where the block of the dependencies ends. -/
theorem find_bracket (hr : '\n' ∉ r) (hls : ∀ l ∈ ls, '\n' ∉ l) :
    find ['\n','['] (r++ls.flatMap fun l => '\n'::l) =
      if ls.dropWhile inBlock = [] then none
      else some (r++(ls.takeWhile inBlock).flatMap fun l => '\n'::l).length := by
  induction ls generalizing r with
  | nil =>
    rw [List.flatMap_nil,find_append_of_not_mem hr]
    rfl
  | cons l ls ih =>
    rw [List.forall_mem_cons] at hls
    have hhead : (l++ls.flatMap fun l => '\n'::l).head? = some '[' ↔ ¬inBlock l = true := by
      unfold inBlock
      rw [decide_eq_true_iff,not_not]
      cases l with
      | nil => cases ls <;> simp
      | cons => rfl
    rw [List.flatMap_cons,List.cons_append,find_newline_line hr]
    by_cases hin : inBlock l = true
    · rw [if_neg fun h => hhead.mp h hin,ih hls.1 hls.2,List.dropWhile_cons_of_pos hin,
        List.takeWhile_cons_of_pos hin]
      split
      · rfl
      · rw [Option.map_some,List.flatMap_cons]
        simp only [List.length_append,List.length_cons,Option.some.injEq]
        omega
    · rw [if_pos (hhead.mpr hin),List.dropWhile_cons_of_neg hin,List.takeWhile_cons_of_neg hin,
        if_neg (List.cons_ne_nil l ls),List.flatMap_nil,List.append_nil]

/-- The block has the newline before the next bracket, if there is one. -/
theorem exists_block (hr : '\n' ∉ r) (hls : ∀ l ∈ ls, '\n' ∉ l) :
    ∃ e tail, (e = [] ∨ e = ['\n']) ∧ ((ls.dropWhile inBlock).flatMap fun l => '\n'::l) = e++tail ∧
      ((find ['\n','['] (r++ls.flatMap fun l => '\n'::l)).map (·+1)).getD (r++ls.flatMap fun l => '\n'::l).length =
        (r++(((ls.takeWhile inBlock).flatMap fun l => '\n'::l)++e)).length := by
  have hfind := find_bracket hr hls
  cases hrest : ls.dropWhile inBlock with
  | nil =>
    have hall : ls.takeWhile inBlock = ls := by
      have happend := List.takeWhile_append_dropWhile (p := inBlock) (l := ls)
      rw [hrest,List.append_nil] at happend
      exact happend
    rw [if_pos hrest] at hfind
    refine ⟨[],[],.inl rfl,rfl,?_⟩
    rw [hfind,hall,List.append_nil]
    rfl
  | cons l rest =>
    rw [hrest,if_neg (List.cons_ne_nil l rest)] at hfind
    refine ⟨['\n'],l++rest.flatMap fun l => '\n'::l,.inr rfl,rfl,?_⟩
    rw [hfind,Option.map_some,Option.getD_some]
    simp only [List.length_append,List.length_singleton]
    omega

/-- Lines that are changed one by one, with a newline behind the last or none. -/
theorem flatMap_splitInclusive (hnil : f [] = []) (hline : ∀ l, f (l++['\n']) = f l++['\n']) {e : List Char}
    (he : e = [] ∨ e = ['\n']) (hr : '\n' ∉ r) (hbs : ∀ l ∈ bs, '\n' ∉ l) :
    (splitInclusive (r++((bs.flatMap fun l => '\n'::l)++e))).flatMap f =
      f r++(((bs.map f).flatMap fun l => '\n'::l)++e) := by
  induction bs generalizing r with
  | nil =>
    obtain rfl | rfl := he
    · by_cases hempty : r = []
      · rw [hempty,hnil]
        rfl
      · simp only [List.flatMap_nil,List.append_nil,List.map_nil]
        rw [splitInclusive_last hr hempty,List.flatMap_singleton]
    · simp only [List.flatMap_nil,List.nil_append,List.map_nil]
      rw [splitInclusive_line hr,List.flatMap_cons,hline]
      exact List.append_nil _
  | cons l bs ih =>
    rw [List.forall_mem_cons] at hbs
    have hsplit : r++(((l::bs).flatMap fun l => '\n'::l)++e) =
        r++ '\n'::(l++((bs.flatMap fun l => '\n'::l)++e)) := by
      rw [List.flatMap_cons,List.cons_append,List.cons_append,List.append_assoc]
    rw [hsplit,splitInclusive_line hr,List.flatMap_cons,hline,ih hbs.1 hbs.2,List.map_cons,List.flatMap_cons]
    simp only [List.append_assoc,List.cons_append,List.nil_append]

theorem rewriteLines_append {as : List (List Char)} (has : ∀ l ∈ as, ¬depsHeader <:+: l) (ls : List (List Char)) :
    rewriteLines f (as++ls) = as++rewriteLines f ls := by
  induction as with
  | nil => rfl
  | cons l as ih =>
    rw [List.forall_mem_cons] at has
    rw [List.cons_append,rewriteLines,find_eq_none has.1,ih has.2]
    rfl

theorem depsLines_append {as : List (List Char)} (has : ∀ l ∈ as, ¬depsHeader <:+: l) (ls : List (List Char)) :
    depsLines (as++ls) = depsLines ls := by
  induction as with
  | nil => rfl
  | cons l as ih =>
    rw [List.forall_mem_cons] at has
    rw [List.cons_append,depsLines,find_eq_none has.1,ih has.2]

theorem rewriteLines_of_not {as : List (List Char)} (has : ∀ l ∈ as, ¬depsHeader <:+: l) :
    rewriteLines f as = as := by
  have happend := rewriteLines_append (f := f) has []
  rw [List.append_nil] at happend
  rw [happend]
  exact List.append_nil as

theorem rewriteLines_header {a b : List Char} (h : find depsHeader (a++(depsHeader++b)) = some a.length)
    (ls : List (List Char)) : rewriteLines f ((a++(depsHeader++b))::ls) =
      (a++f (depsHeader++b))::((ls.takeWhile inBlock).map f++ls.dropWhile inBlock) := by
  rw [rewriteLines,h]
  dsimp only
  rw [List.take_left,List.drop_left]

theorem depsLines_header {a b : List Char} (h : find depsHeader (a++(depsHeader++b)) = some a.length)
    (ls : List (List Char)) : depsLines ((a++(depsHeader++b))::ls) = (depsHeader++b)::ls.takeWhile inBlock := by
  rw [depsLines,h]
  dsimp only
  rw [List.drop_left]

/-- The lines of the dependencies are those before, each one changed. -/
theorem depsLines_rewriteLines (hheader : ∀ rest, ∃ rest', f (depsHeader++rest) = depsHeader++rest')
    (hhead : ∀ l, (f l).head? = l.head?) (ls : List (List Char)) :
    depsLines (rewriteLines f ls) = (depsLines ls).map f := by
  have hin : ∀ l, inBlock (f l) = inBlock l := by
    intro l
    unfold inBlock
    rw [hhead]
  induction ls with
  | nil => rfl
  | cons l ls ih =>
    cases hfind : find depsHeader l with
    | none => rw [rewriteLines,hfind,depsLines,hfind,depsLines,hfind,ih]
    | some k =>
      obtain ⟨a,b,rfl,rfl⟩ := exists_of_find hfind
      obtain ⟨b',hb'⟩ := hheader b
      have hfind' := find_congr hfind b'
      have htake : ((ls.takeWhile inBlock).map f++ls.dropWhile inBlock).takeWhile inBlock =
          (ls.takeWhile inBlock).map f := by
        rw [List.takeWhile_append_of_pos]
        · cases hdrop : ls.dropWhile inBlock with
          | nil => simp
          | cons d ds =>
            have hd : inBlock d = false := by
              have hhd := List.head?_dropWhile_not inBlock ls
              rw [hdrop] at hhd
              exact hhd
            rw [List.takeWhile_cons_of_neg (by simp [hd]),List.append_nil]
        · intro l' hl'
          obtain ⟨l,hl,rfl⟩ := List.mem_map.mp hl'
          rw [hin]
          exact List.mem_takeWhile_imp hl
      rw [rewriteLines_header hfind,hb',depsLines_header hfind',depsLines_header hfind,htake,List.map_cons,hb']

/-- Every line is changed as `f` does it, or not at all. -/
theorem getElem?_rewriteLines {P : List Char → Prop} (hsuffix : ∀ l k, P l → P (l.drop k))
    (hkept : ∀ l, P l → f l = l) (ls : List (List Char)) {k : ℕ} {line : List Char} (hat : ls[k]? = some line)
    (hline : P line) : (rewriteLines f ls)[k]? = some line := by
  have hblock : ∀ (ls : List (List Char)) (k : ℕ), ls[k]? = some line →
      ((ls.takeWhile inBlock).map f++ls.dropWhile inBlock)[k]? = some line := by
    intro ls
    induction ls with
    | nil =>
      intro k hat
      cases hat
    | cons l ls ih =>
      intro k hat
      by_cases hin : inBlock l = true
      · rw [List.takeWhile_cons_of_pos hin,List.dropWhile_cons_of_pos hin]
        cases k with
        | zero =>
          obtain rfl : l = line := Option.some.inj hat
          exact congrArg some (hkept l hline)
        | succ k => exact ih k hat
      · rw [List.takeWhile_cons_of_neg hin,List.dropWhile_cons_of_neg hin]
        exact hat
  induction ls generalizing k with
  | nil => cases hat
  | cons l ls ih =>
    cases hfind : find depsHeader l with
    | none =>
      rw [rewriteLines,hfind]
      cases k with
      | zero => exact hat
      | succ k => exact ih hat
    | some i =>
      rw [rewriteLines,hfind]
      cases k with
      | zero =>
        obtain rfl : l = line := Option.some.inj hat
        refine congrArg some ?_
        rw [hkept _ (hsuffix l i hline),List.take_append_drop]
      | succ k => exact hblock ls k hat

theorem length_rewriteLines (ls : List (List Char)) : (rewriteLines f ls).length = ls.length := by
  induction ls with
  | nil => rfl
  | cons l ls ih =>
    cases hfind : find depsHeader l with
    | none => rw [rewriteLines,hfind,List.length_cons,List.length_cons,ih]
    | some k =>
      have hsplit := congrArg List.length (List.takeWhile_append_dropWhile (p := inBlock) (l := ls))
      rw [List.length_append] at hsplit
      rw [rewriteLines,hfind,List.length_cons,List.length_cons,List.length_append,List.length_map,hsplit]

theorem newline_rewriteLines (hf : ∀ l, '\n' ∉ l → '\n' ∉ f l) (h : ∀ l ∈ ls, '\n' ∉ l) :
    ∀ l ∈ rewriteLines f ls, '\n' ∉ l := by
  induction ls with
  | nil =>
    intro l hl
    cases hl
  | cons l ls ih =>
    rw [List.forall_mem_cons] at h
    cases hfind : find depsHeader l with
    | none =>
      rw [rewriteLines,hfind,List.forall_mem_cons]
      exact ⟨h.1,ih h.2⟩
    | some k =>
      rw [rewriteLines,hfind,List.forall_mem_cons,List.forall_mem_append]
      refine ⟨?_,?_,?_⟩
      · rw [List.mem_append,not_or]
        exact ⟨fun hmem => h.1 (List.mem_of_mem_take hmem),hf _ fun hmem => h.1 (List.mem_of_mem_drop hmem)⟩
      · intro l' hl'
        obtain ⟨l,hl,rfl⟩ := List.mem_map.mp hl'
        exact hf l (h.2 l (List.takeWhile_subset _ hl))
      · intro l' hl'
        exact h.2 l' (List.dropWhile_subset _ hl')

end Blocks

/-- What is written is the text with the lines of the dependencies changed one by one. -/
theorem splitOn_writeWorkspaceDepsVersions {prev next : List Char} (hprev : PlainVersion prev)
    (hnext : PlainVersion next) (text : List Char) :
    (writeWorkspaceDepsVersions text prev next).splitOn '\n' =
      rewriteLines (rewriteLine prev next) (text.splitOn '\n') := by
  unfold writeWorkspaceDepsVersions
  cases hfind : find depsHeader text with
  | none =>
    have hnot : ∀ l ∈ text.splitOn '\n', ¬depsHeader <:+: l := by
      intro l hl hin
      obtain ⟨i,hi⟩ := exists_find (hin.trans (infix_of_mem_splitOn hl))
      rw [hfind] at hi
      cases hi
    exact (rewriteLines_of_not hnot).symm
  | some start =>
    obtain ⟨a,b,rfl,rfl⟩ := exists_of_find hfind
    obtain ⟨as,d,rfl,has,hd⟩ := exists_lines a
    obtain ⟨r,ls,rfl,hr,hls⟩ := exists_cons_lines b
    have hbefore := not_infix_before (by decide) hfind
    have hnot : ∀ l ∈ as, ¬depsHeader <:+: l := by
      intro l hl hin
      apply hbefore
      have hline : l++['\n'] <:+: as.flatMap fun l => l++['\n'] := List.infix_of_mem_flatten (List.mem_map_of_mem hl)
      exact ((hin.trans (List.prefix_append l ['\n']).isInfix).trans hline).trans (List.prefix_append _ d).isInfix
    have hat : find depsHeader (d++(depsHeader++r)) = some d.length := find_suffix hfind r
    have hheader : '\n' ∉ depsHeader++r := by
      rw [List.mem_append]
      exact not_or.mpr ⟨by decide,hr⟩
    obtain ⟨e,tail,he,htail,hlen⟩ := exists_block hr hls
    have hlines : ∀ l ∈ ls.takeWhile inBlock, '\n' ∉ l := fun l hl => hls l (List.takeWhile_subset _ hl)
    have hrest : ∀ l ∈ ls.dropWhile inBlock, '\n' ∉ l := fun l hl => hls l (List.dropWhile_subset _ hl)
    have hblock : (ls.flatMap fun l => '\n'::l) = ((ls.takeWhile inBlock).flatMap fun l => '\n'::l)++(e++tail) := by
      rw [← htail,← List.flatMap_append,List.takeWhile_append_dropWhile]
    have hafter : ∀ a : List Char, (a++(depsHeader++(r++ls.flatMap fun l => '\n'::l))).drop
        (a.length+depsHeader.length) =
        r++ls.flatMap fun l => '\n'::l := by
      intro a
      rw [List.drop_length_add_append,List.drop_left]
    have hsplit : (as.flatMap fun l => l++['\n'])++d++(depsHeader++(r++ls.flatMap fun l => '\n'::l)) =
        (as.flatMap fun l => l++['\n'])++((d++(depsHeader++r))++ls.flatMap fun l => '\n'::l) := by
      simp only [List.append_assoc]
    have hline : '\n' ∉ d++(depsHeader++r) := by
      rw [List.mem_append]
      exact not_or.mpr ⟨hd,hheader⟩
    have hline' : '\n' ∉ d++rewriteLine prev next (depsHeader++r) := by
      rw [List.mem_append]
      exact not_or.mpr ⟨hd,newline_rewriteLine hnext hheader⟩
    have hchanged : ∀ l ∈ (ls.takeWhile inBlock).map (rewriteLine prev next)++ls.dropWhile inBlock, '\n' ∉ l := by
      rw [List.forall_mem_append,List.forall_mem_map]
      exact ⟨fun l hl => newline_rewriteLine hnext (hlines l hl),hrest⟩
    have hparts : (as.flatMap fun l => l++['\n'])++d++(depsHeader++(r++ls.flatMap fun l => '\n'::l)) =
        (as.flatMap fun l => l++['\n'])++d++
          (depsHeader++(r++(((ls.takeWhile inBlock).flatMap fun l => '\n'::l)++e))++tail) := by
      rw [hblock]
      simp only [List.append_assoc]
    have hnil : rewriteLine prev next [] = [] := rewriteLine_nil
    have hwritten := flatMap_splitInclusive hnil (rewriteLine_newline hprev) he hheader hlines
    have hout : (as.flatMap fun l => l++['\n'])++d++(rewriteLine prev next (depsHeader++r)++
        ((((ls.takeWhile inBlock).map (rewriteLine prev next)).flatMap fun l => '\n'::l)++e))++tail =
          (as.flatMap fun l => l++['\n'])++(d++rewriteLine prev next (depsHeader++r)++
            ((ls.takeWhile inBlock).map (rewriteLine prev next)++ls.dropWhile inBlock).flatMap
              fun l => '\n'::l) := by
      rw [List.flatMap_append,htail]
      simp only [List.append_assoc]
    rw [List.append_assoc depsHeader] at hwritten
    dsimp only
    rw [hafter,hlen,hparts,List.take_left,List.drop_left,Nat.add_assoc,← List.length_append,List.take_left,
      List.drop_length_add_append,List.drop_left,hwritten,hout,splitOn_flatMap as has,
      splitOn_flatMap_cons hline' _ hchanged,← hparts,hsplit,splitOn_flatMap as has,
      splitOn_flatMap_cons hline ls hls,rewriteLines_append hnot,rewriteLines_header hat]

end RakkaInference.Xtask
