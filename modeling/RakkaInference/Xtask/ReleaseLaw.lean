import RakkaInference.Xtask.ReleaseRead

/-! The reader looks for a line that starts with the key, and the writer for the key anywhere behind the
header. They agree where the first key is at the start of its line. -/
namespace RakkaInference.Xtask
open Machine

/-- A text with a key after the header, without what is behind the key on its line. -/
structure Layout where
  /-- The lines before that of the header. -/
  above : List (List Char)
  /-- What stands before the header on its line. -/
  start : List Char
  /-- The lines from the header on. -/
  between : List (List Char)
  /-- What stands before the key on its line. -/
  indent : List Char
  /-- The lines after that of the key. -/
  below : List (List Char)

namespace Layout

def before (L : Layout) : List Char := (L.above.flatMap fun l => l++['\n'])++L.start

def upto (L : Layout) : List Char := (L.between.flatMap fun l => l++['\n'])++L.indent

def after (L : Layout) (rest : List Char) : List Char := L.upto++(key++(rest++L.below.flatMap fun l => '\n'::l))

def text (L : Layout) (rest : List Char) : List Char := L.before++L.after rest

/-- The header and the key are the first ones, and the lines are whole. -/
structure Placed (L : Layout) : Prop where
  header_at : ∀ rest, find header (L.text rest) = some L.before.length
  key_at : ∀ rest, find key (L.after rest) = some L.upto.length
  header_upto : header <+: L.upto
  above_lines : ∀ l ∈ L.above, '\n' ∉ l
  start_line : '\n' ∉ L.start
  between_lines : ∀ l ∈ L.between, '\n' ∉ l
  indent_line : '\n' ∉ L.indent
  below_lines : ∀ l ∈ L.below, '\n' ∉ l

variable {L : Layout} {rest rest' version old : List Char} {path : String}

/-- The lines before that of the key. -/
def heads (L : Layout) : List (List Char) :=
  match L.between with
  | [] => L.above
  | l::ls => L.above++(L.start++l)::ls

/-- All that stands before the key on its line. -/
def lead (L : Layout) : List Char :=
  match L.between with
  | [] => L.start++L.indent
  | _::_ => L.indent

theorem text_drop (L : Layout) (rest : List Char) : (L.text rest).drop L.before.length = L.after rest :=
  List.drop_left

theorem after_drop (L : Layout) (rest : List Char) :
    (L.after rest).drop L.upto.length = key++(rest++L.below.flatMap fun l => '\n'::l) := List.drop_left

theorem newline_key (h : '\n' ∉ rest) : '\n' ∉ key++rest := by
  rw [List.mem_append]
  exact not_or.mpr ⟨by decide,h⟩

theorem newline_assignment (hversion : ∀ c ∈ version, c ∉ ['\"','\'','\n']) : '\n' ∉ assignment version := by
  unfold assignment
  rw [List.mem_append,List.mem_append]
  refine not_or.mpr ⟨not_or.mpr ⟨by decide,?_⟩,by decide⟩
  intro hmem
  exact hversion _ hmem (by decide)

theorem Placed.after_splitOn (hL : L.Placed) (h : '\n' ∉ rest) :
    (L.after rest).splitOn '\n' = L.between++(L.indent++(key++rest))::L.below := by
  have hline : '\n' ∉ L.indent++(key++rest) := by
    rw [List.mem_append]
    exact not_or.mpr ⟨hL.indent_line,newline_key h⟩
  have heq : L.after rest = (L.between.flatMap fun l => l++['\n'])++
      (L.indent++(key++rest)++L.below.flatMap fun l => '\n'::l) := by
    unfold after upto
    simp only [List.append_assoc]
  rw [heq,splitOn_flatMap L.between hL.between_lines,splitOn_flatMap_cons hline L.below hL.below_lines]

theorem heads_lead (L : Layout) : L.before++L.upto = (L.heads.flatMap fun l => l++['\n'])++L.lead := by
  unfold before upto heads lead
  cases L.between with
  | nil => simp only [List.flatMap_nil,List.nil_append,List.append_assoc]
  | cons l ls => simp only [List.flatMap_append,List.flatMap_cons,List.append_assoc]

theorem length_heads (L : Layout) : L.heads.length = L.above.length+L.between.length := by
  unfold heads
  cases L.between with
  | nil => rfl
  | cons => rw [List.length_append,List.length_cons,List.length_cons]

theorem Placed.heads_lines (hL : L.Placed) : ∀ l ∈ L.heads, '\n' ∉ l := by
  have hbetween := hL.between_lines
  unfold heads
  cases h : L.between with
  | nil => exact hL.above_lines
  | cons l ls =>
    rw [h,List.forall_mem_cons] at hbetween
    rw [List.forall_mem_append,List.forall_mem_cons,List.mem_append]
    exact ⟨hL.above_lines,not_or.mpr ⟨hL.start_line,hbetween.1⟩,hbetween.2⟩

theorem Placed.lead_line (hL : L.Placed) : '\n' ∉ L.lead := by
  unfold lead
  cases L.between with
  | nil =>
    rw [List.mem_append]
    exact not_or.mpr ⟨hL.start_line,hL.indent_line⟩
  | cons => exact hL.indent_line

theorem Placed.text_splitOn (hL : L.Placed) (h : '\n' ∉ rest) :
    (L.text rest).splitOn '\n' = L.heads++(L.lead++(key++rest))::L.below := by
  have hline : '\n' ∉ L.lead++(key++rest) := by
    rw [List.mem_append]
    exact not_or.mpr ⟨hL.lead_line,newline_key h⟩
  have heq : L.text rest = (L.heads.flatMap fun l => l++['\n'])++
      (L.lead++(key++rest)++L.below.flatMap fun l => '\n'::l) := by
    unfold text after
    rw [← List.append_assoc,heads_lead]
    simp only [List.append_assoc]
  rw [heq,splitOn_flatMap L.heads hL.heads_lines,splitOn_flatMap_cons hline L.below hL.below_lines]

/-- A line other than that of the key is the same with every value. -/
theorem Placed.getElem?_text (hL : L.Placed) (h : '\n' ∉ rest) (h' : '\n' ∉ rest') {k : ℕ}
    (hk : L.heads.length ≠ k) : ((L.text rest).splitOn '\n')[k]? = ((L.text rest').splitOn '\n')[k]? := by
  have hset : ∀ rest, '\n' ∉ rest → (L.text rest).splitOn '\n' = (L.heads++[]::L.below).set L.heads.length
      (L.lead++(key++rest)) := by
    intro rest h
    rw [hL.text_splitOn h,List.set_append_right _ _ le_rfl,Nat.sub_self,List.set_cons_zero]
  rw [hset rest h,hset rest' h',List.getElem?_set_ne hk,List.getElem?_set_ne hk]

theorem Placed.getElem?_key (hL : L.Placed) (h : '\n' ∉ rest) :
    ((L.text rest).splitOn '\n')[L.heads.length]? = some (L.lead++(key++rest)) := by
  rw [hL.text_splitOn h,List.getElem?_append_right le_rfl,Nat.sub_self,List.getElem?_cons_zero]

/-- What is written is the text with another value. -/
theorem Placed.write (hL : L.Placed) (h : '\n' ∉ rest) (version : List Char) :
    writeWorkspaceVersion (L.text rest) version = .ok (L.text (assignment version)) := by
  unfold writeWorkspaceVersion
  rw [hL.header_at]
  dsimp only
  rw [text_drop,hL.key_at]
  dsimp only
  have habs : L.before.length+L.upto.length = (L.before++L.upto).length := List.length_append.symm
  have htext : L.text rest = (L.before++L.upto)++(key++rest++L.below.flatMap fun l => '\n'::l) := by
    unfold text after
    simp only [List.append_assoc]
  have hend := drop_find_newline (newline_key h) L.below
  generalize key++rest++(L.below.flatMap fun l => '\n'::l) = tail at htext hend
  have hline : ((find ['\n'] tail).map ((L.before++L.upto).length+·)).getD (L.text rest).length =
      (L.before++L.upto).length+(find ['\n'] tail).getD tail.length := by
    rw [htext]
    cases find ['\n'] tail with
    | none => exact List.length_append
    | some => rfl
  rw [habs,htext,List.take_left,List.drop_left,← htext,hline,htext,List.drop_length_add_append,hend]
  unfold text after
  simp only [List.append_assoc]

/-- The law can only be about that text. -/
theorem Placed.eq_of_law (hL : L.Placed) (h : '\n' ∉ rest) {out : List Char}
    (hlaw : BumpLaw path (L.text rest) version out) : out = L.text (assignment version) := by
  have hwritten := hlaw.written
  rw [hL.write h] at hwritten
  exact (Except.ok.inj hwritten).symm

/-- No line before that of the key has a value. -/
theorem Placed.between_none (hL : L.Placed) : ∀ l ∈ L.between, versionOfLine l = none := by
  intro l hl
  rw [Option.eq_none_iff_forall_ne_some]
  intro version hvalue
  obtain ⟨a,b,hab⟩ := infix_of_versionOfLine hvalue
  obtain ⟨as,bs,hbetween⟩ := List.append_of_mem hl
  have hafter : L.after [] = (as.flatMap fun l => l++['\n'])++a++
      (key++(b++['\n']++(bs.flatMap fun l => l++['\n'])++
        L.indent++(key++([]++L.below.flatMap fun l => '\n'::l)))) := by
    unfold after upto
    rw [hbetween,← hab,List.flatMap_append,List.flatMap_cons]
    simp only [List.append_assoc]
  have hkey := hL.key_at []
  rw [hafter] at hkey
  have hle := find_le hkey
  unfold upto at hle
  rw [hbetween,← hab,List.flatMap_append,List.flatMap_cons] at hle
  simp only [List.length_append] at hle
  have hpos : 0 < key.length := by decide
  omega

/-- There is no value on the line of the key when something else stands before it. -/
theorem Placed.indent_none (hL : L.Placed) (hindent : ¬∀ c ∈ L.indent, isWhitespace c) (rest : List Char) :
    versionOfLine (L.indent++(key++rest)) = none := by
  apply versionOfLine_of_first hindent
  intro j hj hat
  obtain ⟨-,-,hbefore⟩ := find_eq_some_iff.mp (hL.key_at rest)
  apply hbefore ((L.between.flatMap fun l => l++['\n']).length+j)
  · unfold upto
    rw [List.length_append]
    exact Nat.add_lt_add_left hj _
  · unfold after upto
    rw [List.append_assoc,List.drop_length_add_append,← List.append_assoc,List.drop_append_of_le_length]
    · exact hat.trans (List.prefix_append _ _)
    · rw [List.length_append]
      exact Nat.le_add_right_of_le hj.le

theorem inside_congr (L : Layout) (rest rest' : List Char) :
    Inside L.between (L.indent++(key++rest)) → Inside L.between (L.indent++(key++rest')) := by
  unfold Inside
  cases L.indent <;> exact id

theorem Placed.read_eq_ok_iff (hL : L.Placed) (h : '\n' ∉ rest) :
    readWorkspaceVersion path (L.text rest) = .ok version ↔
      (blockLines (L.between++(L.indent++(key++rest))::L.below)).findSome? versionOfLine = some version := by
  unfold readWorkspaceVersion
  rw [hL.header_at]
  dsimp only
  rw [text_drop,findSome?_blockOf,hL.after_splitOn h]
  cases (blockLines (L.between++(L.indent++(key++rest))::L.below)).findSome? versionOfLine with
  | none => exact ⟨nofun,nofun⟩
  | some => exact ⟨fun heq => congrArg some (Except.ok.inj heq),fun heq => congrArg Except.ok (Option.some.inj heq)⟩

/-- A value that is read from another line is read whatever stands behind the key. -/
theorem Placed.read_congr (hL : L.Placed) (h : '\n' ∉ rest) (h' : '\n' ∉ rest')
    (hindent : ¬∀ c ∈ L.indent, isWhitespace c) (hread : readWorkspaceVersion path (L.text rest) = .ok old) :
    readWorkspaceVersion path (L.text rest') = .ok old := by
  rw [hL.read_eq_ok_iff h] at hread
  have hin := inside_of_findSome? hL.between_none hread
  rw [findSome?_blockLines hL.between_none hin,hL.indent_none hindent] at hread
  rw [hL.read_eq_ok_iff h',findSome?_blockLines hL.between_none (inside_congr L rest rest' hin),
    hL.indent_none hindent]
  exact hread

/-- A value behind a key that is the first on its line is read. -/
theorem Placed.read_key (hL : L.Placed) (h : '\n' ∉ rest) (h' : '\n' ∉ rest')
    (hindent : ∀ c ∈ L.indent, isWhitespace c) (hread : readWorkspaceVersion path (L.text rest) = .ok old) :
    readWorkspaceVersion path (L.text rest') = .ok (versionValue rest') := by
  rw [hL.read_eq_ok_iff h] at hread
  have hin := inside_of_findSome? hL.between_none hread
  rw [hL.read_eq_ok_iff h',findSome?_blockLines hL.between_none (inside_congr L rest rest' hin),
    versionOfLine_key hindent]
  rfl

/-- The lines after that of the header. -/
theorem drop_heads (L : Layout) (rest : List Char) :
    (L.heads++(L.lead++rest)::L.below).drop (L.above.length+1) = (L.between++(L.indent++rest)::L.below).tail := by
  unfold heads lead
  cases L.between with
  | nil => rw [List.drop_length_add_append,List.drop_one,List.tail_cons,List.nil_append,List.tail_cons]
  | cons l ls =>
    dsimp only
    rw [List.append_assoc,List.drop_length_add_append,List.cons_append,List.drop_one,List.tail_cons,List.cons_append,
      List.tail_cons]

theorem Placed.versionLine_text (hL : L.Placed) (h : '\n' ∉ rest) :
    versionLine (L.text rest) = (((L.between++(L.indent++(key++rest))::L.below).tail.findIdx?
      fun line => (versionOfLine line).isSome).map (·+(L.above.length+1))) := by
  have hcount : ((L.text rest).take L.before.length).count '\n' = L.above.length := by
    unfold text
    rw [List.take_left]
    exact count_newline L.above hL.above_lines hL.start_line
  unfold versionLine
  rw [hL.header_at,hL.text_splitOn h]
  simp only [Option.bind_eq_bind,Option.bind_some,hcount]
  rw [drop_heads,Option.map_eq_bind]
  rfl

/-- The header stands on a line before the key when there is only white space before the key. -/
theorem Placed.between_ne_nil (hL : L.Placed) (hindent : ∀ c ∈ L.indent, isWhitespace c) : L.between ≠ [] := by
  intro hnil
  have hheader := hL.header_upto
  unfold upto at hheader
  rw [hnil,List.flatMap_nil,List.nil_append] at hheader
  exact absurd (hindent '[' (hheader.subset (by decide))) (by decide)

theorem Placed.versionLine_key (hL : L.Placed) (h : '\n' ∉ rest) (hindent : ∀ c ∈ L.indent, isWhitespace c) :
    versionLine (L.text rest) = some L.heads.length := by
  have hne := hL.between_ne_nil hindent
  have hnone := hL.between_none
  have hkey : (versionOfLine (L.indent++(key++rest))).isSome = true := by
    rw [versionOfLine_key hindent]
    rfl
  rw [hL.versionLine_text h,length_heads]
  cases hbetween : L.between with
  | nil => exact absurd hbetween hne
  | cons l ls =>
    rw [hbetween,List.forall_mem_cons] at hnone
    have hbefore : ls.findIdx? (fun line => (versionOfLine line).isSome) = none := by
      rw [List.findIdx?_eq_none_iff]
      intro line hline
      rw [hnone.2 line hline]
      rfl
    rw [List.cons_append,List.tail_cons,List.findIdx?_append,hbefore,Option.none_or,List.findIdx?_cons,hkey,
      List.length_cons]
    simp only [if_true,Option.map_some,Option.some.injEq]
    omega

theorem Placed.versionLine_ne (hL : L.Placed) (h : '\n' ∉ rest) (hindent : ¬∀ c ∈ L.indent, isWhitespace c) :
    versionLine (L.text rest) ≠ some L.heads.length := by
  have hkey := hL.indent_none hindent rest
  rw [hL.versionLine_text h,ne_eq,Option.map_eq_some_iff]
  intro hline
  obtain ⟨i,hi,hsum⟩ := hline
  rw [length_heads] at hsum
  cases hbetween : L.between with
  | nil =>
    rw [hbetween,List.length_nil] at hsum
    omega
  | cons l ls =>
    rw [hbetween,List.length_cons] at hsum
    have hlast : i = ls.length := by omega
    rw [hbetween,List.cons_append,List.tail_cons] at hi
    obtain ⟨hlt,hsome,-⟩ := List.findIdx?_eq_some_iff_getElem.mp hi
    subst hlast
    rw [List.getElem_append_right le_rfl] at hsome
    simp only [Nat.sub_self,List.getElem_cons_zero] at hsome
    rw [hkey] at hsome
    cases hsome

theorem Placed.firstIsKey_iff (hL : L.Placed) : FirstIsKey (L.text rest) ↔ ∀ c ∈ L.indent, isWhitespace c := by
  have htake : ((L.after rest).take L.upto.length).rtakeWhile (· ≠ '\n') = L.indent := by
    unfold after
    rw [List.take_left]
    exact rtakeWhile_newline hL.indent_line L.between
  constructor
  · intro h
    obtain ⟨start,idx,hstart,hidx,hall⟩ := h
    rw [hL.header_at] at hstart
    obtain rfl := Option.some.inj hstart
    rw [text_drop,hL.key_at] at hidx
    obtain rfl := Option.some.inj hidx
    rw [text_drop,htake] at hall
    exact hall
  · intro h
    refine ⟨L.before.length,L.upto.length,hL.header_at rest,?_,?_⟩
    · rw [text_drop,hL.key_at]
    · rw [text_drop,htake]
      exact h

theorem Placed.alreadyThere_iff (hL : L.Placed) (h : '\n' ∉ rest) :
    AlreadyThere (L.text rest) version ↔ rest = assignment version := by
  have htake : ((L.text rest).drop (L.before.length+L.upto.length)).takeWhile (· ≠ '\n') = key++rest := by
    rw [← List.drop_drop,text_drop,after_drop,← List.append_assoc]
    exact takeWhile_newline (newline_key h) L.below
  constructor
  · intro hthere
    obtain ⟨start,idx,hstart,hidx,heq⟩ := hthere
    rw [hL.header_at] at hstart
    obtain rfl := Option.some.inj hstart
    rw [text_drop,hL.key_at] at hidx
    obtain rfl := Option.some.inj hidx
    rw [htake] at heq
    exact List.append_cancel_left heq
  · intro heq
    refine ⟨L.before.length,L.upto.length,hL.header_at rest,?_,?_⟩
    · rw [text_drop,hL.key_at]
    · rw [htake,heq]

/-- A text with a value has a key after the header. -/
theorem exists_key {text : List Char} (hread : readWorkspaceVersion path text = .ok old) :
    ∃ start idx, find header text = some start ∧ find key (text.drop start) = some idx := by
  unfold readWorkspaceVersion at hread
  cases hheader : find header text with
  | none =>
    rw [hheader] at hread
    cases hread
  | some start =>
    rw [hheader] at hread
    dsimp only at hread
    rw [findSome?_blockOf] at hread
    cases hvalue : (blockLines ((text.drop start).splitOn '\n')).findSome? versionOfLine with
    | none =>
      rw [hvalue] at hread
      cases hread
    | some value =>
      obtain ⟨line,hline,hsome⟩ := List.exists_of_findSome?_eq_some hvalue
      have hmem := mem_of_mem_blockLines hline
      obtain ⟨idx,hidx⟩ := exists_find ((infix_of_versionOfLine hsome).trans (infix_of_mem_splitOn hmem))
      exact ⟨start,idx,rfl,hidx⟩

/-- The key does not begin in the header. -/
theorem header_length_le {text : List Char} {idx : ℕ} (hheader : header <+: text) (hkey : key <+: text.drop idx) :
    header.length ≤ idx := by
  by_contra hlt
  obtain ⟨rest,rfl⟩ := hheader
  have hlt : idx < header.length := Nat.lt_of_not_le hlt
  rw [List.drop_append_of_le_length hlt.le] at hkey
  cases hdrop : header.drop idx with
  | nil =>
    rw [List.drop_eq_nil_iff] at hdrop
    exact absurd hdrop (Nat.not_le_of_lt hlt)
  | cons c d =>
    rw [hdrop] at hkey
    have hc : 'v' = c := (List.cons_prefix_cons.mp hkey).1
    have hmem : c ∈ header := (List.drop_suffix idx header).subset (hdrop ▸ List.mem_cons_self)
    rw [← hc] at hmem
    exact absurd hmem (by decide)

/-- Every text with a value has that form. -/
theorem exists_placed {text : List Char} (hread : readWorkspaceVersion path text = .ok old) :
    ∃ (L : Layout) (rest : List Char), L.Placed ∧ '\n' ∉ rest ∧ text = L.text rest := by
  obtain ⟨start,idx,hheader,hkey⟩ := exists_key hread
  obtain ⟨before,tail,rfl,rfl⟩ := exists_of_find hheader
  rw [List.drop_left] at hkey
  obtain ⟨upto,tail',hafter,rfl⟩ := exists_of_find hkey
  have hlength : header.length ≤ upto.length := by
    apply header_length_le (List.prefix_append header tail)
    rw [hafter,List.drop_left]
    exact List.prefix_append _ _
  have hupto : header <+: upto := by
    apply List.prefix_of_prefix_length_le _ (List.prefix_append upto (key++tail')) hlength
    rw [← hafter]
    exact List.prefix_append _ _
  rw [hafter] at hkey hheader ⊢
  obtain ⟨above,start,rfl,habove,hstart⟩ := exists_lines before
  obtain ⟨between,indent,rfl,hbetween,hindent⟩ := exists_lines upto
  obtain ⟨rest,below,rfl,hrest,hbelow⟩ := exists_cons_lines tail'
  refine ⟨⟨above,start,between,indent,below⟩,rest,?_,hrest,rfl⟩
  refine { header_at := ?_, key_at := ?_, header_upto := hupto, above_lines := habove, start_line := hstart,
           between_lines := hbetween, indent_line := hindent, below_lines := hbelow }
  · intro rest'
    obtain ⟨r,hr⟩ := hupto
    rw [← hr,List.append_assoc header] at hheader
    have hmoved := find_congr hheader (r++(key++(rest'++below.flatMap fun l => '\n'::l)))
    rw [← List.append_assoc header,hr] at hmoved
    exact hmoved
  · intro rest'
    exact find_congr hkey (rest'++below.flatMap fun l => '\n'::l)

end Layout

variable {text old version : List Char} {path : String}

/-- Setting the version works exactly where only white space stands before the first key after the header on
its line, and where there is nothing to do. -/
theorem bump_law_iff (hread : readWorkspaceVersion path text = .ok old)
    (hversion : ∀ c ∈ version, c ∉ ['\"','\'','\n']) :
    (∃ out, BumpLaw path text version out) ↔ FirstIsKey text ∨ version = old ∧ AlreadyThere text version := by
  obtain ⟨L,rest,hL,hrest,rfl⟩ := Layout.exists_placed hread
  have hassign := Layout.newline_assignment hversion
  rw [hL.firstIsKey_iff,hL.alreadyThere_iff hrest]
  by_cases hindent : ∀ c ∈ L.indent, isWhitespace c
  · refine iff_of_true ⟨L.text (assignment version),?_⟩ (.inl hindent)
    refine ⟨hL.write hrest version,?_,?_⟩
    · rw [hL.read_key hrest hassign hindent hread,versionValue_assignment hversion]
    · intro k hk
      rw [hL.versionLine_key hrest hindent] at hk
      exact hL.getElem?_text hassign hrest fun heq => hk (congrArg some heq)
  · constructor
    · intro hlaw
      obtain ⟨out,hlaw⟩ := hlaw
      obtain rfl := hL.eq_of_law hrest hlaw
      have hsame := hlaw.read
      rw [hL.read_congr hrest hassign hindent hread] at hsame
      have hline := hlaw.unchanged L.heads.length (hL.versionLine_ne hrest hindent)
      rw [hL.getElem?_key hassign,hL.getElem?_key hrest] at hline
      have hvalue := List.append_cancel_left (List.append_cancel_left (Option.some.inj hline))
      exact .inr ⟨(Except.ok.inj hsame).symm,hvalue.symm⟩
    · intro h
      obtain hkey | ⟨rfl,rfl⟩ := h
      · exact absurd hkey hindent
      · exact ⟨_,hL.write hrest version,hread,fun _ _ => rfl⟩

theorem plain_of_all (version : List Char) (h : (version.all fun c => decide (c ∉ ['\"','\'','\n'])) = true) :
    ∀ c ∈ version, c ∉ ['\"','\'','\n'] := by
  intro c hc
  exact of_decide_eq_true (List.all_eq_true.mp h c hc)

theorem bump_law_iff_plain :
    (∃ out, BumpLaw "Cargo.toml" "[workspace.package]\nversion = \"0.9.0\"\n".toList "0.9.1".toList out) ↔
      FirstIsKey "[workspace.package]\nversion = \"0.9.0\"\n".toList ∨ "0.9.1".toList = "0.9.0".toList ∧
        AlreadyThere "[workspace.package]\nversion = \"0.9.0\"\n".toList "0.9.1".toList :=
  bump_law_iff (by decide +kernel) (plain_of_all "0.9.1".toList (by decide))

/-- A key that only ends in `version`, before the version itself. -/
theorem bump_law_fails_after_rust_version :
    readWorkspaceVersion "Cargo.toml" "[workspace.package]\nrust-version = \"1.75\"\nversion = \"0.9.0\"\n".toList =
      .ok "0.9.0".toList ∧ (∀ c ∈ "0.9.1".toList, c ∉ ['\"','\'','\n']) ∧
      ¬∃ out, BumpLaw "Cargo.toml" "[workspace.package]\nrust-version = \"1.75\"\nversion = \"0.9.0\"\n".toList
        "0.9.1".toList out := by
  refine ⟨by decide +kernel,plain_of_all "0.9.1".toList (by decide),?_⟩
  intro hlaw
  obtain ⟨out,hlaw⟩ := hlaw
  have hwritten : writeWorkspaceVersion "[workspace.package]\nrust-version = \"1.75\"\nversion = \"0.9.0\"\n".toList
      "0.9.1".toList = .ok "[workspace.package]\nrust-version       = \"0.9.1\"\nversion = \"0.9.0\"\n".toList := by
    decide +kernel
  have hread : readWorkspaceVersion "Cargo.toml"
      "[workspace.package]\nrust-version       = \"0.9.1\"\nversion = \"0.9.0\"\n".toList = .ok "0.9.0".toList := by
    decide +kernel
  obtain rfl := Except.ok.inj (hwritten.symm.trans hlaw.written)
  exact absurd (hread.symm.trans hlaw.read) (by decide)

end RakkaInference.Xtask
