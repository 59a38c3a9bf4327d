import Mathlib.Data.List.DropRight
import Mathlib.Data.List.Infix

/-! Texts as lists of characters: first occurrences, lines, and white space around them. -/
namespace Machine

section Find
variable {α : Type*} [DecidableEq α] {pat s s' a b : List α} {i n : ℕ}

/-- Where the first occurrence starts. -/
def find (pat : List α) : List α → Option ℕ
  | [] => if pat = [] then some 0 else none
  | c::s => if pat.isPrefixOf (c::s) then some 0 else (find pat s).map (·+1)

theorem find_of_starts (h : pat <+: s) : find pat s = some 0 := by
  cases s with
  | nil => exact if_pos (List.prefix_nil.mp h)
  | cons c s => exact if_pos (List.isPrefixOf_iff_prefix.mpr h)

theorem find_cons_of_not_starts {c : α} (h : ¬pat <+: c::s) : find pat (c::s) = (find pat s).map (·+1) :=
  if_neg fun hstart => h (List.isPrefixOf_iff_prefix.mp hstart)

theorem find_eq_some_iff : find pat s = some i ↔ i ≤ s.length ∧ pat <+: s.drop i ∧ ∀ j < i, ¬pat <+: s.drop j := by
  induction s generalizing i with
  | nil =>
    rw [List.drop_nil,List.prefix_nil,List.length_nil,Nat.le_zero,find]
    split
    case isTrue h =>
      rw [Option.some_inj,eq_comm]
      refine ⟨fun hi => ⟨hi,h,?_⟩,And.left⟩
      rw [hi]
      exact nofun
    case isFalse h => exact ⟨nofun,fun hi => absurd hi.2.1 h⟩
  | cons c s ih =>
    by_cases hstart : pat <+: c::s
    · rw [find_of_starts hstart,Option.some_inj]
      constructor
      · intro hi
        rw [← hi]
        exact ⟨Nat.zero_le _,hstart,nofun⟩
      · intro hi
        by_contra hne
        exact hi.2.2 0 (Nat.pos_of_ne_zero (Ne.symm hne)) hstart
    · rw [find_cons_of_not_starts hstart,Option.map_eq_some_iff]
      constructor
      · intro hi
        obtain ⟨k,hk,rfl⟩ := hi
        obtain ⟨hle,hat,hbefore⟩ := ih.mp hk
        refine ⟨Nat.succ_le_succ hle,hat,?_⟩
        intro j hj
        cases j with
        | zero => exact hstart
        | succ j => exact hbefore j (Nat.lt_of_succ_lt_succ hj)
      · intro hi
        obtain ⟨hle,hat,hbefore⟩ := hi
        cases i with
        | zero => exact absurd hat hstart
        | succ i =>
          refine ⟨i,ih.mpr ⟨Nat.le_of_succ_le_succ hle,hat,?_⟩,rfl⟩
          intro j hj
          exact hbefore (j+1) (Nat.succ_lt_succ hj)

/-- A first occurrence splits the text. -/
theorem exists_of_find (h : find pat s = some i) : ∃ a b, s = a++(pat++b) ∧ a.length = i := by
  obtain ⟨hle,⟨b,hb⟩,-⟩ := find_eq_some_iff.mp h
  refine ⟨s.take i,b,?_,List.length_take_of_le hle⟩
  rw [hb,List.take_append_drop]

/-- The first occurrence does not depend on what comes after it. -/
theorem find_congr (h : find pat (a++(pat++b)) = some a.length) (c : List α) :
    find pat (a++(pat++c)) = some a.length := by
  obtain ⟨-,-,hbefore⟩ := find_eq_some_iff.mp h
  refine find_eq_some_iff.mpr ⟨by simp,by simp,?_⟩
  intro j hj hat
  apply hbefore j hj
  have hsame : ∀ d : List α, (a++(pat++d)).drop j = a.drop j++pat++d := by
    intro d
    rw [List.drop_append_of_le_length hj.le,List.append_assoc]
  rw [hsame] at hat ⊢
  have hshort : pat <+: a.drop j++pat :=
    List.prefix_of_prefix_length_le hat (List.prefix_append _ _) (by simp)
  exact hshort.trans (List.prefix_append _ _)

/-- An occurrence does not start where its first item is not. -/
theorem find_append_of_not_mem {c : α} (h : c ∉ a) : find (c::pat) (a++s) = (find (c::pat) s).map (·+a.length) := by
  induction a with
  | nil =>
    rw [List.nil_append,List.length_nil]
    exact Option.map_id'.symm
  | cons d a ih =>
    rw [List.mem_cons,not_or] at h
    have hnot : ¬c::pat <+: d::(a++s) := by
      rw [List.cons_prefix_cons]
      exact fun hstart => h.1 hstart.1
    rw [List.cons_append,find_cons_of_not_starts hnot,ih h.2,Option.map_map]
    congr 1

theorem exists_find (h : pat <:+: s) : ∃ i, find pat s = some i := by
  induction s with
  | nil => exact ⟨0,find_of_starts (List.infix_nil.mp h ▸ List.nil_prefix)⟩
  | cons c s ih =>
    by_cases hstart : pat <+: c::s
    · exact ⟨0,find_of_starts hstart⟩
    · obtain ⟨i,hi⟩ := ih ((List.infix_cons_iff.mp h).resolve_left hstart)
      refine ⟨i+1,?_⟩
      rw [find_cons_of_not_starts hstart,hi,Option.map_some]

theorem find_le (h : find pat (a++(pat++b)) = some i) : i ≤ a.length := by
  obtain ⟨-,-,hbefore⟩ := find_eq_some_iff.mp h
  by_contra hlt
  apply hbefore a.length (Nat.lt_of_not_le hlt)
  rw [List.drop_left]
  exact List.prefix_append _ _

end Find

section Lines

/-- The lines of a text, each with its newline. -/
def splitInclusive : List Char → List (List Char)
  | [] => []
  | c::s =>
    if c = '\n' then [c]::splitInclusive s
    else match splitInclusive s with
      | [] => [[c]]
      | l::ls => (c::l)::ls

/-- A newline, and a carriage return before it, are no part of a line. -/
def stripNewline (line : List Char) : List Char :=
  if line.getLast? = some '\n' then
    if line.dropLast.getLast? = some '\r' then line.dropLast.dropLast else line.dropLast
  else line

def lines (s : List Char) : List (List Char) := (splitInclusive s).map stripNewline

variable {l s : List Char}

theorem splitInclusive_line (h : '\n' ∉ l) : splitInclusive (l++ '\n'::s) = (l++['\n'])::splitInclusive s := by
  induction l with
  | nil => rfl
  | cons c l ih =>
    rw [List.mem_cons,not_or] at h
    rw [List.cons_append,splitInclusive,if_neg (Ne.symm h.1),ih h.2]
    rfl

theorem splitInclusive_last (h : '\n' ∉ l) (hne : l ≠ []) : splitInclusive l = [l] := by
  induction l with
  | nil => exact absurd rfl hne
  | cons c l ih =>
    rw [List.mem_cons,not_or] at h
    rw [splitInclusive,if_neg (Ne.symm h.1)]
    by_cases hnil : l = []
    · rw [hnil]
      rfl
    · rw [ih h.2 hnil]

theorem stripNewline_of_not_mem (h : '\n' ∉ l) : stripNewline l = l :=
  if_neg fun hlast => h (List.mem_of_getLast? hlast)

theorem stripNewline_line (l : List Char) :
    stripNewline (l++['\n']) = l ∨ ∃ l', l = l'++['\r'] ∧ stripNewline (l++['\n']) = l' := by
  unfold stripNewline
  rw [List.getLast?_concat,if_pos rfl,List.dropLast_concat]
  split
  case isTrue h =>
    obtain ⟨l',rfl⟩ := List.getLast?_eq_some_iff.mp h
    exact .inr ⟨l',rfl,List.dropLast_concat⟩
  case isFalse => exact .inl rfl

/-- A search for a line may look at what is between the newlines, if it looks at no empty line and at no
carriage return at the end. -/
theorem findSome?_lines {β : Type*} {g : List Char → Option β} (hnil : g [] = none) (hcr : ∀ l, g (l++['\r']) = g l)
    (ls : List (List Char)) (h : ∀ l ∈ ls, '\n' ∉ l) :
    (lines (['\n'].intercalate ls)).findSome? g = ls.findSome? g := by
  induction ls with
  | nil => rfl
  | cons l ls ih =>
    rw [List.forall_mem_cons] at h
    cases ls with
    | nil =>
      rw [List.intercalate_singleton]
      by_cases hl : l = []
      · rw [hl,List.findSome?_singleton,hnil]
        rfl
      · unfold lines
        rw [splitInclusive_last h.1 hl,List.map_singleton,stripNewline_of_not_mem h.1]
    | cons l' ls =>
      have hstrip : g (stripNewline (l++['\n'])) = g l := by
        obtain heq | ⟨l'',rfl,heq⟩ := stripNewline_line l
        · rw [heq]
        · rw [heq,hcr]
      unfold lines at ih ⊢
      rw [List.intercalate_cons_cons,List.append_assoc,List.singleton_append,splitInclusive_line h.1,List.map_cons,
        List.findSome?_cons,List.findSome?_cons,hstrip,ih h.2]

/-- A text split at its newlines, after lines that are whole. -/
theorem splitOn_flatMap (ls : List (List Char)) (h : ∀ l ∈ ls, '\n' ∉ l) (s : List Char) :
    ((ls.flatMap fun l => l++['\n'])++s).splitOn '\n' = ls++s.splitOn '\n' := by
  induction ls with
  | nil => rfl
  | cons l ls ih =>
    rw [List.forall_mem_cons] at h
    rw [List.flatMap_cons,List.append_assoc,List.append_assoc,List.singleton_append,
      List.splitOn_append_cons_self_of_not_mem h.1,ih h.2]
    rfl

/-- Every text is some whole lines and a part of a line. -/
theorem exists_lines (s : List Char) :
    ∃ (ls : List (List Char)) (l : List Char), s = (ls.flatMap fun l => l++['\n'])++l ∧ (∀ l ∈ ls, '\n' ∉ l) ∧
      '\n' ∉ l := by
  induction s using List.reverseRecOn with
  | nil => exact ⟨[],[],rfl,nofun,nofun⟩
  | append_singleton s c ih =>
    obtain ⟨ls,l,rfl,hls,hl⟩ := ih
    by_cases hc : c = '\n'
    · subst hc
      refine ⟨ls++[l],[],?_,?_,nofun⟩
      · simp
      · rw [List.forall_mem_append,List.forall_mem_singleton]
        exact ⟨hls,hl⟩
    · refine ⟨ls,l++[c],?_,hls,?_⟩
      · rw [List.append_assoc]
      · rw [List.mem_append,List.mem_singleton]
        exact not_or.mpr ⟨hl,Ne.symm hc⟩

/-- A text split at its newlines, before lines that are whole. -/
theorem splitOn_flatMap_cons (h : '\n' ∉ l) (ls : List (List Char)) (hls : ∀ l ∈ ls, '\n' ∉ l) :
    (l++ls.flatMap fun l => '\n'::l).splitOn '\n' = l::ls := by
  induction ls generalizing l with
  | nil =>
    rw [List.flatMap_nil,List.append_nil]
    exact List.splitOn_eq_singleton h
  | cons l' ls ih =>
    rw [List.forall_mem_cons] at hls
    rw [List.flatMap_cons,List.cons_append,List.splitOn_append_cons_self_of_not_mem h,ih hls.1 hls.2]

/-- Every text is a part of a line and some whole lines. -/
theorem exists_cons_lines (s : List Char) :
    ∃ (l : List Char) (ls : List (List Char)), s = l++(ls.flatMap fun l => '\n'::l) ∧ '\n' ∉ l ∧
      ∀ l ∈ ls, '\n' ∉ l := by
  induction s with
  | nil => exact ⟨[],[],rfl,nofun,nofun⟩
  | cons c s ih =>
    obtain ⟨l,ls,rfl,hl,hls⟩ := ih
    by_cases hc : c = '\n'
    · subst hc
      refine ⟨[],l::ls,rfl,nofun,?_⟩
      rw [List.forall_mem_cons]
      exact ⟨hl,hls⟩
    · refine ⟨c::l,ls,rfl,?_,hls⟩
      rw [List.mem_cons]
      exact not_or.mpr ⟨Ne.symm hc,hl⟩

theorem head?_intercalate {b : Char} (hb : b ≠ '\n') (l : List Char) (ls : List (List Char)) :
    (['\n'].intercalate (l::ls)).head? = some b ↔ l.head? = some b := by
  cases ls with
  | nil => rw [List.intercalate_singleton]
  | cons l' ls =>
    rw [List.intercalate_cons_cons]
    cases l with
    | nil => simpa using hb.symm
    | cons => rfl

/-- Where the first line starts that is not the first of the text and starts with `b`. -/
theorem find_newline_line {b : Char} {s : List Char} (hl : '\n' ∉ l) :
    find ['\n',b] (l++ '\n'::s) =
      if s.head? = some b then some l.length else (find ['\n',b] s).map (·+(l.length+1)) := by
  rw [find_append_of_not_mem hl]
  split
  case isTrue h =>
    obtain ⟨s',rfl⟩ := List.head?_eq_some_iff.mp h
    have hstart : ['\n',b] <+: '\n'::b::s' := List.prefix_append ['\n',b] s'
    rw [find_of_starts hstart,Option.map_some,Nat.zero_add]
  case isFalse h =>
    have hnot : ¬['\n',b] <+: '\n'::s := by
      rw [List.cons_prefix_cons,not_and]
      intro _ hstart
      obtain ⟨s',rfl⟩ := hstart
      exact h rfl
    rw [find_cons_of_not_starts hnot,Option.map_map]
    congr 1
    funext i
    change i+1+l.length = i+(l.length+1)
    rw [Nat.add_assoc,Nat.add_comm 1]

/-- The text before the first line that starts with `b`. -/
theorem take_find_intercalate {b : Char} (hb : b ≠ '\n') (l : List Char) (ls : List (List Char)) (hl : '\n' ∉ l)
    (hls : ∀ l ∈ ls, '\n' ∉ l) :
    let s := ['\n'].intercalate (l::ls)
    s.take ((find ['\n',b] s).getD s.length) = ['\n'].intercalate (l::ls.takeWhile fun l => l.head? ≠ some b) := by
  intro s
  induction ls generalizing l with
  | nil =>
    have hfind : find ['\n',b] l = none := by
      rw [← List.append_nil l,find_append_of_not_mem hl]
      rfl
    have hs : s = l := List.intercalate_singleton
    rw [hs,hfind,Option.getD_none,List.take_length]
    exact List.intercalate_singleton.symm
  | cons l' ls ih =>
    rw [List.forall_mem_cons] at hls
    have hs : s = l++ '\n'::['\n'].intercalate (l'::ls) := by
      change ['\n'].intercalate (l::l'::ls) = _
      rw [List.intercalate_cons_cons,List.append_assoc,List.singleton_append]
    have hrest := ih l' hls.1 hls.2
    have hhead := head?_intercalate hb l' ls
    generalize ['\n'].intercalate (l'::ls) = s' at hs hrest hhead
    have hfind := find_newline_line (b := b) (s := s') hl
    rw [← hs] at hfind
    by_cases hat : l'.head? = some b
    · -- The text ends before this line.
      rw [if_pos (hhead.mpr hat)] at hfind
      rw [hfind,Option.getD_some,hs,List.take_left,List.takeWhile_cons_of_neg (by simpa using hat),
        List.intercalate_singleton]
    · rw [if_neg fun h => hat (hhead.mp h)] at hfind
      have hend : (find ['\n',b] s).getD s.length = l.length+((find ['\n',b] s').getD s'.length+1) := by
        rw [hfind,hs,List.length_append,List.length_cons]
        cases find ['\n',b] s' with
        | none => rfl
        | some i => exact (Nat.add_left_comm i l.length 1)
      rw [hend,hs,List.take_length_add_append,List.take_succ_cons,hrest,
        List.takeWhile_cons_of_pos (by simpa using hat),List.intercalate_cons_cons,List.append_assoc,
        List.singleton_append]

theorem infix_of_mem_splitOn (h : l ∈ s.splitOn '\n') : l <:+: s := by
  obtain ⟨l',ls,rfl,hl',hls⟩ := exists_cons_lines s
  rw [splitOn_flatMap_cons hl' ls hls,List.mem_cons] at h
  obtain rfl | hl := h
  · exact (List.prefix_append _ _).isInfix
  · have hline : '\n'::l <:+: ls.flatMap fun l => '\n'::l := List.infix_of_mem_flatten (List.mem_map_of_mem hl)
    exact ((List.suffix_cons '\n' l).isInfix.trans hline).trans (List.suffix_append l' _).isInfix

theorem not_mem_of_mem_splitOn (h : l ∈ s.splitOn '\n') : '\n' ∉ l := by
  obtain ⟨l',ls,rfl,hl',hls⟩ := exists_cons_lines s
  rw [splitOn_flatMap_cons hl' ls hls,List.mem_cons] at h
  obtain rfl | hl := h
  · exact hl'
  · exact hls l hl

/-- What is left from the newline on. -/
theorem drop_find_newline (h : '\n' ∉ l) (ls : List (List Char)) :
    let s := l++ls.flatMap fun l => '\n'::l
    s.drop ((find ['\n'] s).getD s.length) = ls.flatMap fun l => '\n'::l := by
  intro s
  have hfind : find ['\n'] s = (find ['\n'] (ls.flatMap fun l => '\n'::l)).map (·+l.length) :=
    find_append_of_not_mem h
  cases ls with
  | nil =>
    rw [hfind]
    exact List.drop_length
  | cons l' ls =>
    have hzero : find ['\n'] ((l'::ls).flatMap fun l => '\n'::l) = some 0 :=
      find_of_starts (List.prefix_append ['\n'] _)
    rw [hfind,hzero,Option.map_some,Option.getD_some,Nat.zero_add]
    exact List.drop_left

theorem takeWhile_newline (h : '\n' ∉ l) (ls : List (List Char)) :
    (l++ls.flatMap fun l => '\n'::l).takeWhile (· ≠ '\n') = l := by
  have hne : ∀ c ∈ l, decide (c ≠ '\n') = true := by
    intro c hc
    exact decide_eq_true fun heq => h (heq ▸ hc)
  rw [List.takeWhile_append_of_pos hne]
  cases ls with
  | nil => exact List.append_nil l
  | cons => exact List.append_nil l

theorem rtakeWhile_newline (h : '\n' ∉ l) (ls : List (List Char)) :
    ((ls.flatMap fun l => l++['\n'])++l).rtakeWhile (· ≠ '\n') = l := by
  induction l using List.reverseRecOn with
  | nil =>
    rw [List.append_nil]
    induction ls using List.reverseRecOn with
    | nil => rfl
    | append_singleton ls l' =>
      rw [List.flatMap_append,List.flatMap_singleton,← List.append_assoc]
      exact List.rtakeWhile_concat_neg _ _ _ (by simp)
  | append_singleton l c ih =>
    rw [List.mem_append,List.mem_singleton,not_or] at h
    have hc : decide (c ≠ '\n') = true := decide_eq_true (Ne.symm h.2)
    rw [← List.append_assoc,List.rtakeWhile_concat_pos (fun x => decide (x ≠ '\n')) _ c hc,ih h.1]

theorem count_newline (ls : List (List Char)) (hls : ∀ l ∈ ls, '\n' ∉ l) (hl : '\n' ∉ l) :
    ((ls.flatMap fun l => l++['\n'])++l).count '\n' = ls.length := by
  induction ls with
  | nil => exact List.count_eq_zero.mpr hl
  | cons l' ls ih =>
    rw [List.forall_mem_cons] at hls
    rw [List.flatMap_cons,List.append_assoc,List.count_append,ih hls.2,List.count_append,
      List.count_eq_zero.mpr hls.1,List.count_singleton_self,List.length_cons,Nat.zero_add,Nat.add_comm]

end Lines

/-! White space, and what stands around a text or between two parts of it. -/
section Trim
variable {q s : List Char}

/-- The characters with the property `White_Space`. -/
def isWhitespace (c : Char) : Bool :=
  let n := c.toNat
  9 ≤ n ∧ n ≤ 13 ∨ n = 0x20 ∨ n = 0x85 ∨ n = 0xa0 ∨ n = 0x1680 ∨ 0x2000 ≤ n ∧ n ≤ 0x200a ∨ n = 0x2028 ∨ n = 0x2029 ∨
    n = 0x202f ∨ n = 0x205f ∨ n = 0x3000

def trimStart (s : List Char) : List Char := s.dropWhile isWhitespace

def trim (s : List Char) : List Char := (trimStart s).rdropWhile isWhitespace

def trimMatches (c : Char) (s : List Char) : List Char := (s.dropWhile (· = c)).rdropWhile (· = c)

def stripPrefix (pat s : List Char) : Option (List Char) :=
  if pat.isPrefixOf s then some (s.drop pat.length) else none

def splitOnce (c : Char) (s : List Char) : Option (List Char × List Char) :=
  if c ∈ s then some (s.takeWhile (· ≠ c),(s.dropWhile (· ≠ c)).tail) else none

theorem forall_isWhitespace {s : List Char} (h : s.all isWhitespace = true) : ∀ x ∈ s, isWhitespace x :=
  List.all_eq_true.mp h

theorem stripPrefix_append (pat rest : List Char) : stripPrefix pat (pat++rest) = some rest := by
  unfold stripPrefix
  rw [if_pos (List.isPrefixOf_iff_prefix.mpr (List.prefix_append _ _)),List.drop_left]

theorem stripPrefix_eq_none {pat : List Char} (h : ¬pat <+: s) : stripPrefix pat s = none :=
  if_neg fun hstart => h (List.isPrefixOf_iff_prefix.mp hstart)

theorem trimStart_of_forall (hq : ∀ c ∈ q, isWhitespace c) (s : List Char) : trimStart (q++s) = trimStart s :=
  List.dropWhile_append_of_pos hq

theorem dropWhile_self (c : Char) (s : List Char) : (c::s).dropWhile (· = c) = s.dropWhile (· = c) :=
  List.dropWhile_cons_of_pos (by simp)

theorem dropWhile_of_ne {c d : Char} (h : c ≠ d) (s : List Char) : (d::s).dropWhile (· = c) = d::s :=
  List.dropWhile_cons_of_neg (by simpa using h.symm)

theorem rdropWhile_of_not_mem {c : Char} (h : c ∉ s) : s.rdropWhile (· = c) = s := by
  rw [List.rdropWhile_eq_self_iff]
  intro hne heq
  have hlast := List.getLast_mem hne
  rw [of_decide_eq_true heq] at hlast
  exact h hlast

theorem trimMatches_of_not_mem {c : Char} (h : c ∉ s) : trimMatches c s = s := by
  unfold trimMatches
  cases s with
  | nil => rfl
  | cons d s => rw [dropWhile_of_ne (List.ne_of_not_mem_cons h),rdropWhile_of_not_mem h]

/-- A quoted value with no quotes in it. -/
theorem trimMatches_quoted {c : Char} (h : c ∉ s) : trimMatches c (c::(s++[c])) = s := by
  unfold trimMatches
  rw [dropWhile_self]
  cases s with
  | nil =>
    rw [List.nil_append,dropWhile_self]
    rfl
  | cons d s =>
    rw [List.cons_append,dropWhile_of_ne (List.ne_of_not_mem_cons h),← List.cons_append,
      List.rdropWhile_concat_pos (fun x => decide (x = c)) (d::s) c (by simp),rdropWhile_of_not_mem h]

theorem splitOnce_append {c : Char} {a : List Char} (h : c ∉ a) (b : List Char) :
    splitOnce c (a++c::b) = some (a,b) := by
  have hne : ∀ d ∈ a, decide (d ≠ c) = true := by
    intro d hd
    exact decide_eq_true fun heq => h (heq ▸ hd)
  have htake : (c::b).takeWhile (· ≠ c) = [] := List.takeWhile_cons_of_neg (by simp)
  have hdrop : (c::b).dropWhile (· ≠ c) = c::b := List.dropWhile_cons_of_neg (by simp)
  unfold splitOnce
  rw [if_pos (List.mem_append_right _ List.mem_cons_self),List.takeWhile_append_of_pos hne,
    List.dropWhile_append_of_pos hne,htake,hdrop,List.append_nil,List.tail_cons]

theorem trimStart_cr (s : List Char) :
    trimStart (s++['\r']) = trimStart s++['\r'] ∨ trimStart s = [] ∧ trimStart (s++['\r']) = [] := by
  unfold trimStart
  rw [List.dropWhile_append]
  split
  case isTrue h => exact .inr ⟨List.isEmpty_iff.mp h,rfl⟩
  case isFalse => exact .inl rfl

theorem trim_cr (s : List Char) : trim (s++['\r']) = trim s := by
  unfold trim
  obtain h | ⟨h,h'⟩ := trimStart_cr s
  · rw [h,List.rdropWhile_concat_pos _ _ _ (by decide)]
  · rw [h,h']

theorem trim_append (ws ws' s : List Char) (hws : ∀ x ∈ ws, isWhitespace x) (hws' : ∀ x ∈ ws', isWhitespace x)
    (hhead : ∀ x ∈ s.head?, isWhitespace x = false) (hlast : ∀ x ∈ s.getLast?, isWhitespace x = false) :
    trim (ws++(s++ws')) = s := by
  unfold trim
  rw [trimStart_of_forall hws]
  have hstart : trimStart (s++ws') = s++ws' ∨ s = [] := by
    cases s with
    | nil => exact .inr rfl
    | cons x s =>
      left
      rw [List.cons_append,trimStart,List.dropWhile_cons_of_neg]
      simp [hhead x (by simp)]
  rcases hstart with hstart | rfl
  · rw [hstart,List.rdropWhile,List.reverse_append,
      List.dropWhile_append_of_pos fun x hx => hws' x (List.mem_reverse.mp hx)]
    cases hrev : s.reverse with
    | nil => rw [List.reverse_eq_nil_iff.mp hrev]; rfl
    | cons x l =>
      have hx : isWhitespace x = false := hlast x (by rw [List.getLast?_eq_head?_reverse,hrev]; rfl)
      rw [List.dropWhile_cons_of_neg (by simp [hx]),← hrev,List.reverse_reverse]
  · have hall : trimStart ([]++ws') = [] := List.dropWhile_eq_nil_iff.mpr fun x hx => hws' x (by simpa using hx)
    rw [hall]
    rfl

theorem isWhitespace_of_isDigit {x : Char} (h : x.isDigit = true) : isWhitespace x = false := by
  simp only [Char.isDigit,Bool.and_eq_true,decide_eq_true_eq] at h
  obtain ⟨hlo,hhi⟩ := h
  have hlo' : 48 ≤ x.toNat := hlo
  have hhi' : x.toNat ≤ 57 := hhi
  simp only [isWhitespace,decide_eq_false_iff_not]
  omega

end Trim

end Machine
