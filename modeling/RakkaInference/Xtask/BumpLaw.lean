import RakkaInference.Machine.Results
import RakkaInference.Xtask.BumpLines
import RakkaInference.Xtask.ReleaseLaw

/-! Whatever commands bump the version, the crates of the workspace require of each other the version they have. -/
namespace RakkaInference.Xtask
open Machine

/-- A manifest whose own crates are required in the version of the workspace. -/
structure Manifest (text version : List Char) : Prop where
  read : readWorkspaceVersion "Cargo.toml" text = .ok version
  first : FirstIsKey text
  /-- The dependencies come after the version. -/
  behind : ∀ k, versionLine text = some k → ∀ l ∈ (text.splitOn '\n').take (k+1), ¬depsHeader <:+: l
  plain : PlainVersion version
  lockstep : ∀ v ∈ pins text, v = version

/-- What is left as it was when the version is bumped. -/
structure Kept (text out : List Char) : Prop where
  pins_length : (pins out).length = (pins text).length
  lines_length : (out.splitOn '\n').length = (text.splitOn '\n').length
  versionLine : versionLine out = versionLine text
  others : ∀ k line, (text.splitOn '\n')[k]? = some line → Xtask.versionLine text ≠ some k → ¬cratePath <:+: line →
    (out.splitOn '\n')[k]? = some line

theorem Kept.refl (text : List Char) : Kept text text := ⟨rfl,rfl,rfl,fun _ _ h _ _ => h⟩

theorem Kept.trans {text mid out : List Char} (h : Kept text mid) (h' : Kept mid out) : Kept text out where
  pins_length := h'.pins_length.trans h.pins_length
  lines_length := h'.lines_length.trans h.lines_length
  versionLine := h'.versionLine.trans h.versionLine
  others := by
    intro k line hat hk hpath
    apply h'.others k line (h.others k line hat hk hpath) _ hpath
    rw [h.versionLine]
    exact hk

namespace Layout
variable {L : Layout} {below : List (List Char)} {rest version : List Char}

/-- The lines after that of the key may be others. -/
theorem Placed.withBelow (hL : L.Placed) (hbelow : ∀ l ∈ below, '\n' ∉ l) :
    ({ L with below := below } : Layout).Placed := by
  refine { header_at := ?_, key_at := ?_, header_upto := hL.header_upto, above_lines := hL.above_lines,
           start_line := hL.start_line, between_lines := hL.between_lines, indent_line := hL.indent_line,
           below_lines := hbelow }
  · intro rest
    obtain ⟨r,hr⟩ := hL.header_upto
    have hheader := hL.header_at []
    unfold text after at hheader
    rw [← hr,List.append_assoc header] at hheader
    have hmoved := find_congr hheader (r++(key++(rest++below.flatMap fun l => '\n'::l)))
    rw [← List.append_assoc header,hr] at hmoved
    exact hmoved
  · intro rest
    exact find_congr (hL.key_at []) (rest++below.flatMap fun l => '\n'::l)

theorem Placed.bracket_lead (hL : L.Placed) (hindent : ∀ c ∈ L.indent, isWhitespace c) : '[' ∉ L.lead := by
  have hne := hL.between_ne_nil hindent
  unfold lead
  cases hbetween : L.between with
  | nil => exact absurd hbetween hne
  | cons =>
    intro hmem
    exact absurd (hindent _ hmem) (by decide)

/-- There is no header of the dependencies on the line of a version that is written. -/
theorem Placed.not_header (hL : L.Placed) (hindent : ∀ c ∈ L.indent, isWhitespace c)
    (hversion : PlainVersion version) : ¬depsHeader <:+: L.lead++(key++assignment version) := by
  intro hin
  have hmem : '[' ∈ L.lead++(key++assignment version) := hin.subset (by decide)
  have hkey : '[' ∉ key := by decide
  have hassign : '[' ∉ assignment version := by
    unfold assignment
    rw [List.mem_append,List.mem_append]
    exact not_or.mpr ⟨not_or.mpr ⟨by decide,hversion.not_mem (by decide)⟩,by decide⟩
  rw [List.mem_append,List.mem_append] at hmem
  exact not_or.mpr ⟨hL.bracket_lead hindent,not_or.mpr ⟨hkey,hassign⟩⟩ hmem

end Layout

variable {text out old next version : List Char}

theorem PlainVersion.written (h : PlainVersion version) : ∀ c ∈ version, c ∉ ['\"','\'','\n'] := by
  intro c hc hmem
  exact h c hc (List.mem_append_left ['=','['] hmem)

/-- Setting one version after another keeps a manifest. -/
theorem Manifest.write (h : Manifest text old) (hnext : PlainVersion next) :
    ∃ written, writeWorkspaceVersion text next = .ok written ∧
      Manifest (writeWorkspaceDepsVersions written old next) next ∧
      Kept text (writeWorkspaceDepsVersions written old next) := by
  have hread := h.read
  have hfirst := h.first
  have hbehind := h.behind
  obtain ⟨L,rest,hL,hrest,rfl⟩ := Layout.exists_placed hread
  have hindent := hL.firstIsKey_iff.mp hfirst
  have hassign := Layout.newline_assignment hnext.written
  have hlines := hL.text_splitOn hrest
  have hline := hL.versionLine_key hrest hindent
  have hheads : ∀ l ∈ L.heads, ¬depsHeader <:+: l := by
    intro l hl
    apply hbehind L.heads.length hline l
    rw [hlines,List.take_length_add_append]
    exact List.mem_append_left _ hl
  have hold : ¬depsHeader <:+: L.lead++(key++rest) := by
    apply hbehind L.heads.length hline
    rw [hlines,List.take_length_add_append]
    exact List.mem_append_right _ (List.mem_singleton_self _)
  have hnew := hL.not_header hindent hnext
  let f := rewriteLine old next
  let L' : Layout := { L with below := rewriteLines f L.below }
  have hbelow : ∀ l ∈ rewriteLines f L.below, '\n' ∉ l :=
    newline_rewriteLines (fun l hl => newline_rewriteLine hnext hl) hL.below_lines
  have hL' : L'.Placed := hL.withBelow hbelow
  have hlines' : (L'.text (assignment next)).splitOn '\n' =
      L.heads++(L.lead++(key++assignment next))::rewriteLines f L.below := hL'.text_splitOn hassign
  have hrewrite : ∀ line, ¬depsHeader <:+: line →
      rewriteLines f (L.heads++line::L.below) = L.heads++line::rewriteLines f L.below := by
    intro line hnot
    rw [rewriteLines_append hheads,rewriteLines,find_eq_none hnot]
  have hout : writeWorkspaceDepsVersions (L.text (assignment next)) old next = L'.text (assignment next) := by
    have hsplit := splitOn_writeWorkspaceDepsVersions h.plain hnext (L.text (assignment next))
    rw [hL.text_splitOn hassign,hrewrite _ hnew,← hlines'] at hsplit
    have hjoined := congrArg ['\n'].intercalate hsplit
    rw [List.intercalate_splitOn,List.intercalate_splitOn] at hjoined
    exact hjoined
  have hline' : versionLine (L'.text (assignment next)) = some L.heads.length := hL'.versionLine_key hassign hindent
  have hdeps : ∀ line below, ¬depsHeader <:+: line → depsLines (L.heads++line::below) = depsLines below := by
    intro line below hnot
    rw [depsLines_append hheads,depsLines,find_eq_none hnot]
  have hpins : pins (L'.text (assignment next)) = (pins (L.text rest)).map fun v => if v = old then next else v := by
    unfold pins
    rw [hlines',hlines,hdeps _ _ hnew,hdeps _ _ hold,
      depsLines_rewriteLines (fun rest => exists_rewriteLine_header rest) (fun l => head?_rewriteLine l),
      List.flatMap_map,List.map_flatMap]
    exact List.flatMap_congr fun l _ => linePins_rewriteLine h.plain hnext l
  refine ⟨L.text (assignment next),hL.write hrest next,?_,?_⟩
  · rw [hout]
    refine { read := ?_, first := hL'.firstIsKey_iff.mpr hindent, behind := ?_, plain := hnext, lockstep := ?_ }
    · rw [hL.read_eq_ok_iff hrest] at hread
      have hin := inside_of_findSome? hL.between_none hread
      rw [hL'.read_eq_ok_iff hassign,
        findSome?_blockLines hL'.between_none (Layout.inside_congr L rest (assignment next) hin),
        versionOfLine_key hindent,versionValue_assignment hnext.written]
      rfl
    · intro k hk l hl
      rw [hline',Option.some_inj] at hk
      rw [← hk,hlines',List.take_length_add_append,List.mem_append] at hl
      obtain hl | hl := hl
      · exact hheads l hl
      · rw [List.take_succ_cons,List.take_zero,List.mem_singleton] at hl
        rw [hl]
        exact hnew
    · intro v hv
      rw [hpins] at hv
      obtain ⟨u,hu,rfl⟩ := List.mem_map.mp hv
      exact if_pos (h.lockstep u hu)
  · rw [hout]
    refine { pins_length := ?_, lines_length := ?_, versionLine := hline'.trans hline.symm, others := ?_ }
    · rw [hpins,List.length_map]
    · rw [hlines,hlines',List.length_append,List.length_append,List.length_cons,List.length_cons,length_rewriteLines]
    · intro k line hat hk hpath
      rw [hline] at hk
      have hne : L.heads.length ≠ k := fun heq => hk (congrArg some heq)
      rw [hL.getElem?_text hrest hassign hne,hL.text_splitOn hassign] at hat
      rw [hlines',← hrewrite _ hnew]
      apply getElem?_rewriteLines (P := fun l => ¬cratePath <:+: l) _ _ _ hat hpath
      · intro l i hl hin
        exact hl (hin.trans (List.drop_suffix i l).isInfix)
      · intro l hl
        exact rewriteLine_of_no_path hl

section Next
variable {t : ℕ × ℕ × ℕ} {kind : BumpKind} {id : List Char}

theorem plain_formatCore (t : ℕ × ℕ × ℕ) : PlainVersion (formatCore t) := by
  have hdecimal : ∀ n, PlainVersion (decimal n) := by
    intro n c hc hmem
    have hdigit := isDigit_of_mem_decimal hc
    have hnot : (['\"','\'','\n','=','['].all fun c => !c.isDigit) = true := by decide
    have hc' := List.all_eq_true.mp hnot c hmem
    rw [hdigit] at hc'
    cases hc'
  intro c hc
  simp only [formatCore,List.mem_append,List.mem_cons] at hc
  obtain hc | rfl | hc | rfl | hc := hc
  · exact hdecimal _ c hc
  · decide
  · exact hdecimal _ c hc
  · decide
  · exact hdecimal _ c hc

/-- What a bump makes of the three numbers. -/
def BumpKind.core : BumpKind → ℕ × ℕ × ℕ → ℕ × ℕ × ℕ
  | .patch,v => (v.1,v.2.1,v.2.2+1)
  | .minor,v => (v.1,v.2.1+1,0)
  | .major,v => (v.1+1,0,0)
  | .pre _,v => v

def BumpKind.suffix : BumpKind → List Char
  | .pre id => '-'::id
  | _ => []

/-- The three numbers fit into their words. -/
def Words (v : ℕ × ℕ × ℕ) : Prop := v.1 < 2^64 ∧ v.2.1 < 2^64 ∧ v.2.2 < 2^64

theorem addOne_ok {n m : ℕ} (h : addOne n = .ok m) : n+1 < 2^64 ∧ m = n+1 := by
  unfold addOne at h
  split at h
  case isTrue hlt => exact ⟨hlt,(Except.ok.inj h).symm⟩
  case isFalse => cases h

theorem apply_ok (ht : Words t) (h : kind.apply t = .ok next) :
    next = formatCore (kind.core t)++kind.suffix ∧ Words (kind.core t) := by
  obtain ⟨hmajor,hminor,hpatch⟩ := ht
  cases kind with
  | patch =>
    obtain ⟨m,hm,hnext⟩ := bind_eq_ok h
    obtain ⟨hlt,rfl⟩ := addOne_ok hm
    exact ⟨(Except.ok.inj hnext).symm.trans (List.append_nil _).symm,hmajor,hminor,hlt⟩
  | minor =>
    obtain ⟨m,hm,hnext⟩ := bind_eq_ok h
    obtain ⟨hlt,rfl⟩ := addOne_ok hm
    exact ⟨(Except.ok.inj hnext).symm.trans (List.append_nil _).symm,hmajor,hlt,Nat.two_pow_pos 64⟩
  | major =>
    obtain ⟨m,hm,hnext⟩ := bind_eq_ok h
    obtain ⟨hlt,rfl⟩ := addOne_ok hm
    exact ⟨(Except.ok.inj hnext).symm.trans (List.append_nil _).symm,hlt,Nat.two_pow_pos 64,Nat.two_pow_pos 64⟩
  | pre id => exact ⟨(Except.ok.inj h).symm,hmajor,hminor,hpatch⟩

theorem parsePart_ok {what : String} {part : List Char} {n : ℕ} (h : parsePart what part = .ok n) : n < 2^64 := by
  unfold parsePart at h
  cases hparse : parseUnsigned 64 part with
  | none =>
    rw [hparse] at h
    cases h
  | some m =>
    rw [hparse] at h
    rw [← Except.ok.inj h]
    exact parseUnsigned_lt hparse

theorem words_of_parseCore (h : parseCore version = .ok t) : Words t := by
  unfold parseCore at h
  split at h
  · obtain ⟨a,ha,h⟩ := bind_eq_ok h
    obtain ⟨b,hb,h⟩ := bind_eq_ok h
    obtain ⟨c,hc,h⟩ := bind_eq_ok h
    obtain rfl := Except.ok.inj h
    exact ⟨parsePart_ok ha,parsePart_ok hb,parsePart_ok hc⟩
  · cases h

theorem parsePart_decimal {n : ℕ} (what : String) (h : n < 2^64) : parsePart what (decimal n) = .ok n := by
  unfold parsePart
  rw [parseUnsigned_decimal h]

/-- A version that is written is read again, whatever stands behind its hyphen. -/
theorem parseCore_formatCore (ht : Words t) (hid : id = [] ∨ ∃ rest, id = '-'::rest) :
    parseCore (formatCore t++id) = .ok t := by
  have hdot : ∀ n, '.' ∉ decimal n := fun n => not_mem_decimal rfl
  have hhyphen : '-' ∉ formatCore t := by
    have hdecimal : ∀ n, '-' ∉ decimal n := fun n => not_mem_decimal rfl
    simp only [formatCore,List.mem_append,List.mem_cons,hdecimal,or_false,false_or]
    decide
  have hcore : corePart (formatCore t++id) = formatCore t := by
    unfold corePart
    obtain rfl | ⟨rest,rfl⟩ := hid
    · have hnone : splitOnce '-' (formatCore t) = none := if_neg hhyphen
      rw [List.append_nil,hnone]
    · rw [splitOnce_append hhyphen]
  have hparts : (formatCore t).splitOn '.' = [decimal t.1,decimal t.2.1,decimal t.2.2] := by
    unfold formatCore
    rw [List.splitOn_append_cons_self_of_not_mem (hdot _),List.splitOn_append_cons_self_of_not_mem (hdot _),
      List.splitOn_eq_singleton (hdot _)]
  obtain ⟨hmajor,hminor,hpatch⟩ := ht
  unfold parseCore
  rw [hcore,hparts]
  dsimp only
  rw [parsePart_decimal _ hmajor,parsePart_decimal _ hminor,parsePart_decimal _ hpatch]
  rfl

theorem semverBump_ok (h : semverBump version kind = .ok next) :
    ∃ t, parseCore version = .ok t ∧ next = formatCore (kind.core t)++kind.suffix ∧
      parseCore next = .ok (kind.core t) := by
  obtain ⟨t,ht,happly⟩ := bind_eq_ok h
  obtain ⟨rfl,hwords⟩ := apply_ok (words_of_parseCore ht) happly
  refine ⟨t,ht,rfl,parseCore_formatCore hwords ?_⟩
  cases kind with
  | pre id => exact .inr ⟨id,rfl⟩
  | _ => exact .inl rfl

theorem nextVersion_ok {arg : String} {rest : List String} (h : nextVersion version arg rest = .ok next) :
    (arg = "--set" ∧ ∃ s ∈ rest, next = s.toList) ∨
      arg ≠ "--set" ∧ ∃ kind, semverBump version kind = .ok next ∧
        ∀ id, kind = .pre id → arg = "--pre" ∧ ∃ s ∈ rest, id = s.toList := by
  unfold nextVersion at h
  split at h
  · exact .inr ⟨by decide,.patch,h,by intro id hid; cases hid⟩
  · exact .inr ⟨by decide,.minor,h,by intro id hid; cases hid⟩
  · exact .inr ⟨by decide,.major,h,by intro id hid; cases hid⟩
  · cases rest with
    | nil => cases h
    | cons s rest =>
      refine .inr ⟨by decide,.pre s.toList,h,?_⟩
      intro id hid
      exact ⟨rfl,s,List.mem_cons_self,(BumpKind.pre.inj hid).symm⟩
  · cases rest with
    | nil => cases h
    | cons s rest => exact .inl ⟨rfl,s,List.mem_cons_self,(Except.ok.inj h).symm⟩
  · cases h

theorem plain_nextVersion {arg : String} {rest : List String} (hrest : ∀ a ∈ rest, PlainVersion a.toList)
    (h : nextVersion version arg rest = .ok next) : PlainVersion next := by
  obtain ⟨-,s,hs,rfl⟩ | ⟨-,kind,hbump,hpre⟩ := nextVersion_ok h
  · exact hrest s hs
  · obtain ⟨t,-,rfl,-⟩ := semverBump_ok hbump
    intro c hc
    rw [List.mem_append] at hc
    obtain hc | hc := hc
    · exact plain_formatCore _ c hc
    · cases kind with
      | pre id =>
        obtain ⟨-,s,hs,rfl⟩ := hpre id rfl
        obtain rfl | hc := List.mem_cons.mp hc
        · decide
        · exact hrest s hs c hc
      | _ => cases hc

/-- One command keeps a manifest, and with it the versions that its crates require of each other. -/
theorem Manifest.bump {args : List String} (h : Manifest text old) (hargs : ∀ a ∈ args, PlainVersion a.toList)
    (hbump : Xtask.bump args text = .ok out) :
    ∃ arg rest next, args = arg::rest ∧ nextVersion old arg rest = .ok next ∧ Manifest out next ∧ Kept text out := by
  cases args with
  | nil => cases hbump
  | cons arg rest =>
    rw [List.forall_mem_cons] at hargs
    obtain ⟨current,hread,hbump⟩ := bind_eq_ok hbump
    obtain ⟨next,hnext,hbump⟩ := bind_eq_ok hbump
    obtain rfl := Except.ok.inj (hread.symm.trans h.read)
    obtain ⟨written,hwritten,hout⟩ := bind_eq_ok hbump
    obtain ⟨written',hwritten',hkept⟩ := h.write (plain_nextVersion hargs.2 hnext)
    obtain rfl := Except.ok.inj (hwritten.symm.trans hwritten')
    obtain rfl := Except.ok.inj hout
    exact ⟨arg,rest,next,rfl,hnext,hkept⟩

end Next

section Runs
variable {runs : List (List String)}

/-- After any commands in a row the crates require of each other the version that is read, and all else is
as it was. -/
theorem bumps_lockstep (h : Manifest text old) (hargs : ∀ args ∈ runs, ∀ a ∈ args, PlainVersion a.toList)
    (hrun : bumps runs text = .ok out) : ∃ version, Manifest out version ∧ Kept text out := by
  induction runs generalizing text old with
  | nil =>
    obtain rfl := Except.ok.inj hrun
    exact ⟨old,h,Kept.refl text⟩
  | cons args runs ih =>
    rw [List.forall_mem_cons] at hargs
    obtain ⟨mid,hbump,hrest⟩ := bind_eq_ok hrun
    obtain ⟨arg,rest,next,-,-,hmid,hkept⟩ := h.bump hargs.1 hbump
    obtain ⟨version,hout,hkept'⟩ := ih hmid hargs.2 hrest
    exact ⟨version,hout,hkept.trans hkept'⟩

theorem plainVersion_of_all (version : List Char)
    (h : (version.all fun c => decide (c ∉ ['\"','\'','\n','=','['])) = true) : PlainVersion version := by
  intro c hc
  exact of_decide_eq_true (List.all_eq_true.mp h c hc)

def smallText : List Char := ("[workspace.package]\nversion = \"0.9.0\"\n[workspace.dependencies]\n"++
  "a = \x7bpath = \"crates/a\",version = \"0.9.0\"\x7d\n").toList

def smallOut : List Char := ("[workspace.package]\nversion       = \"0.10.0-rc.1\"\n[workspace.dependencies]\n"++
  "a = \x7bpath = \"crates/a\",version = \"0.10.0-rc.1\"\x7d\n").toList

def smallRuns : List (List String) := [["minor"],["--pre","rc.1"]]

theorem manifest_small : Manifest smallText "0.9.0".toList where
  read := by decide +kernel
  first := by
    have hnil : ((smallText.drop 0).take 20).rtakeWhile (· ≠ '\n') = [] := by decide +kernel
    refine ⟨0,20,by decide +kernel,by decide +kernel,?_⟩
    intro c hc
    rw [hnil] at hc
    cases hc
  behind := by
    have hline : versionLine smallText = some 1 := by decide +kernel
    have hall : (((smallText.splitOn '\n').take 2).all fun l => !contains l depsHeader) = true := by decide +kernel
    intro k hk l hl hin
    rw [hline,Option.some_inj] at hk
    rw [← hk] at hl
    have hnot := List.all_eq_true.mp hall l hl
    rw [contains_iff.mpr hin] at hnot
    cases hnot
  plain := plainVersion_of_all _ (by decide)
  lockstep := by
    have hpins : pins smallText = ["0.9.0".toList] := by decide +kernel
    intro v hv
    rw [hpins] at hv
    exact List.mem_singleton.mp hv

theorem plain_smallRuns : ∀ args ∈ smallRuns, ∀ a ∈ args, PlainVersion a.toList := by
  have hall : (smallRuns.all fun args => args.all fun a => a.toList.all fun c =>
      decide (c ∉ ['\"','\'','\n','=','['])) = true := by decide
  intro args hargs a ha
  exact plainVersion_of_all _ (List.all_eq_true.mp (List.all_eq_true.mp hall args hargs) a ha)

theorem no_set_smallRuns : ∀ args ∈ smallRuns, args.head? ≠ some "--set" := by
  have hall : (smallRuns.all fun args => decide (args.head? ≠ some "--set")) = true := by decide
  intro args hargs
  exact of_decide_eq_true (List.all_eq_true.mp hall args hargs)

theorem bumps_smallRuns : bumps smallRuns smallText = .ok smallOut := by decide +kernel

theorem bumps_lockstep_small : ∃ version, Manifest smallOut version ∧ Kept smallText smallOut :=
  bumps_lockstep manifest_small plain_smallRuns bumps_smallRuns

/-- A later version. -/
def Newer (t u : ℕ × ℕ × ℕ) : Prop :=
  t.1 < u.1 ∨ t.1 = u.1 ∧ (t.2.1 < u.2.1 ∨ t.2.1 = u.2.1 ∧ t.2.2 < u.2.2)

theorem Newer.trans {t u v : ℕ × ℕ × ℕ} (h : Newer t u) (h' : Newer u v) : Newer t v := by
  unfold Newer at h h' ⊢
  omega

theorem newer_core {kind : BumpKind} (hkind : ∀ id, kind ≠ .pre id) (t : ℕ × ℕ × ℕ) : Newer t (kind.core t) := by
  cases kind with
  | patch => exact .inr ⟨rfl,.inr ⟨rfl,Nat.lt_succ_self _⟩⟩
  | minor => exact .inr ⟨rfl,.inl (Nat.lt_succ_self _)⟩
  | major => exact .inl (Nat.lt_succ_self _)
  | pre id => exact absurd rfl (hkind id)

/-- Commands that set no version never go back, and go forward as soon as one of them is no prerelease. -/
theorem bumps_raise {t : ℕ × ℕ × ℕ} (h : Manifest text old) (ht : parseCore old = .ok t)
    (hargs : ∀ args ∈ runs, ∀ a ∈ args, PlainVersion a.toList) (hset : ∀ args ∈ runs, args.head? ≠ some "--set")
    (hrun : bumps runs text = .ok out) :
    ∃ version u, readWorkspaceVersion "Cargo.toml" out = .ok version ∧ parseCore version = .ok u ∧
      (u = t ∨ Newer t u) ∧
      ((∃ args ∈ runs, args.head? ≠ some "--pre") → Newer t u) := by
  induction runs generalizing text old t with
  | nil =>
    obtain rfl := Except.ok.inj hrun
    refine ⟨old,t,h.read,ht,.inl rfl,?_⟩
    intro hsome
    obtain ⟨args,hmem,-⟩ := hsome
    cases hmem
  | cons args runs ih =>
    rw [List.forall_mem_cons] at hargs hset
    obtain ⟨mid,hbump,hrest⟩ := bind_eq_ok hrun
    obtain ⟨arg,rest,next,rfl,hnext,hmid,-⟩ := h.bump hargs.1 hbump
    obtain ⟨heq,-⟩ | ⟨-,kind,hsemver,hpre⟩ := nextVersion_ok hnext
    · exact absurd (congrArg some heq) hset.1
    obtain ⟨s,hs,-,hcore⟩ := semverBump_ok hsemver
    obtain rfl := Except.ok.inj (hs.symm.trans ht)
    obtain ⟨version,u,hread,hu,hle,hlt⟩ := ih hmid hcore hargs.2 hset.2 hrest
    refine ⟨version,u,hread,hu,?_,?_⟩
    · by_cases hkind : ∃ id, kind = .pre id
      · obtain ⟨id,rfl⟩ := hkind
        exact hle
      · have hnewer := newer_core (fun id hid => hkind ⟨id,hid⟩) s
        obtain rfl | hlater := hle
        · exact .inr hnewer
        · exact .inr (hnewer.trans hlater)
    · intro hsome
      obtain ⟨args,hmem,hhead⟩ := hsome
      by_cases hkind : ∃ id, kind = .pre id
      · obtain ⟨id,rfl⟩ := hkind
        obtain rfl | hmem := List.mem_cons.mp hmem
        · exact absurd (congrArg some (hpre id rfl).1) hhead
        · exact hlt ⟨args,hmem,hhead⟩
      · have hnewer := newer_core (fun id hid => hkind ⟨id,hid⟩) s
        obtain rfl | hlater := hle
        · exact hnewer
        · exact hnewer.trans hlater

theorem bumps_raise_small :
    ∃ version u, readWorkspaceVersion "Cargo.toml" smallOut = .ok version ∧ parseCore version = .ok u ∧
      (u = (0,9,0) ∨ Newer (0,9,0) u) ∧ ((∃ args ∈ smallRuns, args.head? ≠ some "--pre") → Newer (0,9,0) u) :=
  bumps_raise manifest_small (by decide +kernel) plain_smallRuns no_set_smallRuns bumps_smallRuns

end Runs

end RakkaInference.Xtask
