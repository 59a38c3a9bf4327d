import RakkaInference.Xtask.Audit

/-! What the audit counts in a file. The scan goes by lines and follows the braces, so as to leave out the modules
that are only there for tests. -/
namespace RakkaInference.Xtask
open Machine

/-- `i32::MAX`, where no test module has begun. -/
def noDepth : ℤ := 2147483647

/-- Where the scan is among the braces of the file. -/
@[ext] structure Place where
  inTestModule : Bool := false
  depth : ℤ := 0
  testDepthStart : ℤ := noDepth

namespace Place

def brace (p : Place) (ch : Char) : Place :=
  if ch = '\x7b' then { p with depth := p.depth+1 }
  else if ch = '\x7d' then
    if p.inTestModule && p.depth-1 ≤ p.testDepthStart then ⟨false,p.depth-1,noDepth⟩
    else { p with depth := p.depth-1 }
  else p

def cfgTest : List Char := "#[cfg(test)]".toList

/-- The attribute before the braces of its line. -/
def enter (p : Place) (rawLine : List Char) : Place :=
  if cfgTest.isPrefixOf (trimStart rawLine) then { p with testDepthStart := p.depth, inTestModule := true } else p

def line (p : Place) (rawLine : List Char) : Place := rawLine.foldl brace (p.enter rawLine)

end Place

def contains (line needle : List Char) : Bool := (find needle line).isSome

section Scan
variable (isAlphanumeric : Char → Bool)

/-- Only the first occurrence is looked at. -/
def containsMacro (line needle : List Char) : Bool :=
  match find needle line with
  | some idx =>
    match (line.take idx).getLast? with
    | none => true
    | some c => !isAlphanumeric c && c != '_'
  | none => false

/-- What one line adds; `line` is without the white space before it. -/
def lineCounts (line : List Char) (inTestModule : Bool) : CrateCounts :=
  let isComment := "//".toList.isPrefixOf line
  let code := !isComment && !inTestModule
  let lower := line.map Char.toLower
  { loc := 1
    unwrapUsed := (code && contains line ".unwrap(".toList).toNat
    expectUsed := (code && contains line ".expect(".toList).toNat
    panicMacro := (code && containsMacro isAlphanumeric line "panic!".toList).toNat
    todoMacro := (code && containsMacro isAlphanumeric line "todo!".toList).toNat
    unimplementedMacro := (code && containsMacro isAlphanumeric line "unimplemented!".toList).toNat
    boxDynAny := (code && contains line "Box<dyn Any".toList).toNat
    printlnMacro := (code && containsMacro isAlphanumeric line "println!".toList).toNat
    eprintlnMacro := (code && containsMacro isAlphanumeric line "eprintln!".toList).toNat
    dbgMacro := (code && containsMacro isAlphanumeric line "dbg!".toList).toNat
    placeholderMarker := (contains line "__placeholder__".toList).toNat
    stubComment := (isComment && contains lower "// stub".toList).toNat
    placeholderComment := (isComment && contains lower "// placeholder".toList).toNat }

def scanLine (s : Place × CrateCounts) (rawLine : List Char) : Place × CrateCounts :=
  (s.1.line rawLine,s.2.add (lineCounts isAlphanumeric (trimStart rawLine) (s.1.line rawLine).inTestModule))

def scanFile (text : List Char) (counts : CrateCounts) : CrateCounts :=
  ((lines text).foldl (scanLine isAlphanumeric) ({},{ counts with files := counts.files+1 })).2

/-- What lines add from a place on. -/
def tally : Place → List (List Char) → CrateCounts
  | _,[] => {}
  | p,l::ls => (lineCounts isAlphanumeric (trimStart l) (p.line l).inTestModule).add (tally (p.line l) ls)

/-- The files of a crate, in the order in which the directories are read. -/
def auditCrate (files : List (List Char)) : CrateCounts :=
  files.foldl (fun counts text => scanFile isAlphanumeric text counts) {}

end Scan

namespace CrateCounts
variable (c d e : CrateCounts)

@[simp] theorem add_zero : c.add {} = c := rfl

@[simp] theorem zero_add : ({} : CrateCounts).add c = c := by
  ext <;> simp [add]

theorem add_assoc : (c.add d).add e = c.add (d.add e) := by
  ext <;> simp [add,Nat.add_assoc]

theorem add_comm : c.add d = d.add c := by
  ext <;> simp [add,Nat.add_comm]

/-- The metrics that code in test modules is excused from. -/
def sentinels : CrateCounts :=
  { c with files := 0, loc := 0, placeholderMarker := 0, stubComment := 0, placeholderComment := 0 }

theorem sentinels_add : (c.add d).sentinels = c.sentinels.add d.sentinels := rfl

end CrateCounts

section Law
variable {isAlphanumeric : Char → Bool} {p : Place} {l : List Char} {ls : List (List Char)}

theorem foldl_scanLine (ls : List (List Char)) (p : Place) (c : CrateCounts) :
    ls.foldl (scanLine isAlphanumeric) (p,c) = (ls.foldl Place.line p,c.add (tally isAlphanumeric p ls)) := by
  induction ls generalizing p c with
  | nil => rfl
  | cons l ls ih =>
    rw [List.foldl_cons,List.foldl_cons,scanLine,ih,tally,CrateCounts.add_assoc]

theorem tally_append (p : Place) (as bs : List (List Char)) : tally isAlphanumeric p (as++bs) =
    (tally isAlphanumeric p as).add (tally isAlphanumeric (as.foldl Place.line p) bs) := by
  induction as generalizing p with
  | nil => simp [tally]
  | cons a as ih => rw [List.cons_append,tally,ih,tally,CrateCounts.add_assoc,List.foldl_cons]

/-- How many more braces are opened than closed. -/
def net : List Char → ℤ
  | [] => 0
  | c::s => (if c = '\x7b' then 1 else if c = '\x7d' then -1 else 0)+net s

theorem net_append (s t : List Char) : net (s++t) = net s+net t := by
  induction s with
  | nil => simp [net]
  | cons c s ih => rw [List.cons_append,net,ih,net,Int.add_assoc]

/-- Each closing brace leaves one open above the depth. -/
def Above (n : ℤ) (s : List Char) : Prop := ∀ pre, pre++['\x7d'] <+: s → 1 ≤ n+net (pre++['\x7d'])

theorem Above.tail {n : ℤ} {s t : List Char} (h : Above n (s++t)) : Above (n+net s) t := by
  intro pre hpre
  have hone := h (s++pre) (by rw [List.append_assoc]; exact (List.prefix_append_right_inj s).mpr hpre)
  rw [List.append_assoc,net_append] at hone
  omega

/-- The same by the places of the closing braces. -/
theorem above_of_take {n : ℤ} {s : List Char}
    (h : ∀ k < s.length, s[k]? = some '\x7d' → 1 ≤ n+net (s.take (k+1))) : Above n s := by
  rintro pre ⟨post,rfl⟩
  have hone := h pre.length (by simp) (by simp)
  have htake : (pre++['\x7d']++post).take (pre.length+1) = pre++['\x7d'] := by
    have hlen : pre.length+1 = (pre++['\x7d']).length := by simp
    rw [hlen,List.take_left]
  rwa [htake] at hone

/-- While the braces of the module are open the scan only follows the depth. -/
theorem foldl_brace (s : List Char) {p : Place} (hin : p.inTestModule = true)
    (h : Above (p.depth-p.testDepthStart) s) : s.foldl Place.brace p = { p with depth := p.depth+net s } := by
  induction s generalizing p with
  | nil => simp [net]
  | cons ch s ih =>
    have htail : Above (p.depth-p.testDepthStart+net [ch]) s := Above.tail (s := [ch]) h
    have hstep : p.brace ch = { p with depth := p.depth+net [ch] } := by
      by_cases hopen : ch = '\x7b'
      · simp [Place.brace,hopen,net]
      · by_cases hclose : ch = '\x7d'
        · have hone := h [] (by simp [hclose])
          have hgt : ¬p.depth-1 ≤ p.testDepthStart := by
            simp [net] at hone
            omega
          subst hclose
          simp [Place.brace,net,hgt]
          omega
        · simp [Place.brace,hopen,hclose,net]
    have hnet : net (ch::s) = net [ch]+net s := net_append [ch] s
    rw [List.foldl_cons,hstep,ih]
    · simp only [hnet,Int.add_assoc]
    · exact hin
    · simp only
      have heq : p.depth-p.testDepthStart+net [ch] = p.depth+net [ch]-p.testDepthStart := by omega
      rwa [heq] at htail

theorem enter_of_not (h : ¬Place.cfgTest <+: trimStart l) : p.enter l = p :=
  if_neg fun hat => h (List.isPrefixOf_iff_prefix.mp hat)

/-- Code in a test module counts in none of the sentinels. -/
theorem sentinels_inTest (line : List Char) : (lineCounts isAlphanumeric line true).sentinels = {} := by
  simp [lineCounts,CrateCounts.sentinels]

/-- The lines between the attribute and the last brace. -/
theorem tally_body {body : List (List Char)} (hin : p.inTestModule = true)
    (hbody : ∀ l ∈ body, ¬Place.cfgTest <+: trimStart l) (h : Above (p.depth-p.testDepthStart) body.flatten) :
    body.foldl Place.line p = { p with depth := p.depth+net body.flatten } ∧
      (tally isAlphanumeric p body).sentinels = {} := by
  induction body generalizing p with
  | nil => simp [net,tally,CrateCounts.sentinels]
  | cons l body ih =>
    rw [List.forall_mem_cons] at hbody
    rw [List.flatten_cons] at h
    have hl : Above (p.depth-p.testDepthStart) l := fun pre hpre => h pre (hpre.trans (List.prefix_append l _))
    have hline : p.line l = { p with depth := p.depth+net l } := by
      rw [Place.line,enter_of_not hbody.1,foldl_brace l hin hl]
    have hrest := ih (p := p.line l) (by rw [hline]; exact hin) hbody.2 (by
      have htail := h.tail
      have heq : p.depth-p.testDepthStart+net l = p.depth+net l-p.testDepthStart := by omega
      rw [hline]
      rwa [heq] at htail)
    refine ⟨?_,?_⟩
    · rw [List.foldl_cons,hrest.1,hline,List.flatten_cons,net_append,Int.add_assoc]
    · have htest : (p.line l).inTestModule = true := by rw [hline]; exact hin
      rw [tally,CrateCounts.sentinels_add,htest,sentinels_inTest,hrest.2]
      rfl

/-- A test module as the scan knows it: the attribute, lines in which each closing brace leaves one open, and the
brace that closes the module on a line of its own. -/
structure TestModule (ls : List (List Char)) : Prop where
  shape : ∃ marker body ws, ls = marker::(body++[ws++['\x7d']]) ∧ Place.cfgTest <+: trimStart marker ∧
    (∀ l ∈ body, ¬Place.cfgTest <+: trimStart l) ∧ (∀ c ∈ ws, isWhitespace c) ∧
    Above 0 (marker::body).flatten ∧ net (marker::body).flatten = 1
  plain : ∀ l ∈ ls, '\n' ∉ l ∧ '\r' ∉ l

theorem foldl_brace_whitespace {ws : List Char} (hws : ∀ c ∈ ws, isWhitespace c) (p : Place) :
    ws.foldl Place.brace p = p := by
  induction ws with
  | nil => rfl
  | cons c ws ih =>
    rw [List.forall_mem_cons] at hws
    have hopen : c ≠ '\x7b' := by rintro rfl; exact absurd hws.1 Bool.false_ne_true
    have hclose : c ≠ '\x7d' := by rintro rfl; exact absurd hws.1 Bool.false_ne_true
    rw [List.foldl_cons,Place.brace,if_neg hopen,if_neg hclose]
    exact ih hws.2

/-- The last brace ends the module, and its line has nothing that counts. -/
theorem line_closing {ws : List Char} (hws : ∀ c ∈ ws, isWhitespace c) (hin : p.inTestModule = true)
    (hdepth : p.depth = p.testDepthStart+1) : p.line (ws++['\x7d']) = ⟨false,p.testDepthStart,noDepth⟩ := by
  have htrim : trimStart (ws++['\x7d']) = ['\x7d'] := by
    rw [trimStart_of_forall hws]
    decide
  rw [Place.line,enter_of_not (by rw [htrim]; decide),List.foldl_append,foldl_brace_whitespace hws]
  simp [Place.brace,hin,hdepth]

theorem sentinels_closing {ws : List Char} (hws : ∀ c ∈ ws, isWhitespace c) (b : Bool) :
    (lineCounts isAlphanumeric (trimStart (ws++['\x7d'])) b).sentinels = {} := by
  have htrim : trimStart (ws++['\x7d']) = ['\x7d'] := by
    rw [trimStart_of_forall hws]
    decide
  have hfind : ∀ needle : List Char, 2 ≤ needle.length → find needle ['\x7d'] = none := by
    intro needle hlen
    cases hf : find needle ['\x7d'] with
    | none => rfl
    | some i =>
      obtain ⟨a,b,heq,-⟩ := exists_of_find hf
      have hsum := congrArg List.length heq
      simp at hsum
      omega
  rw [htrim]
  simp [lineCounts,CrateCounts.sentinels,contains,containsMacro,hfind]

/-- The scan comes out of a test module where it went in, and has counted nothing in it. -/
theorem tally_testModule (hls : TestModule ls) (hout : p.inTestModule = false)
    (hstart : p.testDepthStart = noDepth) :
    ls.foldl Place.line p = p ∧ (tally isAlphanumeric p ls).sentinels = {} := by
  obtain ⟨marker,body,ws,rfl,hmarker,hbody,hws,habove,hnet⟩ := hls.shape
  have henter : p.enter marker = { p with testDepthStart := p.depth, inTestModule := true } :=
    if_pos (List.isPrefixOf_iff_prefix.mpr hmarker)
  rw [List.flatten_cons] at habove hnet
  have hfirst : p.line marker = ⟨true,p.depth+net marker,p.depth⟩ := by
    rw [Place.line,henter,foldl_brace marker rfl]
    simp only [Int.sub_self]
    exact fun pre hpre => habove pre (hpre.trans (List.prefix_append marker _))
  have hin : (p.line marker).inTestModule = true := by rw [hfirst]
  have htail : Above ((p.line marker).depth-(p.line marker).testDepthStart) body.flatten := by
    have heq : p.depth+net marker-p.depth = 0+net marker := by omega
    rw [hfirst]
    simp only [heq]
    exact habove.tail
  obtain ⟨hplace,hcount⟩ : _ ∧ (tally isAlphanumeric (p.line marker) body).sentinels = {} :=
    tally_body hin hbody htail
  rw [net_append] at hnet
  have hlast : (body.foldl Place.line (p.line marker)).line (ws++['\x7d']) = p := by
    rw [hplace,hfirst,line_closing hws rfl (by simp only; omega)]
    ext
    · exact hout.symm
    · rfl
    · exact hstart.symm
  refine ⟨?_,?_⟩
  · rw [List.foldl_cons,List.foldl_append]
    exact hlast
  · rw [tally,tally_append,tally,CrateCounts.sentinels_add,CrateCounts.sentinels_add,CrateCounts.sentinels_add,
      hcount,sentinels_closing hws,hin,sentinels_inTest]
    rfl

/-- Whole lines. -/
def unlines (ls : List (List Char)) : List Char := ls.flatMap fun l => l++['\n']

theorem lines_unlines (h : ∀ l ∈ ls, '\n' ∉ l) (s : List Char) :
    lines (unlines ls++s) = ls.map (fun l => stripNewline (l++['\n']))++lines s := by
  induction ls with
  | nil => rfl
  | cons l ls ih =>
    rw [List.forall_mem_cons] at h
    have hrest := ih h.2
    have hsplit : unlines (l::ls)++s = l++ '\n'::(unlines ls++s) := by simp [unlines]
    rw [hsplit,lines,splitInclusive_line h.1,List.map_cons,List.map_cons,List.cons_append,← hrest]
    rfl

theorem stripNewline_plain (h : '\r' ∉ l) : stripNewline (l++['\n']) = l := by
  rcases stripNewline_line l with heq | ⟨l',rfl,-⟩
  · exact heq
  · simp at h

/-- Where no test module is open there is no depth for one to end at. -/
theorem brace_start (h : p.inTestModule = false → p.testDepthStart = noDepth) (c : Char) :
    (p.brace c).inTestModule = false → (p.brace c).testDepthStart = noDepth := by
  unfold Place.brace
  split
  · exact h
  · split
    · split
      · exact fun _ => rfl
      · exact h
    · exact h

theorem line_start (h : p.inTestModule = false → p.testDepthStart = noDepth) (l : List Char) :
    (p.line l).inTestModule = false → (p.line l).testDepthStart = noDepth := by
  have henter : (p.enter l).inTestModule = false → (p.enter l).testDepthStart = noDepth := by
    unfold Place.enter
    split
    · intro hfalse
      contradiction
    · exact h
  unfold Place.line
  generalize p.enter l = q at henter
  induction l generalizing q with
  | nil => exact henter
  | cons c l ih => exact ih (q.brace c) (brace_start henter c)

theorem foldl_line_start (h : p.inTestModule = false → p.testDepthStart = noDepth) :
    (ls.foldl Place.line p).inTestModule = false → (ls.foldl Place.line p).testDepthStart = noDepth := by
  induction ls generalizing p with
  | nil => exact h
  | cons l ls ih => exact ih (line_start h l)

/-- Test modules do not count: a module for tests that is put after any whole lines of a file, none of them in a test
module, changes no sentinel of the file, whatever comes after it. -/
theorem scanFile_testModule {as : List (List Char)} (has : ∀ l ∈ as, '\n' ∉ l) (hls : TestModule ls)
    (hout : ((lines (unlines as)).foldl Place.line {}).inTestModule = false) (rest : List Char)
    (counts : CrateCounts) :
    (scanFile isAlphanumeric (unlines as++(unlines ls++rest)) counts).sentinels =
      (scanFile isAlphanumeric (unlines as++rest) counts).sentinels := by
  have hlines : ∀ s, lines (unlines as++s) = lines (unlines as)++lines s := by
    intro s
    have hnil := lines_unlines has []
    rw [List.append_nil] at hnil
    rw [lines_unlines has s,hnil,List.append_assoc]
    rfl
  have hmodule : lines (unlines ls++rest) = ls++lines rest := by
    rw [lines_unlines fun l hl => (hls.plain l hl).1]
    congr 1
    exact (List.map_congr_left fun l hl => stripNewline_plain (hls.plain l hl).2).trans (List.map_id ls)
  have hstart : ((lines (unlines as)).foldl Place.line {}).testDepthStart = noDepth :=
    foldl_line_start (fun _ => rfl) hout
  obtain ⟨hplace,hcount⟩ : _ ∧ (tally isAlphanumeric _ ls).sentinels = {} := tally_testModule hls hout hstart
  unfold scanFile
  rw [hlines,hlines,hmodule,foldl_scanLine,foldl_scanLine]
  simp only [tally_append,CrateCounts.sentinels_add,hcount,hplace,CrateCounts.zero_add]

/-- A test module after a line of code, and code after it. -/
theorem scanFile_testModule_small :
    let tests : List (List Char) :=
      ["#[cfg(test)]".toList,"mod tests \x7b".toList,"    fn t() \x7b x.unwrap(); \x7d".toList,"\x7d".toList]
    (scanFile Char.isAlphanum (unlines ["a.unwrap();".toList]++(unlines tests++"b.expect();".toList)) {}).sentinels =
      (scanFile Char.isAlphanum (unlines ["a.unwrap();".toList]++"b.expect();".toList) {}).sentinels := by
  intro tests
  have habove : Above 0 (tests.take 3).flatten := above_of_take (by decide)
  have hmodule : TestModule tests :=
    ⟨⟨"#[cfg(test)]".toList,(tests.take 3).tail,[],rfl,by decide,by decide,by simp,habove,by decide⟩,by decide⟩
  exact scanFile_testModule (by decide) hmodule (by decide) _ _

theorem scanFile_eq (text : List Char) (counts : CrateCounts) :
    scanFile isAlphanumeric text counts =
      counts.add (CrateCounts.add { files := 1 } (tally isAlphanumeric {} (lines text))) := by
  have hfiles : ({ counts with files := counts.files+1 } : CrateCounts) = counts.add { files := 1 } := rfl
  rw [scanFile,foldl_scanLine,hfiles,CrateCounts.add_assoc]

/-- The order of a directory does not matter. -/
theorem auditCrate_perm {files files' : List (List Char)} (h : files.Perm files') :
    auditCrate isAlphanumeric files = auditCrate isAlphanumeric files' := by
  apply List.Perm.foldl_eq' h
  intro x _ y _ c
  rw [scanFile_eq x c,scanFile_eq y c,scanFile_eq,scanFile_eq]
  generalize CrateCounts.add { files := 1 } (tally isAlphanumeric {} (lines x)) = m
  generalize CrateCounts.add { files := 1 } (tally isAlphanumeric {} (lines y)) = n
  rw [CrateCounts.add_assoc,CrateCounts.add_assoc,CrateCounts.add_comm m n]

end Law
end RakkaInference.Xtask
