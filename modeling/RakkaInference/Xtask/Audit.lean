import RakkaInference.Machine.Decimal
import RakkaInference.Machine.Quoted
import RakkaInference.Xtask.ReleaseRead

/-! The audit of the workspace: what it counts in the sources, how the counts are written as a baseline and read
back, and what it refuses. Texts are lists of characters. -/
namespace RakkaInference.Xtask
open Machine

@[ext] structure CrateCounts where
  files : ℕ := 0
  loc : ℕ := 0
  unwrapUsed : ℕ := 0
  expectUsed : ℕ := 0
  panicMacro : ℕ := 0
  todoMacro : ℕ := 0
  unimplementedMacro : ℕ := 0
  boxDynAny : ℕ := 0
  placeholderMarker : ℕ := 0
  stubComment : ℕ := 0
  placeholderComment : ℕ := 0
  printlnMacro : ℕ := 0
  eprintlnMacro : ℕ := 0
  dbgMacro : ℕ := 0
  deriving DecidableEq

namespace CrateCounts

def add (c d : CrateCounts) : CrateCounts where
  files := c.files+d.files
  loc := c.loc+d.loc
  unwrapUsed := c.unwrapUsed+d.unwrapUsed
  expectUsed := c.expectUsed+d.expectUsed
  panicMacro := c.panicMacro+d.panicMacro
  todoMacro := c.todoMacro+d.todoMacro
  unimplementedMacro := c.unimplementedMacro+d.unimplementedMacro
  boxDynAny := c.boxDynAny+d.boxDynAny
  placeholderMarker := c.placeholderMarker+d.placeholderMarker
  stubComment := c.stubComment+d.stubComment
  placeholderComment := c.placeholderComment+d.placeholderComment
  printlnMacro := c.printlnMacro+d.printlnMacro
  eprintlnMacro := c.eprintlnMacro+d.eprintlnMacro
  dbgMacro := c.dbgMacro+d.dbgMacro

/-- The metrics that the baseline is checked for, in that order. -/
def checked (c : CrateCounts) : List (String × ℕ) :=
  [("unwrap_used",c.unwrapUsed),("expect_used",c.expectUsed),("panic_macro",c.panicMacro),("todo_macro",c.todoMacro),
    ("unimplemented_macro",c.unimplementedMacro),("box_dyn_any",c.boxDynAny),
    ("placeholder_marker",c.placeholderMarker),("stub_comment",c.stubComment),
    ("placeholder_comment",c.placeholderComment),("println_macro",c.printlnMacro),("eprintln_macro",c.eprintlnMacro),
    ("dbg_macro",c.dbgMacro)]

def kvs (c : CrateCounts) : List (String × ℕ) := ("files",c.files)::("loc",c.loc)::c.checked

/-- Other keys are ignored. -/
def set (c : CrateCounts) (k : String) (v : ℕ) : CrateCounts :=
  match k with
  | "files" => { c with files := v }
  | "loc" => { c with loc := v }
  | "unwrap_used" => { c with unwrapUsed := v }
  | "expect_used" => { c with expectUsed := v }
  | "panic_macro" => { c with panicMacro := v }
  | "todo_macro" => { c with todoMacro := v }
  | "unimplemented_macro" => { c with unimplementedMacro := v }
  | "box_dyn_any" => { c with boxDynAny := v }
  | "placeholder_marker" => { c with placeholderMarker := v }
  | "stub_comment" => { c with stubComment := v }
  | "placeholder_comment" => { c with placeholderComment := v }
  | "println_macro" => { c with printlnMacro := v }
  | "eprintln_macro" => { c with eprintlnMacro := v }
  | "dbg_macro" => { c with dbgMacro := v }
  | _ => c

end CrateCounts

def quoted (s : List Char) : List Char := '"'::(s++['"'])

/-- The counts, one on a line, with a comma between. -/
def writeCounts (c : CrateCounts) (indent : List Char) : List Char :=
  [','].intercalate (c.kvs.map fun kv => '\n'::(indent++(quoted kv.1.toList++(": ".toList++decimal kv.2))))

/-- `per_crate` is the map in the order of its iteration. -/
def auditJson (perCrate : List (List Char × CrateCounts)) (total : CrateCounts) : List Char :=
  "\x7b\n  \"crates\": \x7b".toList++
  [','].intercalate (perCrate.map fun p =>
    "\n    ".toList++(quoted p.1++(": \x7b".toList++(writeCounts p.2 "      ".toList++"\n    \x7d".toList))))++
  "\n  \x7d,\n  \"total\": \x7b".toList++writeCounts total "    ".toList++"\n  \x7d\n\x7d\n".toList

/-- One `key: value` of the body; a piece with no colon says nothing, a value that is no number is an error. -/
def readCount (c : CrateCounts) (token : List Char) : Option CrateCounts :=
  match splitOnce ':' (trim token) with
  | none => some c
  | some (k,v) => (parseUnsigned 64 (trim v)).map fun v => c.set (String.ofList (trimMatches '"' (trim k))) v

def parseJsonCrate (text crateName : List Char) : Option CrateCounts := do
  let key := quoted crateName++[':']
  let start ← find key text
  let after := text.drop (start+key.length)
  let opened ← find ['\x7b'] after
  let closed ← find ['\x7d'] (after.drop opened)
  let body := (after.take (opened+closed)).drop (opened+1)
  (body.splitOn ',').foldlM readCount {}

def checkMetric (crateName : List Char) (metric : String) (current baseline : ℕ) : List String :=
  if baseline < current then
    [s!"{String.ofList crateName}: {metric} {baseline} -> {current} (+{current-baseline})"]
  else []

/-- The regressions of all crates; a crate that the baseline does not have is compared with zeros. -/
def regressions (perCrate : List (List Char × CrateCounts)) (baselineText : List Char) : List String :=
  perCrate.flatMap fun p =>
    let baseline := (parseJsonCrate baselineText p.1).getD {}
    (p.2.checked.zip baseline.checked).flatMap fun m => checkMetric p.1 m.1.1 m.1.2 m.2.2

/-- `--check` of the audit. -/
def auditCheck (perCrate : List (List Char × CrateCounts)) (baselineText : List Char) : Except String Unit :=
  let found := regressions perCrate baselineText
  if found = [] then .ok () else .error s!"{found.length} audit regression(s)"

end RakkaInference.Xtask
