import RakkaInference.Machine.Decimal
import RakkaInference.Machine.Replace
import RakkaInference.Xtask.AuditScan

/-! Bumping the version of the workspace, and with it the versions of its own crates among the dependencies. -/
namespace RakkaInference.Xtask
open Machine

inductive BumpKind
  | patch
  | minor
  | major
  | pre (id : List Char)

/-- MAJOR.MINOR.PATCH -/
def formatCore (v : ℕ × ℕ × ℕ) : List Char := decimal v.1++ '.'::(decimal v.2.1++ '.'::decimal v.2.2)

/-- `+= 1` of a debug build, which does not wrap. -/
def addOne (n : ℕ) : Except String ℕ := if n+1 < 2^64 then .ok (n+1) else .error "attempt to add with overflow"

def parsePart (what : String) (part : List Char) : Except String ℕ :=
  match parseUnsigned 64 part with
  | some n => .ok n
  | none => .error what

/-- What stands before the first hyphen. -/
def corePart (current : List Char) : List Char :=
  match splitOnce '-' current with
  | some (c,_) => c
  | none => current

/-- The three numbers of a version. -/
def parseCore (current : List Char) : Except String (ℕ × ℕ × ℕ) :=
  match (corePart current).splitOn '.' with
  | [a,b,c] => do
    let major ← parsePart "major" a
    let minor ← parsePart "minor" b
    let patch ← parsePart "patch" c
    return (major,minor,patch)
  | _ =>
    let version := String.ofList current
    .error s!"version `{version}` is not MAJOR.MINOR.PATCH"

def BumpKind.apply (v : ℕ × ℕ × ℕ) : BumpKind → Except String (List Char)
  | .patch => do
    let patch ← addOne v.2.2
    return formatCore (v.1,v.2.1,patch)
  | .minor => do
    let minor ← addOne v.2.1
    return formatCore (v.1,minor,0)
  | .major => do
    let major ← addOne v.1
    return formatCore (major,0,0)
  | .pre id => return formatCore v++ '-'::id

def semverBump (current : List Char) (kind : BumpKind) : Except String (List Char) := do
  let v ← parseCore current
  kind.apply v

def nextVersion (current : List Char) (arg : String) (rest : List String) : Except String (List Char) :=
  match arg with
  | "patch" => semverBump current .patch
  | "minor" => semverBump current .minor
  | "major" => semverBump current .major
  | "--pre" =>
    match rest with
    | id::_ => semverBump current (.pre id.toList)
    | [] => .error "--pre requires <id>"
  | "--set" =>
    match rest with
    | version::_ => .ok version.toList
    | [] => .error "--set requires <version>"
  | other => .error s!"unknown bump arg: {other}"

def depsHeader : List Char := "[workspace.dependencies]".toList

/-- What a line with a crate of the workspace has. -/
def cratePath : List Char := "path = \"crates/".toList

/-- What stands before the quoted version of a dependency. -/
def pinKey : List Char := "version = ".toList

def pin (version : List Char) : List Char := enclosed pinKey '"' version

def rewriteLine (prev next line : List Char) : List Char :=
  if contains line cratePath && contains line (pin prev) then replaceAll (pin prev) (pin next) line else line

/-- The text that is put into the file; without dependencies the file is left as it is. -/
def writeWorkspaceDepsVersions (text prev next : List Char) : List Char :=
  match find depsHeader text with
  | none => text
  | some blockStart =>
    let after := text.drop (blockStart+depsHeader.length)
    let blockLen := ((find ['\n','['] after).map (·+1)).getD after.length
    let block := (text.drop blockStart).take (depsHeader.length+blockLen)
    let newBlock := (splitInclusive block).flatMap (rewriteLine prev next)
    text.take blockStart++newBlock++text.drop (blockStart+depsHeader.length+blockLen)

/-- The manifest after the command. -/
def bump (args : List String) (text : List Char) : Except String (List Char) :=
  match args with
  | [] => .error "usage: bump <patch|minor|major> | bump --pre <id> | bump --set <version>"
  | arg::rest => do
    let current ← readWorkspaceVersion "Cargo.toml" text
    let next ← nextVersion current arg rest
    let written ← writeWorkspaceVersion text next
    return writeWorkspaceDepsVersions written current next

/-- One command after another, each on what the one before has left. -/
def bumps (runs : List (List String)) (text : List Char) : Except String (List Char) :=
  runs.foldlM (fun text args => bump args text) text

/-- A line that does not end the block of the dependencies. -/
def inBlock (line : List Char) : Bool := decide (line.head? ≠ some '[')

/-- The lines of the dependencies, from the header on. -/
def depsLines : List (List Char) → List (List Char)
  | [] => []
  | l::ls =>
    match find depsHeader l with
    | some k => l.drop k::ls.takeWhile inBlock
    | none => depsLines ls

/-- The versions that a line requires of the crates of the workspace. -/
def linePins (line : List Char) : List (List Char) := if contains line cratePath then values pinKey '"' line else []

def pins (text : List Char) : List (List Char) := (depsLines (text.splitOn '\n')).flatMap linePins

/-- The lines of the dependencies are changed one by one, and no others. -/
def rewriteLines (f : List Char → List Char) : List (List Char) → List (List Char)
  | [] => []
  | l::ls =>
    match find depsHeader l with
    | some k => (l.take k++f (l.drop k))::((ls.takeWhile inBlock).map f++ls.dropWhile inBlock)
    | none => l::rewriteLines f ls

end RakkaInference.Xtask
