import RakkaInference.Machine.Text

/-! The version of the workspace, as it is read from the manifest and written back. Texts are lists of characters. -/
namespace RakkaInference.Xtask
open Machine

def header : List Char := "[workspace.package]".toList

def key : List Char := "version".toList

/-- The value behind the key. -/
def versionValue (rest : List Char) : List Char :=
  let afterEq := ((splitOnce '=' rest).map fun kv => trim kv.2).getD []
  trimMatches '\'' (trimMatches '\"' afterEq)

def versionOfLine (line : List Char) : Option (List Char) := (stripPrefix key (trimStart line)).map versionValue

/-- The block ends before the next line that starts with a bracket. -/
def blockOf (after : List Char) : List Char := after.take ((find ['\n','['] after).getD after.length)

def readWorkspaceVersion (path : String) (text : List Char) : Except String (List Char) :=
  match find header text with
  | none => .error s!"no [workspace.package] block in {path}"
  | some blockStart =>
    match (lines (blockOf (text.drop blockStart))).findSome? versionOfLine with
    | some v => .ok v
    | none => .error "no version key in [workspace.package]"

/-- What is written behind the key. -/
def assignment (version : List Char) : List Char := "       = \"".toList++version++['\"']

/-- The text that is put into the file. -/
def writeWorkspaceVersion (text version : List Char) : Except String (List Char) :=
  match find header text with
  | none => .error "no [workspace.package] block"
  | some blockStart =>
    match find key (text.drop blockStart) with
    | none => .error "no version line"
    | some localIdx =>
      let abs := blockStart+localIdx
      let lineEnd := ((find ['\n'] (text.drop abs)).map (abs+·)).getD text.length
      .ok (text.take abs++(key++assignment version)++text.drop lineEnd)

/-- The first line after that of the header that starts with the key. The version is read from there. -/
def versionLine (text : List Char) : Option ℕ := do
  let start ← find header text
  let n := (text.take start).count '\n'+1
  let i ← ((text.splitOn '\n').drop n).findIdx? fun line => (versionOfLine line).isSome
  some (i+n)

/-- What setting the version is promised to do. -/
structure BumpLaw (path : String) (text version out : List Char) : Prop where
  written : writeWorkspaceVersion text version = .ok out
  read : readWorkspaceVersion path out = .ok version
  unchanged : ∀ k, versionLine text ≠ some k → (out.splitOn '\n')[k]? = (text.splitOn '\n')[k]?

/-- Before the first occurrence of the key after the header there is nothing on its line but white space. -/
def FirstIsKey (text : List Char) : Prop :=
  ∃ start idx, find header text = some start ∧ find key (text.drop start) = some idx ∧
    ∀ c ∈ ((text.drop start).take idx).rtakeWhile (· ≠ '\n'), isWhitespace c

/-- From the first occurrence of the key after the header on, its line already has the text that is written. -/
def AlreadyThere (text version : List Char) : Prop :=
  ∃ start idx, find header text = some start ∧ find key (text.drop start) = some idx ∧
    (text.drop (start+idx)).takeWhile (· ≠ '\n') = key++assignment version

example : readWorkspaceVersion "Cargo.toml" "[workspace.package]\nversion       = \"0.9.0\"\n".toList =
    .ok "0.9.0".toList := by
  decide +kernel

end RakkaInference.Xtask
