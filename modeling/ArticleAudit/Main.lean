import ArticleAudit.CommandLine.Demand

/-!
# The command line

The program reads what a run depends on, runs, prints what the run answers, and writes the settings
if the run changed them.
-/

set_option autoImplicit false

namespace ArticleAudit.CommandLine

open ArticleAudit.Files

/-- Reads what stands under a path; what cannot be read as a file counts as a directory. -/
def readEntry? (path : String) : IO (Option Entry) := do
  try
    return some (.file (← IO.FS.readBinFile path))
  catch
    | .noFileOrDirectory .. => return none
    | _ => return some .directory

/-- Adds what stands under paths to a tree. -/
def gather (files : FileTree) (paths : List String) : IO FileTree :=
  paths.foldlM (fun files path => do
    match ← readEntry? path with
    | some e => return files.add path e
    | none => return files) files

/-- Reads variables that are set. -/
def readVariables (names : List String) : IO (List (String × String)) := do
  let values ← names.mapM fun name => do
    return (← IO.getEnv name).map fun value => (name, value)
  return values.filterMap id

/-- Writes a text to a file, in directories that are made where they are missing. -/
def writeText (path text : String) : IO Unit := do
  match (Path.ofString path).parent? with
  | some parent => IO.FS.createDirAll parent.toString
  | none => pure ()
  IO.FS.writeFile path text

/-- Runs with arguments and answers the status. -/
def runWith (a : Arguments) : IO UInt8 := do
  let home : Environment := ⟨← readVariables ["HOME"]⟩
  let settingsPath := Settings.userPath home
  let files ← gather .empty (Demand.withAncestors settingsPath)
  let env : Environment :=
    ⟨home.bindings ++ (← readVariables (Demand.settingsVariables files home))⟩
  let files ← gather files (Demand.paths files env a)
  let result := Run.withArguments files env a
  result.output.forM IO.println
  result.errors.forM IO.eprintln
  let written := result.files.readText? settingsPath
  match written with
  | some text =>
    if files.readText? settingsPath != written then
      writeText settingsPath text
  | none => pure ()
  return result.status

/-- How the program is used. -/
def usage : String :=
  "usage: [--rules PATH] [--rule-set NAME] [--strict] [--verbose] [--init-config] [FILE]"

end ArticleAudit.CommandLine

open ArticleAudit ArticleAudit.CommandLine

/-- Audits the document that the command line names. -/
def main (words : List String) : IO UInt32 := do
  match Arguments.ofWords? words with
  | none =>
    IO.eprintln usage
    return 2
  | some a =>
    try
      return (← runWith a).toUInt32
    catch e =>
      IO.eprintln (Run.errorLine (toString e))
      return 2
