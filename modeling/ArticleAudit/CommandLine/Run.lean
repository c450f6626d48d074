import ArticleAudit.Audit.Diagnostic
import ArticleAudit.CommandLine.Arguments
import ArticleAudit.Settings.Store

/-!
# Runs of the command line

A run reads the settings, lays its arguments over them, and audits a document or writes the settings
for later runs. It answers what it prints, how it ends, and what the files are afterwards. A run
ends with status 0 if all is well, with 1 if an entry failed, and with 2 if it could not do its
work.
-/

set_option autoImplicit false

namespace ArticleAudit

open ArticleAudit.Files ArticleAudit.Pattern

/-- The end of a run. -/
structure RunResult where
  status : UInt8
  output : List String
  errors : List String
  files : FileTree
  deriving Inhabited

namespace Run

/-- The line of an error. -/
def errorLine (message : String) : String :=
  "Error: " ++ message

/-- The message where a document could not be loaded. -/
def fileMessage (path : String) (e : FileError) : String :=
  "reading " ++ path ++ ": " ++ e.message?.getD "IO error"

/-- The options of an audit with settings. -/
def auditOptions (s : Settings) : AuditOptions :=
  ⟨s.ruleSet, s.strict⟩

/-- The rules of settings; none where they cannot be loaded. -/
def registry (engine : Engine) (files : FileTree) (s : Settings) : Registry :=
  let source := match s.rulesPath? with
    | some path => .file path
    | none => .bundled
  (Registry.empty.load files source engine).2

/-- The lines of an audit: its trace, and then a line for each diagnostic. -/
def reportLines (doc : SourceDocument) (report : AuditReport) : List String :=
  report.trace ++
    (Diagnostic.ofEntries report.entries).map (Diagnostic.line doc.fileName doc.text.toList)

/-- The status of an audit. -/
def reportStatus (report : AuditReport) : UInt8 :=
  if (Diagnostic.ofEntries report.entries).isEmpty then 0 else 1

/-- Audits a document with settings. -/
def audit (engine : Engine) (files : FileTree) (s : Settings) (path : String)
    (errors : List String) : RunResult :=
  match SourceDocument.load files path with
  | .error e => ⟨2, [], errors ++ [errorLine (fileMessage path e)], files⟩
  | .ok doc =>
    let report := Audit.verify (registry engine files s) (auditOptions s) doc
    ⟨reportStatus report, reportLines doc report, errors, files⟩

/-- Writes settings to a file that does not exist yet. -/
def initConfig (files : FileTree) (s : Settings) (path : String) (errors : List String) :
    RunResult :=
  if files.pathExists path then
    ⟨2, [], errors ++ [errorLine (path ++ " already exists")], files⟩
  else
    match s.save? files path with
    | some files => ⟨0, [], errors, files⟩
    | none => ⟨2, [], errors ++ [errorLine ("cannot write " ++ path)], files⟩

/-- The settings that count in a run, and the lines of errors in the settings of the user. -/
def effective (files : FileTree) (env : Environment) (a : Arguments) : Settings × List String :=
  match Settings.load files env (Settings.userPath env) with
  | .ok s => (a.settings (s.getD .default), [])
  | .error e => (a.settings .default, [errorLine e.message])

/-- Runs with arguments. -/
def withArguments (files : FileTree) (env : Environment) (a : Arguments)
    (engine : Engine := .threaded) : RunResult :=
  let (s, errors) := effective files env a
  if a.initConfig then initConfig files s (Settings.userPath env) errors
  else
    match a.file? with
    | some path => audit engine files s path errors
    | none => ⟨0, [], errors, files⟩

/-- Runs with the words of a command line. -/
def withWords (files : FileTree) (env : Environment) (words : List String)
    (engine : Engine := .threaded) : RunResult :=
  match Arguments.ofWords? words with
  | some a => withArguments files env a engine
  | none => ⟨2, [], [], files⟩

end Run

end ArticleAudit
