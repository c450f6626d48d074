import ArticleAudit.Files.FileTree
import ArticleAudit.Settings.Basic
import ArticleAudit.Settings.Expansion

/-!
# Settings in files

Settings are kept in a file below the home directory. Reading them expands the path of the rules
once; writing them makes the directories that are missing.
-/

set_option autoImplicit false

namespace ArticleAudit

open ArticleAudit.Files

/-- Why settings could not be read. -/
inductive SettingsError
  | unreadable (path : String)
  | malformed (path : String)
  deriving DecidableEq, Repr, Inhabited

/-- The message of an error. -/
def SettingsError.message : SettingsError → String
  | .unreadable path => "Failed to read config file at " ++ path
  | .malformed path => "Failed to parse config file at " ++ path

namespace Settings

/-- The directory of the settings as users write it. -/
def directory : String := "~/.config/docs-audit"

/-- The name of the file. -/
def fileName : String := "config.toml"

/-- The path of the settings of a user. -/
def userPath (env : Environment) : String :=
  joinPath (String.ofList (env.expandHome directory.toList)) fileName

/-- The settings with the path of the rules expanded. -/
def expand (env : Environment) (s : Settings) : Settings :=
  { s with rulesPath? := s.rulesPath?.map env.expandPath }

/-- Loads the settings of a file; there are none where there is no file. -/
def load (files : FileTree) (env : Environment) (path : String) :
    Except SettingsError (Option Settings) :=
  if !files.pathExists path then .ok none
  else
    match files.readText? path with
    | none => .error (.unreadable path)
    | some text =>
      match ofChars? text.toList with
      | none => .error (.malformed path)
      | some s => .ok (some (s.expand env))

/-- Saves settings to a file, if it can be written. -/
def save? (files : FileTree) (path : String) (s : Settings) : Option FileTree :=
  files.saveText? path s.toText

end Settings

end ArticleAudit
