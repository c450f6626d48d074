import ArticleAudit.CommandLine.Run

/-!
# What a run reads

A run depends on few variables and files. They can be named before it starts: the variables and the
file of the settings first, and with these at hand the rules, the document, and the configurations
of the sites that the document may belong to.
-/

set_option autoImplicit false

namespace ArticleAudit.Demand

open ArticleAudit.Files

/-- The names of the variables in a path. -/
def variablesOf (path : String) : List String :=
  (PathPiece.ofPath path.toList).filterMap fun
    | .variable name _ => some (String.ofList name)
    | .text _ => none

/-- The variables that the settings of a user name. -/
def settingsVariables (files : FileTree) (env : Environment) : List String :=
  match (files.readText? (Settings.userPath env)).bind
      fun text => Settings.ofChars? text.toList with
  | some s => (s.rulesPath?.map variablesOf).getD []
  | none => []

/-- A path with all those above it. -/
def withAncestors (path : String) : List String :=
  path :: (Path.ofString path).ancestors.map Path.toString

/-- The configurations of the sites that a document may belong to. -/
def sitePaths (path : String) : List String :=
  (Path.ofString path).ancestors.map fun dir =>
    joinPath dir.toString SourceDocument.siteFileName

/-- The paths that a run with arguments reads, beside the settings. -/
def paths (files : FileTree) (env : Environment) (a : Arguments) : List String :=
  let rules := (Run.effective files env a).1.rulesPath?.toList
  let documents := a.file?.toList
  (rules ++ documents ++ documents.flatMap sitePaths).flatMap withAncestors

end ArticleAudit.Demand
