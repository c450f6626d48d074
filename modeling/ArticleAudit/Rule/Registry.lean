import ArticleAudit.Files.FileTree
import ArticleAudit.Rule.Bundled
import ArticleAudit.Rule.Encoding
import ArticleAudit.Rule.Strategy

/-!
# The registry of rules

Rules are loaded once: the first source that can be loaded as a whole counts, and later ones change
nothing. A source that fails leaves the registry as it was.
-/

set_option autoImplicit false

namespace ArticleAudit

open ArticleAudit.Files ArticleAudit.Pattern

/-- Where rules come from. -/
inductive RuleSource
  | file (path : String)
  | json (text : String)
  | bundled
  deriving DecidableEq, Repr, Inhabited

namespace RuleSource

/-- The rules in a text. -/
def ofText (text : String) (engine : Engine := .threaded) : Except LoadError (List Rule) :=
  match RuleDescriptor.listOfText? text.toList with
  | some ds => ds.mapM (Rule.ofDescriptor engine)
  | none => .error .json

/-- The rules of a source. -/
def rules (engine : Engine) (files : FileTree) : RuleSource → Except LoadError (List Rule)
  | .file path =>
    match files.readText? path with
    | some text => ofText text engine
    | none => .error .unreadable
  | .json text => ofText text engine
  | .bundled => Bundled.rules.mapM (Rule.ofDescriptor engine)

end RuleSource

/-- The rules, once they are loaded. -/
structure Registry where
  loaded : Option (List Rule)

namespace Registry

/-- No rules are loaded. -/
def empty : Registry :=
  ⟨none⟩

/-- A registry that holds rules. -/
def ofRules (rules : List Rule) : Registry :=
  ⟨some rules⟩

/-- Rules are loaded. -/
def isLoaded (r : Registry) : Bool :=
  r.loaded.isSome

/-- The loaded rules; none before. -/
def rules (r : Registry) : List Rule :=
  r.loaded.getD []

/-- Loads rules unless some are loaded, and answers their number. -/
def load (r : Registry) (files : FileTree) (source : RuleSource) (engine : Engine := .threaded) :
    Except LoadError Nat × Registry :=
  match r.loaded with
  | some rules => (.ok rules.length, r)
  | none =>
    match source.rules engine files with
    | .ok rules => (.ok rules.length, ofRules rules)
    | .error e => (.error e, r)

/-- The rules of a set that run for a topic, in the order of loading. -/
def applicable (r : Registry) (ruleSet topic : String) : List Rule :=
  r.rules.filter fun rule => rule.appliesTo ruleSet topic

end Registry

end ArticleAudit
