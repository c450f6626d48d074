import ArticleAudit.Block.Basic
import ArticleAudit.Metadata.Basic
import ArticleAudit.Text.Case

/-!
# Rules at work

A strategy looks at a document and answers an outcome; a rule turns the outcome into entries. Every
span of an entry lies within the document: a rule that reports another one fails as a whole.
-/

set_option autoImplicit false

namespace ArticleAudit

open ArticleAudit.Text

/-- What a strategy may look at: a document with its metadata, its blocks, and all of them in the
order of the document. -/
structure AuditContext where
  fileName : String
  source : List Char
  metadata : Metadata
  blocks : List Block
  allBlocks : List Block
  deriving Repr, Inhabited

/-- The blocks of a kind, of one level if one is given. -/
def AuditContext.blocksOf (ctx : AuditContext) (kind : BlockKind) (level : Option UInt8) :
    List Block :=
  ctx.allBlocks.filter fun b => b.kind == kind && level.all fun l => b.level == l.toNat

/-- The answer of a strategy. -/
inductive Outcome
  /-- The spans that justify the pass. -/
  | pass (spans : List Span)
  /-- A span for each violation; none where something is missing. -/
  | fail (spans : List Span)
  deriving DecidableEq, Repr, Inhabited

/-- Why a rule could not be evaluated. -/
inductive RuleError
  | spanOutOfBounds (ruleNum : UInt32) (span : Span) (length : Nat)
  | evaluation (ruleNum : UInt32) (message : String)
  deriving DecidableEq, Repr, Inhabited

/-- The message of an error. -/
def RuleError.message : RuleError → String
  | .spanOutOfBounds n span length =>
    "rule " ++ toString n.toNat ++ " reported " ++ span.describe ++
      " outside the document (length " ++ toString length ++ ")"
  | .evaluation n message => "rule " ++ toString n.toNat ++ " failed: " ++ message

/-- How a rule decides. -/
abbrev Strategy := AuditContext → Except RuleError Outcome

/-- One result of a rule, with the spans it refers to. -/
structure AuditEntry where
  title : String
  success : Bool
  ruleNum : UInt32
  indexes : List Span
  deriving DecidableEq, Repr, Inhabited

/-- A rule that is loaded. -/
structure Rule where
  ruleNum : UInt32
  ruleSet : String
  ruleGroup : String
  dependsOn : Option UInt32
  title : String
  strategy : Strategy

namespace Rule

/-- Topics are compared trimmed and in small letters. -/
def topicForm (topic : String) : String :=
  lowercaseString (trimString topic)

/-- The rule runs for a topic in a set of rules. A rule that depends on another never does. -/
def appliesTo (r : Rule) (ruleSet topic : String) : Bool :=
  r.ruleSet == ruleSet && topicForm r.ruleGroup == topicForm topic && r.dependsOn.isNone

/-- A span that lies within a document of the given size. -/
def checked (r : Rule) (size : Nat) (span : Span) : Except RuleError Span :=
  if span.isValidFor size then .ok span else .error (.spanOutOfBounds r.ruleNum span size)

/-- An entry of a rule. -/
def entry (r : Rule) (success : Bool) (indexes : List Span) : AuditEntry :=
  ⟨r.title, success, r.ruleNum, indexes⟩

/-- The entries of an outcome: one for a pass, and one for each violation. What is missing is
missing at the start of the document. -/
def entriesOf (r : Rule) (size : Nat) : Outcome → Except RuleError (List AuditEntry)
  | .pass spans => do
    return [r.entry true (← spans.mapM (r.checked size))]
  | .fail [] => .ok [r.entry false [.point 0]]
  | .fail spans => spans.mapM fun span => do
    return r.entry false [← r.checked size span]

/-- Evaluates the rule. -/
def evaluate (r : Rule) (ctx : AuditContext) : Except RuleError (List AuditEntry) := do
  r.entriesOf (byteSize ctx.source) (← r.strategy ctx)

end Rule

end ArticleAudit
