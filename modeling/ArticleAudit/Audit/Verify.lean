import ArticleAudit.Audit.SourceDocument
import ArticleAudit.Rule.Registry

/-!
# Auditing a document

The rules that apply to the topic of a document run one by one. Their entries are sorted by rule
number, and those of one number keep their order. A rule that fails leaves a line in the trace and
no entries; the others are not affected.
-/

set_option autoImplicit false

namespace ArticleAudit

/-- What an audit depends on beside the document and the rules. -/
structure AuditOptions where
  ruleSet : String
  strict : Bool
  deriving DecidableEq, Repr, Inhabited

/-- The result of an audit: the trace for people to read, and the entries. -/
structure AuditReport where
  trace : List String
  entries : List AuditEntry
  deriving DecidableEq, Repr, Inhabited

namespace Audit

/-- The entries of rules that could be evaluated, in order. -/
def entriesOf (results : List (Except RuleError (List AuditEntry))) : List AuditEntry :=
  results.flatMap fun
    | .ok entries => entries
    | .error _ => []

/-- The messages of rules that failed, in order. -/
def messagesOf (results : List (Except RuleError (List AuditEntry))) : List String :=
  results.filterMap fun
    | .ok _ => none
    | .error e => some e.message

/-- Entries by rule number. -/
def sortEntries (entries : List AuditEntry) : List AuditEntry :=
  entries.mergeSort fun a b => a.ruleNum ≤ b.ruleNum

/-- The line of an entry. -/
def entryLine (e : AuditEntry) : String :=
  e.title ++ ": " ++ toString e.success

/-- The line that starts a trace. -/
def startLine (fileName : String) : String :=
  "Verifying file: " ++ fileName

/-- The line of a trace in a log: under the level of what informs. -/
def logLine (line : String) : String :=
  "INFO: " ++ line

/-- Runs rules and reports. -/
def runRules (rules : List Rule) (ctx : AuditContext) : AuditReport :=
  let results := rules.map fun r => r.evaluate ctx
  let entries := sortEntries (entriesOf results)
  ⟨startLine ctx.fileName :: messagesOf results ++ entries.map entryLine, entries⟩

/-- Audits a document. -/
def verify (registry : Registry) (options : AuditOptions) (doc : SourceDocument) : AuditReport :=
  match doc.metadata.topic? with
  | none =>
    ⟨[startLine doc.fileName, "No MS.Topic detected for " ++ options.ruleSet ++ " guidance"], []⟩
  | some topic =>
    let rules := registry.applicable options.ruleSet topic
    if rules.isEmpty then
      ⟨[startLine doc.fileName, "No " ++ options.ruleSet ++ " Guidance for " ++ topic], []⟩
    else runRules rules (doc.context options.strict)

end Audit

end ArticleAudit
