import ArticleAudit.Audit.Verify
import ArticleAudit.Text.Position

/-!
# Diagnostics

Every failing entry becomes a warning for each of its spans. A sink holds the latest diagnostics of
each document, the document published last at the end.
-/

set_option autoImplicit false

namespace ArticleAudit

open ArticleAudit.Text

/-- How grave a diagnostic is, the least grave first. -/
inductive Severity
  | hint
  | information
  | warning
  | error
  deriving DecidableEq, Repr, Inhabited

namespace Severity

/-- The rank among severities. -/
def rank : Severity → Nat
  | .hint => 0
  | .information => 1
  | .warning => 2
  | .error => 3

/-- The name in small letters. -/
def name : Severity → String
  | .hint => "hint"
  | .information => "information"
  | .warning => "warning"
  | .error => "error"

/-- All severities. -/
def all : List Severity :=
  [.hint, .information, .warning, .error]

/-- The severity with a name. -/
def ofName? (s : String) : Option Severity :=
  all.find? fun severity => severity.name == s

/-- Graver than another severity. -/
def isAbove (a b : Severity) : Bool :=
  b.rank < a.rank

end Severity

/-- A message about a range of a document. -/
structure Diagnostic where
  range : Span
  message : String
  severity : Severity
  ruleNum : UInt32
  deriving DecidableEq, Repr, Inhabited

namespace Diagnostic

/-- The spans that an entry is reported at; the start of the document where it has none. -/
def rangesOf (e : AuditEntry) : List Span :=
  if e.indexes.isEmpty then [.point 0] else e.indexes

/-- The warnings of an entry. -/
def ofEntry (e : AuditEntry) : List Diagnostic :=
  if e.success then [] else (rangesOf e).map fun range => ⟨range, e.title, .warning, e.ruleNum⟩

/-- The warnings of all failing entries, in their order. -/
def ofEntries (entries : List AuditEntry) : List Diagnostic :=
  entries.flatMap ofEntry

/-- The line of a diagnostic, with places counted from one. -/
def line (fileName : String) (source : List Char) (d : Diagnostic) : String :=
  let start := positionOf source d.range.start
  fileName ++ ":" ++ toString (start.line + 1) ++ ":" ++ toString (start.column + 1) ++ ": " ++
    d.severity.name ++ ": " ++ d.message ++ " [rule " ++ toString d.ruleNum.toNat ++ "]"

end Diagnostic

/-- The latest diagnostics of documents, by identifier. -/
structure DiagnosticSink where
  items : List (String × List Diagnostic)
  deriving DecidableEq, Repr, Inhabited

namespace DiagnosticSink

/-- No diagnostics. -/
def empty : DiagnosticSink :=
  ⟨[]⟩

/-- Replaces the diagnostics of a document. -/
def publish (s : DiagnosticSink) (id : String) (diagnostics : List Diagnostic) : DiagnosticSink :=
  ⟨(s.items.filter fun item => item.1 != id) ++ [(id, diagnostics)]⟩

/-- Publishes the diagnostics of entries. -/
def publishEntries (s : DiagnosticSink) (id : String) (entries : List AuditEntry) :
    DiagnosticSink :=
  s.publish id (Diagnostic.ofEntries entries)

end DiagnosticSink

end ArticleAudit
