import ArticleAudit.Metadata.Basic

/-!
# Overrides

A host may replace a value of a document. It names the key and gives the value, alone or as the line
that would set it.
-/

set_option autoImplicit false

namespace ArticleAudit.Metadata

open ArticleAudit.Text

/-- A replacement for the value of a key. -/
structure Override where
  kind : String
  replacement : String
  deriving DecidableEq, Repr, Inhabited

namespace Override

/-- The normalized key. -/
def key (o : Override) : String :=
  normalizeKey o.kind

/-- What follows the key and a colon at the start of a text. -/
def afterKey? (kind text : List Char) : Option (List Char) :=
  (kind.isPrefixOf? text).bind fun rest =>
    match trimStart rest with
    | ':' :: value => some (trim value)
    | _ => none

/-- The value: the trimmed replacement without a key and colon before it. -/
def value (o : Override) : String :=
  let text := trim o.replacement.toList
  String.ofList ((afterKey? o.kind.toList text).getD text)

/-- The line that sets the value. -/
def line (o : Override) : String :=
  o.kind ++ ": " ++ o.value

end Override

/-- Applies overrides in order; the last one of a key wins. -/
def applyOverrides (m : Metadata) (overrides : List Override) : Metadata :=
  m.insertAll (overrides.map fun o => (o.kind, o.value))

end ArticleAudit.Metadata
