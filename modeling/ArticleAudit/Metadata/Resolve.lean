import ArticleAudit.Metadata.Flatten
import ArticleAudit.Metadata.Override
import ArticleAudit.Metadata.Scan
import ArticleAudit.Metadata.Section

/-!
# The metadata that count

A document's own metadata are read, or scanned for where reading fails or finds nothing. Overrides
then replace values, and defaults fill in what is missing.
-/

set_option autoImplicit false

namespace ArticleAudit.Metadata

/-- What reading found, or what scanning finds where reading failed or found nothing. -/
def ownOf (readResult : Except ReadError Metadata) (source : List Char) : Metadata :=
  match readResult with
  | .ok m => if m.isEmpty then scan source else m
  | .error _ => scan source

/-- The metadata that a document itself gives. -/
def own (fileName : String) (source : List Char) : Metadata :=
  ownOf (read (textOf fileName source)) source

/-- The metadata of a document with those of its host around them. -/
def resolve (fileName : String) (source : List Char) (overrides : List Override)
    (defaults : Metadata) : Metadata :=
  ((own fileName source).applyOverrides overrides).fillFrom defaults

end ArticleAudit.Metadata
