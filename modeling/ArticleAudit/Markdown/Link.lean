import ArticleAudit.Block.Basic
import ArticleAudit.Markdown.Inline

/-!
# Link blocks

Every link or image of an inline text becomes a block whose inner part is the link text, whose
target is the link target and whose tag is the target's text.
-/

set_option autoImplicit false

namespace ArticleAudit.Markdown

open ArticleAudit.Text

/-- The part of a text that stands at `base` under a span of the document. -/
def partAt (base : Nat) (cs : List Char) (s : Span) : List Char :=
  slice cs ⟨s.start - base, s.stop - base⟩

/-- The block of a node, when it is a link. -/
def linkBlock? (base : Nat) (cs : List Char) : Inline → Option Block
  | .link full text target _ =>
    some ((((Block.leaf .link full (partAt base cs full)).withContent text).withTarget
      target).withTag (partAt base cs target))
  | _ => none

/-- The link blocks of a text that stands at `base` in the document. -/
def linkBlocks (base : Nat) (cs : List Char) : List Block :=
  (parseInline base cs).filterMap (linkBlock? base cs)

end ArticleAudit.Markdown
