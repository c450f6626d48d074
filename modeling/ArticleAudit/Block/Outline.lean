import ArticleAudit.Block.Basic
import ArticleAudit.Text.Quoted

/-!
# Outlines

An outline shows a forest as one line per block in pre-order, indented by depth: kind, span, the
first bytes of the text, and the level and tag when they are set.
-/

set_option autoImplicit false

namespace ArticleAudit.Block

open ArticleAudit.Text

/-- The most bytes of a block's text that an outline shows. -/
def outlineWidth : Nat := 40

/-- The line of one block. -/
def outlineLine (source : List Char) (depth : Nat) (b : Block) : String :=
  let indent := String.ofList (List.replicate (2 * depth) ' ')
  let level := if b.level > 0 then " level=" ++ toString b.level else ""
  let tag := match b.tag with
    | some tag => " tag=" ++ quotedString tag
    | none => ""
  indent ++ b.kind.name ++ " " ++ toString b.span.start ++ ".." ++ toString b.span.stop ++ " " ++
    String.ofList (quoted (preview source b.span outlineWidth)) ++ level ++ tag

mutual

/-- The lines of a block and its descendants. -/
def outline (source : List Char) (depth : Nat) : Block → List String
  | ⟨kind, span, text, level, tag, content, target, region, children⟩ =>
    outlineLine source depth ⟨kind, span, text, level, tag, content, target, region, children⟩ ::
      outlineAll source (depth + 1) children

/-- The lines of a forest. -/
def outlineAll (source : List Char) (depth : Nat) : List Block → List String
  | [] => []
  | b :: rest => outline source depth b ++ outlineAll source depth rest

end

end ArticleAudit.Block
