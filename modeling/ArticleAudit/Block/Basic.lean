import ArticleAudit.Block.Kind
import ArticleAudit.Text.Slice

/-!
# Blocks

A document is a forest of blocks. Every block has its span and the text of that span; the other
fields are set for some kinds only: the level of headings, lists and items, a tag (info string,
link target, alert word, zone attributes, item name or metadata key), the span of the meaningful
inner part, the span of a link target, and for headings the span of their section.
-/

set_option autoImplicit false

namespace ArticleAudit

open ArticleAudit.Text

/-- A node of the document tree. -/
structure Block where
  kind : BlockKind
  span : Span
  text : String
  level : Nat
  tag : Option String
  content : Option Span
  target : Option Span
  region : Option Span
  children : List Block
  deriving Repr, Inhabited

namespace Block

/-- A block with nothing but its kind, span and text. -/
def leaf (kind : BlockKind) (span : Span) (text : List Char) : Block :=
  { kind, span, text := String.ofList text, level := 0, tag := none, content := none,
    target := none, region := none, children := [] }

/-- A block whose text is cut from the source. -/
def ofSource (source : List Char) (kind : BlockKind) (start stop : Nat) : Block :=
  leaf kind ⟨start, stop⟩ (slice source ⟨start, stop⟩)

/-- Sets the level. -/
def withLevel (b : Block) (level : Nat) : Block :=
  { b with level }

/-- Sets the tag. -/
def withTag (b : Block) (tag : List Char) : Block :=
  { b with tag := some (String.ofList tag) }

/-- Sets the span of the inner part. -/
def withContent (b : Block) (content : Span) : Block :=
  { b with content := some content }

/-- Sets the span of the target. -/
def withTarget (b : Block) (target : Span) : Block :=
  { b with target := some target }

/-- Sets the children. -/
def withChildren (b : Block) (children : List Block) : Block :=
  { b with children }

/-- The part of the block's text under a span of the document. -/
def textAt? (b : Block) (s : Span) : Option String :=
  if b.span.start ≤ s.start && b.span.start ≤ s.stop then
    (slice? b.text.toList ⟨s.start - b.span.start, s.stop - b.span.start⟩).map String.ofList
  else none

/-- The text of the inner part, or the whole text when there is none. -/
def contentText (b : Block) : String :=
  (b.content.bind b.textAt?).getD b.text

/-- The text of the target. -/
def targetText? (b : Block) : Option String :=
  b.target.bind b.textAt?

end Block

/-! ## Pre-order -/

mutual

/-- A block followed by its descendants: each block before its children, siblings in order. -/
def Block.preorder : Block → List Block
  | ⟨kind, span, text, level, tag, content, target, region, children⟩ =>
    ⟨kind, span, text, level, tag, content, target, region, children⟩ ::
      Block.preorderAll children

/-- The pre-order of a forest. -/
def Block.preorderAll : List Block → List Block
  | [] => []
  | b :: rest => b.preorder ++ Block.preorderAll rest

end

namespace Block

@[simp] theorem preorderAll_nil : preorderAll [] = [] := by
  simp [preorderAll]

@[simp] theorem preorderAll_cons (b : Block) (rest : List Block) :
    preorderAll (b :: rest) = b.preorder ++ preorderAll rest := by
  simp [preorderAll]

theorem preorder_eq (b : Block) : b.preorder = b :: preorderAll b.children := by
  cases b
  simp [preorder]

theorem preorderAll_append (a b : List Block) :
    preorderAll (a ++ b) = preorderAll a ++ preorderAll b := by
  induction a with
  | nil => simp
  | cons x rest ih => simp [ih]

/-- The descendants of a block, without the block. -/
def descendants (b : Block) : List Block :=
  preorderAll b.children

end Block

end ArticleAudit
