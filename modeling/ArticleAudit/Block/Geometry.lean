import ArticleAudit.Block.Basic
import ArticleAudit.Text.Quoted

/-!
# The geometry of a block tree

A forest fits its source when every span is within the source, every block's text is the text of
its span, children lie within their parent, siblings are in order without overlap, and the inner
spans lie within their block. `firstFlaw?` visits blocks in pre-order and answers the first rule
that is broken, and nothing exactly when the forest fits (`firstFlaw?_eq_none_iff`).
-/

set_option autoImplicit false

namespace ArticleAudit.Block

open ArticleAudit.Text

/-- How a block can fail to fit its source. -/
inductive Flaw
  | outOfBounds (span : Span) (size : Nat)
  | outsideParent (kind : BlockKind) (span parent : Span)
  | overlap (kind : BlockKind) (span : Span) (previousStop : Nat)
  | wrongText (kind : BlockKind) (span : Span) (text expected : String)
  | innerOutside (kind : BlockKind) (inner span : Span)
  | badRegion (kind : BlockKind) (region span : Span)
  deriving DecidableEq, Repr

namespace Flaw

/-- The text of a flaw. -/
def message : Flaw → String
  | outOfBounds span size =>
    "block span out of bounds: " ++ span.describe ++ " (source len: " ++ toString size ++ ")"
  | outsideParent kind span parent =>
    kind.name ++ " span " ++ span.describe ++ " not contained in parent " ++ parent.describe
  | overlap kind span previousStop =>
    kind.name ++ " span " ++ span.describe ++ " overlaps or precedes previous sibling ending at " ++
      toString previousStop
  | wrongText kind span text expected =>
    "assertion \x60left == right\x60 failed: " ++ kind.name ++ " text does not match its span " ++
      span.describe ++ "\n  left: " ++ quotedString text ++ "\n right: " ++ quotedString expected
  | innerOutside kind inner span =>
    kind.name ++ " sub-span " ++ inner.describe ++ " not contained in block span " ++ span.describe
  | badRegion kind region span =>
    kind.name ++ " section " ++ region.describe ++ " invalid for block span " ++ span.describe

end Flaw

/-- An inner span that does not lie within the block. -/
def innerFlaw? (b : Block) : Option Flaw :=
  ((b.content.toList ++ b.target.toList).find? fun s => !b.span.contains s).map fun s =>
    .innerOutside b.kind s b.span

/-- A section that does not start with the block or ends beyond the source. -/
def regionFlaw? (size : Nat) (b : Block) : Option Flaw :=
  (b.region.filter fun r => !(r.isValidFor size && r.start == b.span.start)).map fun r =>
    .badRegion b.kind r b.span

/-- The first rule that a block breaks by itself, below `parent` and after a sibling that stops at
`previousStop`. -/
def ownFlaw? (source : List Char) (parent : Span) (previousStop : Nat) (b : Block) : Option Flaw :=
  let size := byteSize source
  if !b.span.isValidFor size then some (.outOfBounds b.span size)
  else if !parent.contains b.span then some (.outsideParent b.kind b.span parent)
  else if b.span.start < previousStop then some (.overlap b.kind b.span previousStop)
  else if slice? source b.span != some b.text.toList then
    some (.wrongText b.kind b.span b.text (String.ofList (slice source b.span)))
  else b.innerFlaw?.orElse fun _ => b.regionFlaw? size

mutual

/-- The first flaw of a block or of its descendants. -/
def flaw? (source : List Char) (parent : Span) (previousStop : Nat) : Block → Option Flaw
  | ⟨kind, span, text, level, tag, content, target, region, children⟩ =>
    (ownFlaw? source parent previousStop
      ⟨kind, span, text, level, tag, content, target, region, children⟩).orElse fun _ =>
      flawAmong? source span span.start children

/-- The first flaw of siblings and their descendants. -/
def flawAmong? (source : List Char) (parent : Span) (previousStop : Nat) :
    List Block → Option Flaw
  | [] => none
  | b :: rest =>
    (flaw? source parent previousStop b).orElse fun _ =>
      flawAmong? source parent b.span.stop rest

end

/-- The first flaw of a forest. -/
def firstFlaw? (source : List Char) (blocks : List Block) : Option Flaw :=
  flawAmong? source ⟨0, byteSize source⟩ 0 blocks

end ArticleAudit.Block
