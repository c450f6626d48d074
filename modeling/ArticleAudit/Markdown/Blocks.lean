import ArticleAudit.Markdown.ListBlock

/-!
# Blocks of Markdown lines

Lines are read once, from first to last. Lines that open nothing are gathered into a paragraph that
ends at a blank line, at an opener and at the end; every other block takes its own lines. A zone
takes the lines up to the first zone end, and its inner lines are read in the same way.

An opener that is met leaves fewer lines, and the inner lines of a zone are fewer than the zone's,
so the reading ends: the measure is the number of lines, with an opener's step before the reading
of the lines it stands in.
-/

set_option autoImplicit false

namespace ArticleAudit.Markdown

open ArticleAudit.Text

/-- The paragraph over a span, if one is pending. -/
def paragraph (source : List Char) : Option Span → List Block
  | none => []
  | some s =>
    [((Block.ofSource source .paragraph s.start s.stop).withContent s).withChildren
      (linkBlocks s.start (slice source s))]

/-- A pending paragraph with one more line. -/
def extendParagraph (pending : Option Span) (l : LineFacts) : Span :=
  ⟨(pending.map Span.start).getD l.start, l.stop⟩

/-- The lines inside a zone, given the lines after its opening line. -/
def zoneInner (lines : List LineFacts) : List LineFacts :=
  lines.takeWhile fun c => !isZoneEnd c.text

/-- The line that ends a zone and the lines after it. -/
def zoneOuter (lines : List LineFacts) : List LineFacts :=
  lines.dropWhile fun c => !isZoneEnd c.text

/-- The block of a zone around the blocks of its inner lines. -/
def zoneBlock (source : List Char) (l : LineFacts) (attributes : List Char)
    (lines : List LineFacts) (children : List Block) : Block :=
  let last := (zoneOuter lines).head?.getD (lastLine l (zoneInner lines))
  ((Block.ofSource source .zonePivot l.start (max last.stop l.start)).withTag
    attributes).withChildren children

theorem length_zoneInner_le (lines : List LineFacts) :
    (zoneInner lines).length ≤ lines.length :=
  (List.takeWhile_prefix _).length_le

mutual

/-- The block that line `l` opens, and the lines it leaves. -/
def openBlock (source : List Char) (strict : Bool) (opener : Opener) (l : LineFacts)
    (lines : List LineFacts) : Taken lines :=
  match opener with
  | .fence f => fenceBlock source l f lines
  | .zone attributes =>
    { block := zoneBlock source l attributes lines
        (readLines source strict none (zoneInner lines))
      rest := (zoneOuter lines).tail
      isSuffix := (List.tail_suffix _).trans (List.dropWhile_suffix _) }
  | .heading h => ⟨headingBlock source l h, lines, List.suffix_rfl⟩
  | .note name => noteBlock source l name lines
  | .table => tableBlock source l lines
  | .list marker => takeList source 0 marker l lines
termination_by (lines.length, 1)
decreasing_by
  · rcases Nat.lt_or_eq_of_le (length_zoneInner_le lines) with h | h
    · exact Prod.Lex.left _ _ h
    · rw [h]
      exact Prod.Lex.right _ (by decide)

/-- The blocks of lines, with a paragraph pending. -/
def readLines (source : List Char) (strict : Bool) (pending : Option Span)
    (lines : List LineFacts) : List Block :=
  match lines with
  | [] => paragraph source pending
  | l :: lines =>
    if l.isBlank then paragraph source pending ++ readLines source strict none lines
    else
      match openerOf? strict l lines with
      | some opener =>
        let taken := openBlock source strict opener l lines
        paragraph source pending ++ taken.block :: readLines source strict none taken.rest
      | none => readLines source strict (some (extendParagraph pending l)) lines
termination_by (lines.length, 0)
decreasing_by
  · exact Prod.Lex.left _ _ (by simp)
  · exact Prod.Lex.left _ _ (by simp)
  · exact Prod.Lex.left _ _ (Nat.lt_succ_of_le taken.isSuffix.length_le)
  · exact Prod.Lex.left _ _ (by simp)

end

/-- The blocks of lines. -/
def blocksOf (source : List Char) (strict : Bool) (lines : List LineFacts) : List Block :=
  readLines source strict none lines

end ArticleAudit.Markdown
