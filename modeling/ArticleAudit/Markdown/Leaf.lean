import ArticleAudit.Markdown.Link
import ArticleAudit.Markdown.Opener
import ArticleAudit.Markdown.ResourceName

/-!
# Blocks that hold no other lines' blocks

Headings, fences, alerts and tables are built from their opening line and a run of the lines after
it. Each builder answers the block together with the lines it leaves, which are a final part of the
lines it was given (`Taken`).
-/

set_option autoImplicit false

namespace ArticleAudit.Markdown

open ArticleAudit.Text

/-- A block built from the front of some lines, and the lines that are left. -/
structure Taken (lines : List LineFacts) where
  block : Block
  rest : List LineFacts
  isSuffix : rest <:+ lines

/-- The last of the lines, or the opening line when there are none. -/
def lastLine (l : LineFacts) (lines : List LineFacts) : LineFacts :=
  lines.getLast?.getD l

/-! ## Headings -/

/-- The block of a heading line: a tab when its title is a tab link. -/
def headingBlock (source : List Char) (l : LineFacts) (h : Heading) : Block :=
  let title : Span := ⟨l.content.start + h.offset, l.content.start + h.stop⟩
  let block :=
    match tabId? h.title with
    | some id => (Block.ofSource source .conceptualTab l.start l.stop).withTag id
    | none => Block.ofSource source .header l.start l.stop
  ((block.withLevel h.level).withContent title).withChildren (linkBlocks title.start h.title)

/-! ## Fenced code -/

/-- The resource types in the lines of a fence, if its language is a template language. -/
def fenceChildren (language : List Char) (lines : List LineFacts) : List Block :=
  if templateLanguages.contains language then
    lines.flatMap fun l => resourceBlocks language l.text l.content.start
  else []

/-- Fenced code up to the line that closes it, or to the last line when none does. Nothing inside
it is a block of its own but the resource types. -/
def fenceBlock (source : List Char) (l : LineFacts) (f : Fence) (lines : List LineFacts) :
    Taken lines :=
  let body := lines.takeWhile fun c => !f.isClosedBy c.fence
  let closing := (lines.dropWhile fun c => !f.isClosedBy c.fence).head?
  let last := closing.getD (lastLine l body)
  let stop := max last.stop l.start
  let bodyStart := min l.line.stop stop
  let bodyStop := max ((closing.map fun c => c.line.start).getD stop) bodyStart
  let block := ((Block.ofSource source .codeFence l.start stop).withContent
    ⟨bodyStart, bodyStop⟩).withChildren (fenceChildren (languageOf f.info) body)
  { block := if f.info.isEmpty then block else block.withTag f.info
    rest := (lines.dropWhile fun c => !f.isClosedBy c.fence).tail
    isSuffix := (List.tail_suffix _).trans (List.dropWhile_suffix _) }

/-! ## Alerts -/

/-- An alert and the quoted lines that follow it. -/
def noteBlock (source : List Char) (l : LineFacts) (name : List Char) (lines : List LineFacts) :
    Taken lines :=
  let body := lines.takeWhile fun c => c.quote.depth > 0
  let stop := max (lastLine l body).stop l.start
  let children := body.flatMap fun c => linkBlocks (c.content.start + c.quote.offset) c.unquoted
  let block := ((Block.ofSource source .note l.start stop).withTag name).withChildren children
  { block :=
      match body with
      | [] => block
      | first :: _ =>
        let bodyStart := max first.start l.start
        block.withContent ⟨bodyStart, max stop bodyStart⟩
    rest := lines.dropWhile fun c => c.quote.depth > 0
    isSuffix := List.dropWhile_suffix _ }

/-! ## Tables -/

/-- The cells of a row. -/
def cellBlocks (source : List Char) (kind : BlockKind) (l : LineFacts) : List Block :=
  (cellsOf l.text l.content.start).map fun cell =>
    ((Block.ofSource source kind cell.start cell.stop).withContent cell).withChildren
      (linkBlocks cell.start (slice source cell))

/-- A row after the first one; separator rows have no block. -/
def rowBlock? (source : List Char) (l : LineFacts) : Option Block :=
  if l.isSeparator then none
  else
    some ((Block.ofSource source .tableRow l.start l.stop).withChildren
      (cellBlocks source .tableRowValue l))

/-- A table: the cells of its first row and its later rows. -/
def tableBlock (source : List Char) (l : LineFacts) (lines : List LineFacts) : Taken lines :=
  let body := lines.takeWhile LineFacts.isRow
  let stop := max (lastLine l body).stop l.start
  { block := (Block.ofSource source .table l.start stop).withChildren
      (cellBlocks source .tableColumn l ++ body.filterMap (rowBlock? source))
    rest := lines.dropWhile LineFacts.isRow
    isSuffix := List.dropWhile_suffix _ }

end ArticleAudit.Markdown
