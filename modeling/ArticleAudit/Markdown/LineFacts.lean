import ArticleAudit.Markdown.Fence
import ArticleAudit.Markdown.Field
import ArticleAudit.Markdown.Heading
import ArticleAudit.Markdown.ListMarker
import ArticleAudit.Markdown.Quote
import ArticleAudit.Markdown.TableRow
import ArticleAudit.Markdown.ZonePivot
import ArticleAudit.Text.Line

/-!
# Facts about a line

Before blocks are built, each line is described by itself: its spans, its indentation and quotation
and the marks it starts with. A quoted line has no marks of its own. What a line means for its
neighbours is decided later.
-/

set_option autoImplicit false

namespace ArticleAudit.Markdown

open ArticleAudit.Text

/-- What can be said of a line without its neighbours. -/
structure LineFacts where
  line : Span
  content : Span
  text : List Char
  isBlank : Bool
  indent : Nat
  indentBytes : Nat
  quote : Quote
  fence : Option Fence
  heading : Option Heading
  marker : Option ListMarker
  isRow : Bool
  isSeparator : Bool
  deriving DecidableEq, Repr, Inhabited

namespace LineFacts

/-- The offset after the last character that is not blank. -/
def stop (l : LineFacts) : Nat :=
  l.content.start + byteSize (trimEnd l.text)

/-- The offset of the first character that is not blank. -/
def start (l : LineFacts) : Nat :=
  min (l.content.start + l.indentBytes) l.stop

/-- The quoted part of the line. -/
def unquoted (l : LineFacts) : List Char :=
  l.text.drop l.quote.offset

/-- The content of a line and where it starts: the line terminator is cut off, and so is a byte
order mark at the start of the document. -/
def contentOf (l : Line) : Nat × List Char :=
  let text := dropEndWhile isLineEnd l.text
  match text with
  | [] => (l.span.start, text)
  | c :: rest =>
    if l.span.start == 0 && c == byteOrderMark then (l.span.start + c.utf8Size, rest)
    else (l.span.start, text)

/-- Describes a line; `strict` decides which headings count. -/
def ofLine (strict : Bool) (l : Line) : LineFacts :=
  let (start, text) := contentOf l
  let indent := leadingIndent text
  let quote := quoteOf text
  let plain := quote.depth == 0
  { line := l.span
    content := ⟨start, start + byteSize text⟩
    text
    isBlank := text.all Text.isBlank
    indent := columnsOf indent
    indentBytes := indent.length
    quote
    fence := if plain then Fence.ofLine? text else none
    heading := if plain then Heading.ofLine? strict text else none
    marker := if plain then ListMarker.ofLine? text else none
    isRow := plain && isTableRow text
    isSeparator := plain && isTableSeparator text }

/-- Describes every line of a text. -/
def ofText (strict : Bool) (cs : List Char) : List LineFacts :=
  (linesOf cs).map (ofLine strict)

end LineFacts

end ArticleAudit.Markdown
