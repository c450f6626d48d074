import ArticleAudit.Block.Region
import ArticleAudit.Markdown.Blocks
import ArticleAudit.Metadata.Basic
import ArticleAudit.Toc.Items

/-!
# The blocks of a document

A document is segmented into a forest of blocks; what nothing else recognizes is a paragraph, so
segmentation never fails. The file name only decides whether the document is a table of contents.
-/

set_option autoImplicit false

namespace ArticleAudit

open ArticleAudit.Text ArticleAudit.Markdown

namespace Document

/-- The front matter of a text, looked for after a byte order mark. -/
def frontMatter? (source : List Char) : Option FrontMatter :=
  match source with
  | [] => none
  | c :: rest =>
    if c == byteOrderMark then FrontMatter.ofLines? c.utf8Size (splitLines rest)
    else FrontMatter.ofLines? 0 (splitLines (c :: rest))

/-- A field of the front matter, if the line is one that is not indented. -/
def fieldBlock? (source : List Char) (l : LineFacts) : Option Block :=
  if l.indent == 0 then
    (Field.ofLine? l.text).map fun field =>
      let start := l.content.start + field.valueOffset
      { Block.ofSource source .metadataField l.start l.stop with
        tag := some (Metadata.normalizeKey (String.ofList field.key))
        content := some ⟨start, start + byteSize field.value⟩ }
  else none

/-- A field that takes one more line. -/
def extendField (source : List Char) (field : Block) (l : LineFacts) : Block :=
  let span : Span := ⟨field.span.start, max l.stop field.span.stop⟩
  { field with span, text := String.ofList (slice source span) }

/-- Adds a line of the front matter to the fields before it, the latest field first. -/
def addFieldLine (source : List Char) (fields : List Block) (l : LineFacts) : List Block :=
  if l.isBlank then fields
  else
    match fieldBlock? source l, fields with
    | some field, fields => field :: fields
    | none, [] => []
    | none, last :: earlier => extendField source last l :: earlier

/-- The fields in the lines of the front matter. -/
def fieldBlocks (source : List Char) (lines : List LineFacts) : List Block :=
  (lines.foldl (addFieldLine source) []).reverse

/-- The block of the front matter. -/
def metadataBlock (source : List Char) (lines : List LineFacts) (fm : FrontMatter) : Block :=
  let body := lines.filter fun l => l.line.start ≥ fm.body.start && l.line.stop ≤ fm.body.stop
  ((Block.ofSource source .metadata fm.block.start fm.block.stop).withContent
    fm.body).withChildren (fieldBlocks source body)

/-- The blocks of a Markdown document: its front matter, then the blocks of the other lines, with
the sections of the headings. -/
def markdownBlocks (source : List Char) (strict : Bool) (lines : List LineFacts) : List Block :=
  let blocks :=
    match frontMatter? source with
    | none => Markdown.blocksOf source strict lines
    | some fm =>
      let main := lines.dropWhile fun l => l.line.start < fm.block.stop
      metadataBlock source lines fm :: Markdown.blocksOf source strict main
  Block.assignRegions (byteSize source) blocks

/-- Segments a document. -/
def segment (fileName : String) (source : List Char) (strict : Bool) : List Block :=
  let lines := LineFacts.ofText strict source
  if Toc.isToc fileName lines then Toc.blocksOf source lines
  else markdownBlocks source strict lines

end Document

end ArticleAudit
