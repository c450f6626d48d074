import ArticleAudit.Text.Blank
import ArticleAudit.Text.Slice

/-!
# Table rows

A row starts with a pipe after white space. Pipes separate its cells; a pipe after a backslash does
not. The blank part before the first pipe and the empty part after the last one are no cells.
-/

set_option autoImplicit false

namespace ArticleAudit.Markdown

open ArticleAudit.Text

/-- The line is a table row. -/
def isTableRow (line : List Char) : Bool :=
  (trimStart line).head? == some '|'

/-- The characters of a row that separates a table's head from its body. -/
def isSeparatorChar (c : Char) : Bool :=
  c == '|' || c == '-' || c == ':' || c == ' ' || c == '\t'

/-- The line separates a table's head from its body: a row of pipes, dashes and colons. -/
def isTableSeparator (line : List Char) : Bool :=
  let text := trim line
  isTableRow text && text.contains '-' && text.all isSeparatorChar

/-- The parts between unescaped pipes, escapes kept. There is always one part more than pipes. -/
def splitAtPipes : List Char → List (List Char)
  | [] => [[]]
  | '|' :: rest => [] :: splitAtPipes rest
  | '\\' :: c :: rest => addFront ['\\', c] (splitAtPipes rest)
  | c :: rest => addFront [c] (splitAtPipes rest)
where
  /-- Puts characters before the first part. -/
  addFront (cs : List Char) : List (List Char) → List (List Char)
    | [] => [cs]
    | part :: parts => (cs ++ part) :: parts

/-- The span of a part's trimmed text; a blank part has the empty span where it starts. -/
def cellSpan (start : Nat) (part : List Char) : Span :=
  if part.all isBlank then Span.point start
  else
    let first := start + byteSize (part.takeWhile isBlank)
    ⟨first, first + byteSize (trim part)⟩

/-- The cells of the parts that follow a pipe; an empty last part is none. -/
def laterCells (start : Nat) : List (List Char) → List Span
  | [] => []
  | [part] => if part.isEmpty then [] else [cellSpan start part]
  | part :: rest => cellSpan start part :: laterCells (start + byteSize part + 1) rest

/-- The spans of a row's cells, for a row that stands at `base`. -/
def cellsOf (row : List Char) (base : Nat) : List Span :=
  match splitAtPipes (trimEnd row) with
  | [] => []
  | part :: rest =>
    let first := if part.all isBlank then [] else [cellSpan base part]
    first ++ laterCells (base + byteSize part + 1) rest

end ArticleAudit.Markdown
