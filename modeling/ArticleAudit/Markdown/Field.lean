import ArticleAudit.Text.Blank
import ArticleAudit.Text.Slice

/-!
# Fields and front matter

A field is a line `key: value` whose key starts the line. Front matter is a block of such lines at
the top of a document, between a line of three dashes and a line of three dashes or three points.
-/

set_option autoImplicit false

namespace ArticleAudit.Markdown

open ArticleAudit.Text

/-- A field: its key, which starts the line, and its value at a byte offset of the line. -/
structure Field where
  key : List Char
  valueOffset : Nat
  value : List Char
  deriving DecidableEq, Repr, Inhabited

/-- The characters a key starts with. -/
def isKeyStart (c : Char) : Bool :=
  c.isAlphanum || c == '_'

/-- The characters a key consists of. -/
def isKeyChar (c : Char) : Bool :=
  isKeyStart c || c == '.' || c == '-'

/-- The value after a colon: nothing, or a blank and one line of text. An absent value is placed
just after the key's first following byte. -/
def fieldValue? (key : List Char) (colonStop : Nat) (rest : List Char) : Option Field :=
  if rest.isEmpty then some ⟨key, key.length + 1, []⟩
  else
    let blanks := rest.takeWhile isIndent
    let value := dropEndWhile isIndent (rest.dropWhile isIndent)
    if blanks.isEmpty || value.contains '\n' then none
    else some ⟨key, colonStop + blanks.length, value⟩

/-- Reads a field line. -/
def Field.ofLine? (line : List Char) : Option Field :=
  match line with
  | [] => none
  | c :: _ =>
    if !isKeyStart c then none
    else
      let key := line.takeWhile isKeyChar
      let afterKey := line.dropWhile isKeyChar
      let blanks := afterKey.takeWhile isIndent
      match afterKey.dropWhile isIndent with
      | ':' :: rest => fieldValue? key (key.length + blanks.length + 1) rest
      | _ => none

/-- The byte order mark. -/
def byteOrderMark : Char := Char.ofNat 0xFEFF

/-- Where front matter stands: the whole block, delimiters included, and the lines between. -/
structure FrontMatter where
  block : Span
  body : Span
  deriving DecidableEq, Repr, Inhabited

namespace FrontMatter

/-- The line that opens front matter, and one of the two that close it. -/
def delimiter : List Char := "---".toList

/-- The line closes front matter. -/
def isClosing (line : List Char) : Bool :=
  let text := trimEnd line
  text == delimiter || text == "...".toList

/-- Looks for the closing line among lines of which the first stands at `offset`; answers where
the body stops and where the closing text stops. -/
def findClosing (offset : Nat) : List (List Char) → Option (Nat × Nat)
  | [] => none
  | line :: rest =>
    if isClosing line then some (offset, offset + byteSize (trimEnd line))
    else findClosing (offset + byteSize line) rest

/-- Front matter in lines of which the first stands at `start`. -/
def ofLines? (start : Nat) : List (List Char) → Option FrontMatter
  | [] => none
  | first :: rest =>
    if trimEnd first == delimiter then
      let bodyStart := start + byteSize first
      (findClosing bodyStart rest).map fun (bodyStop, stop) =>
        ⟨⟨start, stop⟩, ⟨bodyStart, bodyStop⟩⟩
    else none

end FrontMatter

end ArticleAudit.Markdown
