import ArticleAudit.Text.Blank

/-!
# Indentation and list markers

Only spaces and tabs indent a line; a tab counts four columns. A list marker is a dash, a star or a
plus, or one to nine digits with a point or a closing parenthesis, and a blank or the end of the
line follows it.
-/

set_option autoImplicit false

namespace ArticleAudit.Markdown

open ArticleAudit.Text

/-- The leading spaces and tabs of a line. -/
def leadingIndent (line : List Char) : List Char :=
  line.takeWhile isIndent

/-- The width of spaces and tabs, a tab being as wide as four spaces. -/
def columnsOf (indent : List Char) : Nat :=
  indent.length + 3 * indent.countP (· == '\t')

/-- A list marker: ordered or not, its column and the byte offset of the item's text. -/
structure ListMarker where
  ordered : Bool
  indent : Nat
  contentOffset : Nat
  deriving DecidableEq, Repr, Inhabited

/-- The characters that mark an unordered item. -/
def isBullet (c : Char) : Bool :=
  c == '-' || c == '*' || c == '+'

/-- The characters that end an item number. -/
def endsNumber (c : Char) : Bool :=
  c == '.' || c == ')'

/-- The most digits an item number has. -/
def maxNumberDigits : Nat := 9

/-- The length of the marker that a text starts with, and whether it is ordered. -/
def markerLength? (text : List Char) : Option (Bool × Nat) :=
  match text with
  | [] => none
  | c :: _ =>
    if isBullet c then some (false, 1)
    else
      let digits := text.takeWhile Char.isDigit
      if digits.isEmpty || digits.length > maxNumberDigits then none
      else
        match text.dropWhile Char.isDigit with
        | d :: _ => if endsNumber d then some (true, digits.length + 1) else none
        | [] => none

/-- Reads the list marker of a line. -/
def ListMarker.ofLine? (line : List Char) : Option ListMarker :=
  let indent := leadingIndent line
  let text := line.dropWhile isIndent
  match markerLength? text with
  | none => none
  | some (ordered, length) =>
    let rest := text.drop length
    let spaces := rest.takeWhile isIndent
    if rest.isEmpty || !spaces.isEmpty then
      some ⟨ordered, columnsOf indent, indent.length + length + spaces.length⟩
    else none

end ArticleAudit.Markdown
