import ArticleAudit.Text.Blank

/-!
# Quoted lines and alerts

A quoted line starts with `>` marks, spaces allowed before and between them. The depth is the
number of marks and stops counting at 255. An alert is a quoted line that holds only a word such as
NOTE in brackets after an exclamation mark.
-/

set_option autoImplicit false

namespace ArticleAudit.Markdown

open ArticleAudit.Text

/-- How deep a line is quoted, and the byte offset of what is quoted. -/
structure Quote where
  depth : Nat
  offset : Nat
  deriving DecidableEq, Repr, Inhabited

/-- The greatest depth that is counted, for quotes, lists and table-of-contents items alike. -/
def maxDepth : Nat := 255

/-- The next deeper level; it stays at `maxDepth` once that is reached. -/
def deeper (depth : Nat) : Nat :=
  min maxDepth (depth + 1)

/-- The marks and spaces that start a quoted line. -/
def quoteMarks (line : List Char) : List Char :=
  line.takeWhile fun c => c == ' ' || c == '>'

/-- The quotation of a line; an unquoted line has depth and offset zero. -/
def quoteOf (line : List Char) : Quote :=
  let marks := quoteMarks line
  let depth := marks.count '>'
  if depth == 0 then ⟨0, 0⟩ else ⟨min maxDepth depth, marks.length⟩

/-- The words an alert may hold. -/
def alertNames : List (List Char) :=
  ["NOTE", "TIP", "IMPORTANT", "CAUTION", "WARNING"].map String.toList

/-- The word of an alert, in capitals; letters of either case are accepted. -/
def alert? (text : List Char) : Option (List Char) :=
  match trim text with
  | '[' :: '!' :: rest =>
    match rest.span (· != ']') with
    | (name, [']']) =>
      let capitals := name.map Char.toUpper
      if alertNames.contains capitals then some capitals else none
    | _ => none
  | _ => none

end ArticleAudit.Markdown
