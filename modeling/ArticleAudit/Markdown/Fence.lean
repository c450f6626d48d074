import ArticleAudit.Text.Blank

/-!
# Code fences

A fence line starts, after white space, with three or more backticks or tildes; the rest of the
line, trimmed, is its info string. A fence of backticks has no backtick in its info string.
-/

set_option autoImplicit false

namespace ArticleAudit.Markdown

open ArticleAudit.Text

/-- The character a fence is made of. -/
inductive FenceMark
  | backticks
  | tildes
  deriving DecidableEq, Repr, Inhabited

/-- The character itself. -/
def FenceMark.char : FenceMark → Char
  | .backticks => '\x60'
  | .tildes => '~'

/-- A line that opens or closes a fence: the mark, the length of its run and the info string. -/
structure Fence where
  mark : FenceMark
  length : Nat
  info : List Char
  deriving DecidableEq, Repr, Inhabited

namespace Fence

/-- Reads a fence of one mark. -/
def ofMark? (mark : FenceMark) (text : List Char) : Option Fence :=
  let run := text.takeWhile (· == mark.char)
  let info := trim (text.dropWhile (· == mark.char))
  if run.length < 3 then none
  else if mark == .backticks && info.contains mark.char then none
  else some ⟨mark, run.length, info⟩

/-- Reads a fence line. -/
def ofLine? (line : List Char) : Option Fence :=
  let text := trimStart line
  (ofMark? .backticks text).orElse fun _ => ofMark? .tildes text

/-- A line closes a fence when it is a bare run of the same mark, at least as long. -/
def isClosedBy (opening : Fence) (line : Option Fence) : Bool :=
  match line with
  | none => false
  | some f => f.mark == opening.mark && f.length ≥ opening.length && f.info.isEmpty

end Fence

/-- The language of an info string: its first word, ASCII letters made small. -/
def languageOf (info : List Char) : List Char :=
  lowerFirst (words info)
where
  /-- The first word, lowered. -/
  lowerFirst : List (List Char) → List Char
    | [] => []
    | w :: _ => w.map Char.toLower

end ArticleAudit.Markdown
