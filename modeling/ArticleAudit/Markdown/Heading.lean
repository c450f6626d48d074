import ArticleAudit.Text.Blank
import ArticleAudit.Text.Slice

/-!
# Headings

A heading line has at most three spaces, one to six `#` marks and a title. In strict mode a space,
a tab or the end of the line must follow the marks. Marks that close the title after a space or a
tab are not part of it.
-/

set_option autoImplicit false

namespace ArticleAudit.Markdown

open ArticleAudit.Text

/-- A heading line: its level, the byte offset of its title within the line and the title. -/
structure Heading where
  level : Nat
  offset : Nat
  title : List Char
  deriving DecidableEq, Repr, Inhabited

namespace Heading

/-- The greatest level. -/
def maxLevel : Nat := 6

/-- Drops closing marks from a trimmed title: they count when nothing or a blank precedes them. -/
def dropClosing (title : List Char) : List Char :=
  let rest := dropEndWhile (· == '#') title
  if rest.length == title.length then title
  else
    match rest.getLast? with
    | none => []
    | some c => if isIndent c then trimEnd rest else title

/-- Reads a heading line. -/
def ofLine? (strict : Bool) (line : List Char) : Option Heading :=
  let lead := (line.takeWhile (· == ' ')).length
  let afterLead := line.dropWhile (· == ' ')
  let level := (afterLead.takeWhile (· == '#')).length
  let rest := afterLead.dropWhile (· == '#')
  let tight := match rest.head? with
    | none => false
    | some c => !isIndent c
  if lead > 3 || level == 0 || level > maxLevel || (strict && tight) then none
  else
    let blanks := rest.takeWhile isBlank
    some ⟨level, lead + level + byteSize blanks, dropClosing (trimEnd (trimStart rest))⟩

/-- Where the title ends within the line. -/
def stop (h : Heading) : Nat :=
  h.offset + byteSize h.title

end Heading

/-- The identifier of a tab, when a title is one link to `#tab/` and the identifier. -/
def tabId? (title : List Char) : Option (List Char) :=
  match title with
  | '[' :: rest =>
    let text := rest.takeWhile (· != ']')
    match "](#tab/".toList.isPrefixOf? (rest.dropWhile (· != ']')) with
    | none => none
    | some target =>
      let id := target.takeWhile fun c => c != ')' && !isBlank c
      let close := target.dropWhile fun c => c != ')' && !isBlank c
      if !text.isEmpty && !id.isEmpty && close == [')'] then some id else none
  | _ => none

end ArticleAudit.Markdown
