import ArticleAudit.Markdown.LineFacts

/-!
# Lines that open a block

A line opens at most one block. Fences go first, then zones, headings, alerts, tables and lists. In
strict mode a table needs a separator row right after its first row.
-/

set_option autoImplicit false

namespace ArticleAudit.Markdown

/-- The block that a line opens, with what the line says about it. -/
inductive Opener
  | fence (fence : Fence)
  | zone (attributes : List Char)
  | heading (heading : Heading)
  | note (name : List Char)
  | table
  | list (marker : ListMarker)
  deriving DecidableEq, Repr, Inhabited

/-- The first value that is present. -/
def firstSome {α : Type} : List (Option α) → Option α
  | [] => none
  | some a :: _ => some a
  | none :: rest => firstSome rest

/-- The attributes of an unquoted line that opens a zone. -/
def LineFacts.zone? (l : LineFacts) : Option (List Char) :=
  if l.quote.depth == 0 then zoneAttributes? l.text else none

/-- The word of a quoted line that is an alert. -/
def LineFacts.alert? (l : LineFacts) : Option (List Char) :=
  if l.quote.depth > 0 then Markdown.alert? l.unquoted else none

/-- The line starts a table, given the lines after it. -/
def startsTable (strict : Bool) (l : LineFacts) (rest : List LineFacts) : Bool :=
  l.isRow && (!strict || (rest.head?.map LineFacts.isSeparator).getD false)

/-- What a line opens, given the lines after it. -/
def openerOf? (strict : Bool) (l : LineFacts) (rest : List LineFacts) : Option Opener :=
  firstSome
    [ l.fence.map .fence,
      l.zone?.map .zone,
      l.heading.map .heading,
      l.alert?.map .note,
      if startsTable strict l rest then some .table else none,
      l.marker.map .list ]

end ArticleAudit.Markdown
