import ArticleAudit.Text.Blank

/-!
# Zone pivots

A zone opens with a line of three colons, the word `zone` and attributes, and ends with a line of
three colons and `zone-end`.
-/

set_option autoImplicit false

namespace ArticleAudit.Markdown

open ArticleAudit.Text

/-- What follows the colons and white space of a zone line. -/
def afterColons? (line : List Char) : Option (List Char) :=
  (":::".toList.isPrefixOf? (trim line)).map trimStart

/-- The attributes of a line that opens a zone. -/
def zoneAttributes? (line : List Char) : Option (List Char) :=
  match (afterColons? line).bind ("zone".toList.isPrefixOf? ·) with
  | none => none
  | some rest =>
    let attributes := trimStart rest
    if attributes.isEmpty || attributes.length == rest.length || attributes.contains '\n' then none
    else some attributes

/-- The line ends a zone. -/
def isZoneEnd (line : List Char) : Bool :=
  afterColons? line == some "zone-end".toList

end ArticleAudit.Markdown
