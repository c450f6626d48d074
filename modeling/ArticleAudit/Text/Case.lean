import ArticleAudit.Unicode.CaseTable
import ArticleAudit.Unicode.Property

/-!
# Small letters

Two lower-casings are used. Names in ASCII formats are lowered letter by letter (`Char.toLower`).
Keys and topics are lowered by the full Unicode mapping: a dotted capital I becomes two
characters, and a capital sigma at the end of a word becomes the final small sigma.
-/

set_option autoImplicit false

namespace ArticleAudit.Text

open ArticleAudit.Unicode

/-- The small form of a character, without regard to its neighbours. -/
def lowerChar (c : Char) : List Char :=
  if c.toNat < 0x80 then [c.toLower]
  else if c.toNat == 0x130 then ['i', Char.ofNat 0x307]
  else
    match lowerTable.find? (·.covers c.toNat) with
    | some row => [Char.ofNat (row.apply c.toNat)]
    | none => [c]

/-- The first character that is not ignorable for case exists and has a case. -/
def startsCased (cs : List Char) : Bool :=
  match cs.dropWhile fun c => caseIgnorable.contains c.toNat with
  | [] => false
  | c :: _ => cased.contains c.toNat

/-- Lowers a text; `before` holds the characters already passed, the latest first. A capital sigma
is final when a cased character stands before it and none follows, ignorable ones skipped. -/
def lowerFrom (before : List Char) : List Char → List Char
  | [] => []
  | c :: rest =>
    let small :=
      if c.toNat == 0x3A3 then
        if startsCased before && !startsCased rest then [Char.ofNat 0x3C2] else [Char.ofNat 0x3C3]
      else lowerChar c
    small ++ lowerFrom (c :: before) rest

/-- The small form of a text. -/
def lowercase (cs : List Char) : List Char :=
  lowerFrom [] cs

/-- `lowercase` on strings. -/
def lowercaseString (s : String) : String :=
  String.ofList (lowercase s.toList)

/-- Lowers ASCII letters and leaves every other character alone. -/
def lowerAscii (cs : List Char) : List Char :=
  cs.map Char.toLower

end ArticleAudit.Text
