import ArticleAudit.Text.Slice

/-!
# Line and column of an offset

Both count from zero, and columns count bytes. An offset past the end stands for the end.
-/

set_option autoImplicit false

namespace ArticleAudit.Text

/-- A place in a document, both parts from zero. -/
structure Position where
  line : Nat
  column : Nat
  deriving DecidableEq, Repr, Inhabited

/-- Walks `offset` bytes from a position: a line feed starts a new line, and any other character
moves right by its size. Inside a character the column counts its bytes. -/
def Position.advance (p : Position) : Nat → List Char → Position
  | _, [] => p
  | offset, c :: rest =>
    if offset < c.utf8Size then ⟨p.line, p.column + offset⟩
    else if c = '\n' then Position.advance ⟨p.line + 1, 0⟩ (offset - 1) rest
    else Position.advance ⟨p.line, p.column + c.utf8Size⟩ (offset - c.utf8Size) rest

/-- The position of a byte offset. -/
def positionOf (cs : List Char) (offset : Nat) : Position :=
  Position.advance ⟨0, 0⟩ offset cs

/-- The positions of a span's two ends. -/
def rangeOf (cs : List Char) (s : Span) : Position × Position :=
  (positionOf cs s.start, positionOf cs s.stop)

end ArticleAudit.Text
