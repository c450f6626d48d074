/-!
# Paths

A path is a text whose parts are separated by slashes. Repeated slashes count once, a slash at the
end does not count, and neither does a part that is a single point, unless it stands first. Going up
from a path cuts its text, so what is left of it stays as it was written.
-/

set_option autoImplicit false

namespace ArticleAudit.Files

/-- A path cut at its slashes; the path of the empty text has no pieces. -/
structure Path where
  pieces : List (List Char)
  deriving DecidableEq, Repr, Inhabited

namespace Path

/-- The pieces between slashes. -/
def cut : List Char → List (List Char)
  | [] => [[]]
  | c :: rest =>
    if c == '/' then [] :: cut rest
    else
      match cut rest with
      | [] => [[c]]
      | piece :: more => (c :: piece) :: more

/-- Cuts a path. -/
def ofString (s : String) : Path :=
  if s.isEmpty then ⟨[]⟩ else ⟨cut s.toList⟩

/-- The text of a path. The first piece of a path from the root is empty. -/
def toString (p : Path) : String :=
  if p.pieces == [[]] then "/" else String.ofList (List.intercalate ['/'] p.pieces)

/-- The path starts at the root. -/
def isAbsolute (p : Path) : Bool :=
  p.pieces.head? == some []

/-- A piece after the first one that is a part of the path. -/
def isPart (piece : List Char) : Bool :=
  !(piece.isEmpty || piece == ['.'])

/-- The path without pieces at its end that are no parts; the first piece stays. -/
def trim : List (List Char) → List (List Char)
  | [] => []
  | first :: rest => first :: (rest.reverse.dropWhile fun p => !isPart p).reverse

/-- The last part, unless there is none or it leads to a directory. -/
def fileName? (p : Path) : Option String :=
  match (trim p.pieces).getLast? with
  | none => none
  | some last =>
    if last.isEmpty || last == ['.'] || last == ['.', '.'] then none
    else some (String.ofList last)

/-- The path without its last part; the root and the empty path have no parent. -/
def parent? (p : Path) : Option Path :=
  match trim p.pieces with
  | [] => none
  | [first] => if first.isEmpty then none else some ⟨[]⟩
  | pieces => some ⟨trim pieces.dropLast⟩

/-- The paths above a path; `fuel` bounds their number. -/
def above : Nat → Path → List Path
  | 0, _ => []
  | fuel + 1, p =>
    match p.parent? with
    | some parent => parent :: above fuel parent
    | none => []

/-- All paths above a path, the nearest first. -/
def ancestors (p : Path) : List Path :=
  above (p.pieces.length + 1) p

end Path

/-- Joins a name to a path as text: an absolute name replaces the path, and a slash is put between
the two unless the path is empty or already ends with one. -/
def joinPath (base name : String) : String :=
  if name.toList.head? == some '/' then name
  else if base == "" || base.toList.getLast? == some '/' then base ++ name
  else base ++ "/" ++ name

end ArticleAudit.Files
