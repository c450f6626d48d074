import ArticleAudit.Json.Tree
import ArticleAudit.Text.Quoted

/-!
# Writing JSON

A tree is written without white space, its members in their order. In a text only the quotation
mark, the backslash and the controls are escaped, by a short escape where there is one.
-/

set_option autoImplicit false

namespace ArticleAudit.Json

/-! ## Texts -/

/-- The characters that have a short escape, each with its letter. -/
def shortEscapes : List (Char × Char) :=
  [('"', '"'), ('\\', '\\'), ('\x08', 'b'), ('\x0c', 'f'), ('\n', 'n'), ('\r', 'r'), ('\t', 't')]

/-- The escape of a character below 256 by its code point. -/
def codeEscape (c : Char) : List Char :=
  ['\\', 'u', '0', '0', Text.hexDigitChar (c.toNat / 16), Text.hexDigitChar (c.toNat % 16)]

/-- A character of a text. -/
def writeChar (c : Char) : List Char :=
  match shortEscapes.lookup c with
  | some letter => ['\\', letter]
  | none => if c.toNat < 0x20 then codeEscape c else [c]

/-- The escape of half a character. -/
def halfEscape : List Char :=
  "\\ud800".toList

/-- A text between quotation marks. What has no characters is written as half of one. -/
def writeText (s : Option String) : List Char :=
  '"' :: (match s with
    | some s => s.toList.flatMap writeChar
    | none => halfEscape) ++ ['"']

/-! ## Numbers -/

/-- The fraction of a number with its point, if there is one. -/
def writeFraction (digits : List Char) : List Char :=
  if digits.isEmpty then [] else '.' :: digits

/-- The exponent of a number with its mark, if there is one. -/
def writeExponent : Option (Bool × List Char) → List Char
  | none => []
  | some (negative, digits) => 'e' :: (if negative then '-' else '+') :: digits

/-- The literal of a number. -/
def NumberText.write (t : NumberText) : List Char :=
  (if t.negative then ['-'] else []) ++
    (t.whole ++ (writeFraction t.fraction ++ writeExponent t.exponent))

/-! ## Values -/

mutual

/-- The text of a tree. -/
def Tree.write : Tree → List Char
  | .null => "null".toList
  | .bool b => (if b then "true" else "false").toList
  | .number t => t.write
  | .text s => writeText s
  | .array items => '[' :: writeItems items
  | .object members => '\x7b' :: writeMembers members

/-- The items of an array, up to its end. -/
def writeItems : List Tree → List Char
  | [] => [']']
  | [item] => item.write ++ [']']
  | item :: next :: rest => item.write ++ ',' :: writeItems (next :: rest)

/-- The members of an object, up to its end. -/
def writeMembers : List (Option String × Tree) → List Char
  | [] => ['\x7d']
  | [(key, value)] => writeText key ++ ':' :: value.write ++ ['\x7d']
  | (key, value) :: next :: rest =>
    writeText key ++ ':' :: value.write ++ ',' :: writeMembers (next :: rest)

end

end ArticleAudit.Json
