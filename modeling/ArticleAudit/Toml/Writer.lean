import ArticleAudit.Text.Quoted
import ArticleAudit.Toml.Text

/-!
# Writing TOML

A string is written in the plainest form that can hold it: between quotation marks if nothing in it
needs an escape, else between apostrophes, else between three marks, and with escapes only where no
other form will do.
-/

set_option autoImplicit false

namespace ArticleAudit.Toml

/-- A form of strings. -/
structure Quoting where
  /-- The mark, a quotation mark where there are escapes. -/
  escapes : Bool
  /-- The string is between three marks, and may hold line breaks. -/
  long : Bool
  deriving DecidableEq, Repr, Inhabited

namespace Quoting

/-- The mark of a form. -/
def mark (q : Quoting) : Char :=
  if q.escapes then '"' else '\''

/-- The marks on either side. -/
def delimiter (q : Quoting) : List Char :=
  List.replicate (if q.long then 3 else 1) q.mark

end Quoting

/-! ## Choice of a form -/

/-- The length of the longest run of a character, where a run of `current` comes before. -/
def longestRun (c : Char) (current : Nat) : List Char → Nat
  | [] => current
  | d :: rest =>
    if d == c then longestRun c (current + 1) rest else max current (longestRun c 0 rest)

/-- The text holds a character that only an escape can stand for. -/
def needsEscape (cs : List Char) : Bool :=
  cs.any fun c => isControl c && c != '\n'

/-- A form can hold a text as it is. -/
def holdsPlainly (q : Quoting) (cs : List Char) : Bool :=
  !needsEscape cs && (!q.escapes || !cs.contains '\\') && (q.long || !cs.contains '\n') &&
    longestRun q.mark 0 cs ≤ (if q.long then 2 else 0)

/-- The forms in the order of preference. -/
def preferences : List Quoting :=
  [⟨true, false⟩, ⟨false, false⟩, ⟨true, true⟩, ⟨false, true⟩]

/-- The form that a text is written in. -/
def quotingOf (cs : List Char) : Quoting :=
  (preferences.find? fun q => holdsPlainly q cs).getD ⟨true, cs.contains '\n'⟩

/-! ## Characters -/

/-- The short escapes that are written, without those of marks and line breaks. -/
def shortEscapes : List (Char × Char) :=
  [('\x08', 'b'), ('\t', 't'), ('\x0c', 'f'), ('\r', 'r'), ('\\', '\\')]

/-- The escape of a control character by its code point. -/
def codeEscape (c : Char) : List Char :=
  '\\' :: 'u' :: (Text.hexPadded 4 c.toNat).map Char.toUpper

/-- A character of a string with escapes. Line breaks stand as they are in the long form. -/
def escapeChar (long : Bool) (c : Char) : List Char :=
  match shortEscapes.lookup c with
  | some letter => ['\\', letter]
  | none =>
    if c == '\n' then (if long then [c] else ['\\', 'n'])
    else if isControl c then codeEscape c
    else [c]

/-- A text with escapes, where `marks` quotation marks come before that stand as they are. At most
two of them do so in the long form, and none in the other. -/
def escape (long : Bool) (marks : Nat) : List Char → List Char
  | [] => []
  | c :: rest =>
    if c == '"' then
      if long && marks < 2 then c :: escape long (marks + 1) rest
      else '\\' :: c :: escape long 0 rest
    else escapeChar long c ++ escape long 0 rest

/-- A string in a form. A long string that holds a line break starts on a line of its own. -/
def writeIn (q : Quoting) (cs : List Char) : List Char :=
  q.delimiter ++ (if q.long && cs.contains '\n' then ['\n'] else []) ++
    (if q.escapes then escape q.long 0 cs else cs) ++ q.delimiter

/-- A string. -/
def writeText (cs : List Char) : List Char :=
  writeIn (quotingOf cs) cs

/-- A truth value. -/
def writeBool (b : Bool) : List Char :=
  (if b then "true" else "false").toList

/-- The line of a member. -/
def writeMember (key : String) (value : List Char) : List Char :=
  key.toList ++ " = ".toList ++ value ++ ['\n']

end ArticleAudit.Toml
