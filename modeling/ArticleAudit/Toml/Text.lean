import ArticleAudit.Unicode.Ranges

/-!
# Texts in TOML

A string stands between quotation marks, with escapes, or between apostrophes, where every character
stands for itself. Three marks make a string that may hold line breaks: the break right after the
opening marks does not count, breaks are line feeds however they are written, and a backslash at the
end of a line takes away all blanks and breaks after it. Control characters must be escaped.
-/

set_option autoImplicit false

namespace ArticleAudit.Toml

open ArticleAudit.Unicode

/-! ## Blanks and line ends -/

/-- A space or a tab. -/
def isBlank (c : Char) : Bool :=
  c == ' ' || c == '\t'

/-- A control character other than the tab. -/
def isControl (c : Char) : Bool :=
  (c.toNat < 0x20 && c != '\t') || c.toNat == 0x7f

/-- Passes blanks. -/
def skipBlanks (cs : List Char) : List Char :=
  cs.dropWhile isBlank

/-- Passes a line break. -/
def readBreak? : List Char → Option (List Char)
  | '\n' :: rest => some rest
  | '\r' :: '\n' :: rest => some rest
  | _ => none

/-- Passes a comment, which ends before a control character. -/
def skipComment : List Char → List Char
  | '#' :: rest => rest.dropWhile fun c => !isControl c
  | cs => cs

/-- Passes what is left of a line: blanks, a comment, and the break unless the text ends. -/
def readLineEnd? (cs : List Char) : Option (List Char) :=
  match skipComment (skipBlanks cs) with
  | [] => some []
  | rest => readBreak? rest

/-- Passes blanks and line breaks. -/
def skipBlankLines : List Char → List Char
  | '\r' :: '\n' :: rest => skipBlankLines rest
  | c :: rest => if isBlank c || c == '\n' then skipBlankLines rest else c :: rest
  | [] => []

/-! ## Escapes -/

/-- The character of a short escape. -/
def shortEscape? (c : Char) : Option Char :=
  [('b', '\x08'), ('t', '\t'), ('n', '\n'), ('f', '\x0c'), ('r', '\r'), ('e', '\x1b'), ('"', '"'),
    ('\\', '\\')].lookup c

/-- The number of hexadecimal digits after the letter of an escape. -/
def escapeWidth? (c : Char) : Option Nat :=
  [('x', 2), ('u', 4), ('U', 8)].lookup c

/-- The character with a code point. -/
def charOf? (n : Nat) : Option Char :=
  if n.isValidChar then some (Char.ofNat n) else none

/-- Reads a code point of a fixed number of hexadecimal digits. -/
def readCode? (width : Nat) (cs : List Char) : Option (Char × List Char) :=
  let digits := cs.take width
  if digits.length == width && digits.all (fun d => (hexDigit? d).isSome) then
    (charOf? (hexValue digits)).map fun c => (c, cs.drop width)
  else none

/-- Reads an escape after its backslash. -/
def readEscape? : List Char → Option (Char × List Char)
  | [] => none
  | c :: rest =>
    match shortEscape? c, escapeWidth? c with
    | some escaped, _ => some (escaped, rest)
    | none, some width => readCode? width rest
    | none, none => none

/-- Passes a line break after a backslash, with the blanks before it and all that is blank after. -/
def readContinuation? (cs : List Char) : Option (List Char) :=
  (readBreak? (skipBlanks cs)).map skipBlankLines

/-! ## Strings -/

/-- Reads a string up to its quotation mark; `fuel` bounds the characters. -/
def readBasic : Nat → List Char → Option (List Char × List Char)
  | 0, _ => none
  | _, [] => none
  | fuel + 1, c :: rest =>
    if c == '"' then some ([], rest)
    else if c == '\\' then do
      let (escaped, rest) ← readEscape? rest
      let (cs, rest) ← readBasic fuel rest
      return (escaped :: cs, rest)
    else if isControl c then none
    else (readBasic fuel rest).map fun (cs, rest) => (c :: cs, rest)

/-- Reads a string up to its apostrophe. -/
def readLiteral : List Char → Option (List Char × List Char)
  | [] => none
  | c :: rest =>
    if c == '\'' then some ([], rest)
    else if isControl c then none
    else (readLiteral rest).map fun (cs, rest) => (c :: cs, rest)

/-- The number of marks that a text starts with. -/
def countMarks (mark : Char) (cs : List Char) : Nat :=
  (cs.takeWhile (· == mark)).length

/-- The end of a string of three marks, which up to two more may precede: these belong to the
string. -/
def readClosing? (mark : Char) (cs : List Char) : Option (List Char × List Char) :=
  let count := countMarks mark cs
  if count < 3 then none
  else
    let own := min (count - 3) 2
    some (List.replicate own mark, cs.drop (own + 3))

/-- Reads a string up to its three marks; `fuel` bounds the characters. -/
def readLong (mark : Char) (escapes : Bool) : Nat → List Char → Option (List Char × List Char)
  | 0, _ => none
  | fuel + 1, cs =>
    match readClosing? mark cs with
    | some closing => some closing
    | none =>
      match cs with
      | [] => none
      | '\r' :: '\n' :: rest =>
        (readLong mark escapes fuel rest).map fun (cs, rest) => ('\n' :: cs, rest)
      | c :: rest =>
        if escapes && c == '\\' then
          match readContinuation? rest with
          | some rest => readLong mark escapes fuel rest
          | none => do
            let (escaped, rest) ← readEscape? rest
            let (cs, rest) ← readLong mark escapes fuel rest
            return (escaped :: cs, rest)
        else if isControl c && c != '\n' then none
        else (readLong mark escapes fuel rest).map fun (cs, rest) => (c :: cs, rest)

/-- Reads a string of three marks after the opening ones. -/
def readLongText (mark : Char) (escapes : Bool) (cs : List Char) :
    Option (List Char × List Char) :=
  let cs := (readBreak? cs).getD cs
  readLong mark escapes (cs.length + 1) cs

/-- Reads a string that is written on one line. -/
def readLineText? : List Char → Option (List Char × List Char)
  | '"' :: rest => readBasic (rest.length + 1) rest
  | '\'' :: rest => readLiteral rest
  | _ => none

/-- Reads a string. -/
def readText? : List Char → Option (List Char × List Char)
  | '"' :: '"' :: '"' :: rest => readLongText '"' true rest
  | '\'' :: '\'' :: '\'' :: rest => readLongText '\'' false rest
  | cs => readLineText? cs

end ArticleAudit.Toml
