import ArticleAudit.Json.Tree
import ArticleAudit.Unicode.Ranges

/-!
# Reading JSON

A JSON text is one value between white space. The reader answers its tree, or nothing where the text
breaks the grammar.
-/

set_option autoImplicit false

namespace ArticleAudit.Json

open ArticleAudit.Unicode

/-- The white space of JSON. -/
def isSpace (c : Char) : Bool :=
  c == ' ' || c == '\n' || c == '\r' || c == '\t'

/-- Passes white space. -/
def skipSpace (cs : List Char) : List Char :=
  cs.dropWhile isSpace

/-! ## Texts -/

/-- One piece of a text: a character, or a code unit from an escape. -/
inductive Piece
  | char (c : Char)
  | unit (n : Nat)
  deriving DecidableEq, Repr, Inhabited

/-- The number of four hexadecimal digits. -/
def readUnit (cs : List Char) : Option (Nat × List Char) :=
  match cs with
  | a :: b :: c :: d :: rest =>
    ([a, b, c, d].mapM hexDigit?).map fun digits =>
      (digits.foldl (fun n d => 16 * n + d) 0, rest)
  | _ => none

/-- The character of a short escape. -/
def shortEscape? (c : Char) : Option Char :=
  [('"', '"'), ('\\', '\\'), ('/', '/'), ('b', '\x08'), ('f', '\x0c'), ('n', '\n'), ('r', '\r'),
    ('t', '\t')].lookup c

/-- Reads the pieces of a text up to its closing quote; `fuel` bounds their number. -/
def readPieces : Nat → List Char → Option (List Piece × List Char)
  | 0, _ => none
  | _, [] => none
  | _, '"' :: rest => some ([], rest)
  | fuel + 1, '\\' :: 'u' :: rest => do
    let (n, rest) ← readUnit rest
    let (pieces, rest) ← readPieces fuel rest
    return (.unit n :: pieces, rest)
  | fuel + 1, '\\' :: c :: rest => do
    let escaped ← shortEscape? c
    let (pieces, rest) ← readPieces fuel rest
    return (.char escaped :: pieces, rest)
  | fuel + 1, c :: rest =>
    if c == '\\' || c.toNat < 0x20 then none
    else (readPieces fuel rest).map fun (pieces, rest) => (.char c :: pieces, rest)

/-- The first half of a character beyond sixteen bits. -/
def isHighHalf (n : Nat) : Bool :=
  0xD800 ≤ n && n ≤ 0xDBFF

/-- The second half of a character beyond sixteen bits. -/
def isLowHalf (n : Nat) : Bool :=
  0xDC00 ≤ n && n ≤ 0xDFFF

/-- The characters of pieces; halves must come in pairs. -/
def charsOf? : List Piece → Option (List Char)
  | [] => some []
  | .char c :: rest => (charsOf? rest).map (c :: ·)
  | .unit n :: .unit m :: rest =>
    if isHighHalf n then
      if isLowHalf m then
        (charsOf? rest).map (Char.ofNat (0x10000 + 0x400 * (n - 0xD800) + (m - 0xDC00)) :: ·)
      else none
    else if isLowHalf n then none
    else (charsOf? (.unit m :: rest)).map (Char.ofNat n :: ·)
  | .unit n :: rest =>
    if isHighHalf n || isLowHalf n then none else (charsOf? rest).map (Char.ofNat n :: ·)

/-- Reads a text after its opening quote. -/
def readText (cs : List Char) : Option (Option String × List Char) :=
  (readPieces (cs.length + 1) cs).map fun (pieces, rest) =>
    ((charsOf? pieces).map String.ofList, rest)

/-! ## Numbers -/

/-- Reads digits, at least one. -/
def readDigits (cs : List Char) : Option (List Char × List Char) :=
  let digits := cs.takeWhile Char.isDigit
  if digits.isEmpty then none else some (digits, cs.dropWhile Char.isDigit)

/-- Reads the whole part of a number: a zero, or digits that start with another one. -/
def readWhole (cs : List Char) : Option (List Char × List Char) :=
  match cs with
  | '0' :: rest => some (['0'], rest)
  | _ => readDigits cs

/-- Reads the fraction, if there is a point. -/
def readFraction (cs : List Char) : Option (List Char × List Char) :=
  match cs with
  | '.' :: rest => readDigits rest
  | _ => some ([], cs)

/-- Reads the exponent, if there is a mark. -/
def readExponent (cs : List Char) : Option (Option (Bool × List Char) × List Char) :=
  match cs with
  | c :: rest =>
    if c == 'e' || c == 'E' then do
      let (negative, rest) := match rest with
        | '-' :: rest => (true, rest)
        | '+' :: rest => (false, rest)
        | rest => (false, rest)
      let (digits, rest) ← readDigits rest
      return (some (negative, digits), rest)
    else some (none, cs)
  | [] => some (none, [])

/-- Reads a number. -/
def readNumber (cs : List Char) : Option (NumberText × List Char) := do
  let (negative, rest) := match cs with
    | '-' :: rest => (true, rest)
    | rest => (false, rest)
  let (whole, rest) ← readWhole rest
  let (fraction, rest) ← readFraction rest
  let (exponent, rest) ← readExponent rest
  return (⟨negative, whole, fraction, exponent⟩, rest)

/-! ## Values -/

/-- Reads a fixed word. -/
def readWord (word : String) (t : Tree) (cs : List Char) : Option (Tree × List Char) :=
  (word.toList.isPrefixOf? cs).map fun rest => (t, rest)

mutual

/-- Reads a value that starts here; `fuel` bounds the values, separators and levels passed. -/
def readValue : Nat → List Char → Option (Tree × List Char)
  | 0, _ => none
  | fuel + 1, cs =>
    match cs with
    | 'n' :: _ => readWord "null" .null cs
    | 't' :: _ => readWord "true" (.bool true) cs
    | 'f' :: _ => readWord "false" (.bool false) cs
    | '"' :: rest => (readText rest).map fun (s, rest) => (.text s, rest)
    | '[' :: rest =>
      match skipSpace rest with
      | ']' :: rest => some (.array [], rest)
      | rest => (readItems fuel rest).map fun (items, rest) => (.array items, rest)
    | '\x7b' :: rest =>
      match skipSpace rest with
      | '\x7d' :: rest => some (.object [], rest)
      | rest => (readMembers fuel rest).map fun (members, rest) => (.object members, rest)
    | _ => (readNumber cs).map fun (t, rest) => (.number t, rest)

/-- Reads the items of an array that has some, up to its end. -/
def readItems : Nat → List Char → Option (List Tree × List Char)
  | 0, _ => none
  | fuel + 1, cs => do
    let (item, rest) ← readValue fuel cs
    match skipSpace rest with
    | ',' :: rest =>
      let (items, rest) ← readItems fuel (skipSpace rest)
      return (item :: items, rest)
    | ']' :: rest => return ([item], rest)
    | _ => none

/-- Reads the members of an object that has some, up to its end. -/
def readMembers : Nat → List Char → Option (List (Option String × Tree) × List Char)
  | 0, _ => none
  | fuel + 1, cs => do
    let rest ← ['"'].isPrefixOf? cs
    let (key, rest) ← readText rest
    let rest ← [':'].isPrefixOf? (skipSpace rest)
    let (value, rest) ← readValue fuel (skipSpace rest)
    match skipSpace rest with
    | ',' :: rest =>
      let (members, rest) ← readMembers fuel (skipSpace rest)
      return ((key, value) :: members, rest)
    | '\x7d' :: rest => return ([(key, value)], rest)
    | _ => none

end

/-- The tree of a text. Every value takes a character, so two steps for each are enough. -/
def Tree.ofChars? (cs : List Char) : Option Tree := do
  let (t, rest) ← readValue (2 * cs.length + 2) (skipSpace cs)
  if (skipSpace rest).isEmpty then return t else none

end ArticleAudit.Json
