import ArticleAudit.Decimal.Notation
import ArticleAudit.Text.Case
import ArticleAudit.Yaml.Value

/-!
# Writing YAML

A value is written in block style: the members of a mapping on lines of one column, the items of a
sequence after dashes, nested collections two columns further right. A sequence that is a member's
value keeps the member's column, and a collection after a mark starts on the line of the mark. A
text is written plain where that reads back, else in quotes; a text of several lines is a literal.
-/

set_option autoImplicit false

namespace ArticleAudit.Yaml

/-- Floats are positional from five places after the point up to sixteen before it. -/
def floatFormat : Decimal.Notation :=
  ⟨-5, 15, false, 1, ".inf", ".nan"⟩

/-! ## Scalars -/

/-- What can be said about a text before it is written. -/
structure TextFacts where
  breaksLines : Bool
  isPlain : Bool
  isSingleQuoted : Bool
  isLiteral : Bool
  deriving DecidableEq, Repr, Inhabited

/-- The characters that are written as they are. -/
def isPrintable (c : Char) : Bool :=
  let n := c.toNat
  n == 0xA || (0x20 ≤ n && n ≤ 0x7E) || (0xA0 ≤ n && n ≤ 0xD7FF) ||
    (0xE000 ≤ n && n ≤ 0xFFFD && n != 0xFEFF) || 0x10000 ≤ n

/-- A mark at the start of a text that would not read as part of a plain scalar. -/
def startsMarked : List Char → Bool
  | [] => false
  | c :: rest =>
    "#,[]\x7b\x7d&*!|>'\"%@\x60".toList.contains c ||
      ("?:-".toList.contains c && atSpace rest)

/-- A colon before a space, or a number sign after one, further on in a text. -/
def holdsMark : Char → List Char → Bool
  | _, [] => false
  | before, c :: rest =>
    (c == ':' && atSpace rest) || (c == '#' && isSpace before) || holdsMark c rest

/-- Two neighbours satisfy the two tests. -/
def holdsPair (p q : Char → Bool) : List Char → Bool
  | a :: b :: rest => (p a && q b) || holdsPair p q (b :: rest)
  | _ => false

/-- The facts about a text. -/
def TextFacts.ofChars (cs : List Char) : TextFacts :=
  let isSpaceChar (c : Char) : Bool := c == ' '
  let marked := match cs with
    | [] => false
    | c :: rest =>
      "---".toList.isPrefixOf cs || "...".toList.isPrefixOf cs || startsMarked cs ||
        holdsMark c rest
  let edge (c? : Option Char) : Bool := c?.any fun c => isSpaceChar c || isBreak c
  let spaceBeforeBreak := holdsPair isSpaceChar isBreak cs
  let spaceAfterBreak := holdsPair isBreak isSpaceChar cs
  let special := cs.any fun c => !isPrintable c
  let breaksLines := cs.any isBreak
  let unsafeText := spaceBeforeBreak || special
  ⟨breaksLines,
    !(marked || edge cs.head? || edge cs.getLast? || breaksLines || special),
    !(spaceAfterBreak || unsafeText),
    !cs.isEmpty && !(cs.getLast?.any isSpaceChar) && !unsafeText⟩

/-- The words that other readers take for truth values. -/
def truthWords : List String :=
  ["y", "Y", "yes", "Yes", "YES", "n", "N", "no", "No", "NO", "true", "True", "TRUE", "false",
    "False", "FALSE", "on", "On", "ON", "off", "Off", "OFF"]

/-- A text that would not read back as a text when it is plain. -/
def isAmbiguous (s : String) : Bool :=
  truthWords.contains s ||
    match Meaning.ofString s with
    | .text => Meaning.isPaddedDigits s.toList
    | _ => true

/-- The capital hexadecimal digits of a number, at least `width` of them. -/
def hexDigits (width n : Nat) : List Char :=
  let digits := (Nat.toDigits 16 n).map Char.toUpper
  List.replicate (width - digits.length) '0' ++ digits

/-- A character inside double quotes. -/
def escapeChar (c : Char) : List Char :=
  let n := c.toNat
  let named : List (Nat × Char) :=
    [(0, '0'), (7, 'a'), (8, 'b'), (9, 't'), (0xA, 'n'), (0xB, 'v'), (0xC, 'f'), (0xD, 'r'),
      (0x1B, 'e'), (0x22, '"'), (0x5C, '\\'), (0x85, 'N'), (0x2028, 'L'), (0x2029, 'P')]
  match named.lookup n with
  | some letter => ['\\', letter]
  | none =>
    if isPrintable c then [c]
    else if n ≤ 0xFF then '\\' :: 'x' :: hexDigits 2 n
    else if n ≤ 0xFFFF then '\\' :: 'u' :: hexDigits 4 n
    else '\\' :: 'U' :: hexDigits 8 n

/-- A text in double quotes. -/
def doubleQuoted (cs : List Char) : List Char :=
  '"' :: cs.flatMap escapeChar ++ ['"']

/-- A text in single quotes. -/
def singleQuoted (cs : List Char) : List Char :=
  '\'' :: (cs.flatMap fun c => if c == '\'' then ['\'', '\''] else [c]) ++ ['\'']

/-- A text of one line, in the first form that reads back. -/
def flowText (s : String) : List Char :=
  let cs := s.toList
  let facts := TextFacts.ofChars cs
  if isAmbiguous s then (if facts.isSingleQuoted then singleQuoted cs else doubleQuoted cs)
  else if facts.isPlain then cs
  else if facts.isSingleQuoted then singleQuoted cs
  else doubleQuoted cs

/-- The lines of a literal at a column. -/
def literalLines (column : Nat) : Bool → List Char → List Char
  | _, [] => []
  | lineStart, c :: rest =>
    if isBreak c then c :: literalLines column true rest
    else
      (if lineStart then List.replicate column ' ' else []) ++ c :: literalLines column false rest

/-- The head of a literal: a hint of the indentation when the text starts with a space or a break,
and what becomes of the last breaks. -/
def literalHead (cs : List Char) : List Char :=
  let hint := if cs.head?.any fun c => c == ' ' || isBreak c then ['2'] else []
  let chomp := match cs.reverse with
    | [] => ['-']
    | [c] => if isBreak c then ['+'] else ['-']
    | c :: d :: _ => if !isBreak c then ['-'] else if isBreak d then ['+'] else []
  '|' :: hint ++ chomp

/-- A text inside a collection whose members stand two columns left of `column`. -/
def blockText (column : Nat) (s : String) : List Char :=
  let cs := s.toList
  if cs.contains '\n' && !truthWords.contains s then
    if (TextFacts.ofChars cs).isLiteral then
      literalHead cs ++ '\n' :: literalLines column true cs
    else doubleQuoted cs
  else flowText s

/-! ## Values -/

/-- The characters of a tag that are written as they are. -/
def isTagSafe (c : Char) : Bool :=
  c.isAlphanum || "-_;/?:@&=+$,.~*'()[]!".toList.contains c

/-- The octets of a character after percent signs. -/
def percentEncoded (c : Char) : List Char :=
  (String.singleton c).toUTF8.toList.flatMap fun octet => '%' :: hexDigits 2 octet.toNat

/-- A tag. -/
def tagText (tag : String) : List Char :=
  if tag == "!" then "!<!>".toList
  else '!' :: tag.toList.flatMap fun c => if isTagSafe c then [c] else percentEncoded c

/-- Joins texts with line breaks and a column; a literal already ends its line. -/
def joinAt (column : Nat) : List (List Char) → List Char
  | [] => []
  | [last] => last
  | text :: rest =>
    let stop := if text.getLast? == some '\n' then [] else ['\n']
    text ++ stop ++ List.replicate column ' ' ++ joinAt column rest

/-- A value that is a short text on one line, so that it can stand before a colon. -/
def isSimpleKey : Value → Bool
  | .text s => !(s.toList.any isBreak) && s.utf8ByteSize ≤ 128
  | .sequence items => items.isEmpty
  | .mapping members => members.isEmpty
  | .tagged tag v => isSimpleTagged tag v
  | _ => true
where
  isSimpleTagged (tag : String) : Value → Bool
    | .text s => !(s.toList.any isBreak) && s.utf8ByteSize + tag.utf8ByteSize < 128
    | .sequence items => items.isEmpty
    | .mapping members => members.isEmpty
    | _ => true

mutual

/-- A value after a mark (`-`, `?` or `:`) at a column, or after a key in it, with the space or the
line break before it. -/
def afterMark (column : Nat) (isKeyed : Bool) : Value → List Char
  | .null => " null".toList
  | .bool b => ' ' :: (toString b).toList
  | .int n => ' ' :: (toString n).toList
  | .float x => ' ' :: (floatFormat.write x).toList
  | .text s => ' ' :: blockText (column + 2) s
  | .sequence [] => " []".toList
  | .mapping [] => " \x7b\x7d".toList
  | .sequence items =>
    if isKeyed then '\n' :: List.replicate column ' ' ++ joinAt column (itemTexts column items)
    else ' ' :: joinAt (column + 2) (itemTexts (column + 2) items)
  | .mapping members =>
    let body := joinAt (column + 2) (memberTexts (column + 2) members)
    if isKeyed then '\n' :: List.replicate (column + 2) ' ' ++ body else ' ' :: body
  | .tagged tag v => ' ' :: tagText tag ++ afterTag column isKeyed v

/-- A value after its tag; a collection starts on a line of its own. -/
def afterTag (column : Nat) (isKeyed : Bool) : Value → List Char
  | .sequence [] => " []".toList
  | .mapping [] => " \x7b\x7d".toList
  | .sequence items =>
    let inner := if isKeyed then column else column + 2
    '\n' :: List.replicate inner ' ' ++ joinAt inner (itemTexts inner items)
  | .mapping members =>
    '\n' :: List.replicate (column + 2) ' ' ++
      joinAt (column + 2) (memberTexts (column + 2) members)
  | .null => " null".toList
  | .bool b => ' ' :: (toString b).toList
  | .int n => ' ' :: (toString n).toList
  | .float x => ' ' :: (floatFormat.write x).toList
  | .text s => ' ' :: blockText (column + 2) s
  | .tagged tag v => ' ' :: tagText tag ++ afterTag column isKeyed v

/-- The items of a sequence at a column. -/
def itemTexts (column : Nat) : List Value → List (List Char)
  | [] => []
  | item :: rest => ('-' :: afterMark column false item) :: itemTexts column rest

/-- The members of a mapping at a column. -/
def memberTexts (column : Nat) : List (Value × Value) → List (List Char)
  | [] => []
  | (key, value) :: rest =>
    let keyText := afterMark column false key
    let member :=
      if isSimpleKey key then keyText.tail ++ ':' :: afterMark column true value
      else
        let stop := if keyText.getLast? == some '\n' then [] else ['\n']
        '?' :: keyText ++ stop ++ List.replicate column ' ' ++ ':' :: afterMark column false value
    member :: memberTexts column rest

end

/-- Writes a mapping, without a final line break. -/
def writeMembers (members : List (Value × Value)) : String :=
  if members.isEmpty then "\x7b\x7d" else String.ofList (joinAt 0 (memberTexts 0 members))

end ArticleAudit.Yaml
