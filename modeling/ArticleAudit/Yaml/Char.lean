/-!
# Character classes of YAML

The scanner works with a few classes: line breaks, blanks, the end of the text, characters of
anchors and tags, and the characters that may stand in a stream at all.
-/

set_option autoImplicit false

namespace ArticleAudit.Yaml

/-- Line feed, carriage return, next line, line separator and paragraph separator. -/
def isBreak (c : Char) : Bool :=
  c == '\n' || c == '\r' || c.toNat == 0x85 || c.toNat == 0x2028 || c.toNat == 0x2029

/-- Space and tab. -/
def isBlank (c : Char) : Bool :=
  c == ' ' || c == '\t'

/-- Blank or line break. -/
def isSpace (c : Char) : Bool :=
  isBlank c || isBreak c

/-- The text ends here, or a blank or a line break follows. -/
def atSpace : List Char → Bool
  | [] => true
  | c :: _ => isSpace c

/-- The text ends here, or a line break follows. -/
def atLineEnd : List Char → Bool
  | [] => true
  | c :: _ => isBreak c

/-- The characters of anchor names and tag handles. -/
def isNameChar (c : Char) : Bool :=
  c.isAlphanum || c == '_' || c == '-'

/-- The characters a stream may hold. -/
def isAllowed (c : Char) : Bool :=
  let n := c.toNat
  n == 9 || n == 0xA || n == 0xD || (0x20 ≤ n && n ≤ 0x7E) || n == 0x85 ||
    (0xA0 ≤ n && n ≤ 0xD7FF) || (0xE000 ≤ n && n ≤ 0xFFFD) || 0x10000 ≤ n

/-- The marks of flow collections that end a plain scalar. -/
def isFlowMark (c : Char) : Bool :=
  c == ',' || c == '[' || c == ']' || c == '\x7b' || c == '\x7d'

/-- The characters with a meaning of their own at the start of a token. -/
def isIndicator (c : Char) : Bool :=
  isFlowMark c || "-?:#&*!|>'\"%@\x60".toList.contains c

/-- How a line break is kept: all breaks but the Unicode separators become a line feed. -/
def normalBreak (c : Char) : Char :=
  if c.toNat == 0x2028 || c.toNat == 0x2029 then c else '\n'

/-- The line breaks among characters, in kept form; a carriage return and the line feed after it are
one break. -/
def breaksOf : List Char → List Char
  | [] => []
  | '\r' :: '\n' :: rest => '\n' :: breaksOf rest
  | c :: rest => if isBreak c then normalBreak c :: breaksOf rest else breaksOf rest

/-- The first line break of a text and what follows it; nothing happens at other characters. -/
def dropBreak : List Char → List Char
  | '\r' :: '\n' :: rest => rest
  | [] => []
  | c :: rest => if isBreak c then rest else c :: rest

end ArticleAudit.Yaml
