import ArticleAudit.Yaml.Char

/-!
# Tokens of YAML

A stream is cut into tokens; indentation becomes explicit as block starts and ends, and a simple key
gets its key token where it starts, once the colon after it is seen. This module holds the tokens,
the causes of failure, and the place of the scanner in its text.
-/

set_option autoImplicit false

namespace ArticleAudit.Yaml

/-- Why a text is not the YAML of one value. -/
inductive Fault
  | character
  | token
  | tabIndent
  | keyWithoutColon
  | misplacedEntry
  | misplacedKey
  | misplacedValue
  | directive
  | anchor
  | tag
  | blockHeader
  | unclosedQuote
  | escape
  | grammar
  | tagHandle
  | unknownAnchor
  | tooDeep
  | tooManyAliases
  | duplicateKey
  | scalar
  | secondDocument
  deriving DecidableEq, Repr, Inhabited

/-- A tag as it is written: its handle, empty for a verbatim tag, and the rest. -/
structure TagText where
  handle : String
  suffix : String
  deriving DecidableEq, Repr, Inhabited

/-- The tokens. -/
inductive Token
  | streamStart
  | streamEnd
  | version (major minor : Nat)
  | tagDirective (handle tagPrefix : String)
  | documentStart
  | documentEnd
  | blockSequence
  | blockMapping
  | blockEnd
  | flowSequence
  | flowSequenceEnd
  | flowMapping
  | flowMappingEnd
  | entry
  | flowEntry
  | key
  | value
  | alias (name : String)
  | anchor (name : String)
  | tag (tag : TagText)
  | scalar (text : String) (isPlain : Bool)
  deriving DecidableEq, Repr, Inhabited

/-- The rest of a text and the place where it starts, all counted from zero. -/
structure Place where
  rest : List Char
  index : Nat
  line : Nat
  column : Nat
  deriving Repr, Inhabited

namespace Place

/-- The start of a text. -/
def ofText (cs : List Char) : Place :=
  ⟨cs, 0, 0, 0⟩

/-- Moves past `n` characters; a line break starts a new line. -/
def advance : Nat → Place → Place
  | 0, p => p
  | n + 1, p =>
    match p.rest with
    | [] => p
    | '\r' :: '\n' :: rest =>
      match n with
      | 0 => ⟨'\n' :: rest, p.index + 1, p.line, p.column⟩
      | n + 1 => advance n ⟨rest, p.index + 2, p.line + 1, 0⟩
    | c :: rest =>
      if isBreak c then advance n ⟨rest, p.index + 1, p.line + 1, 0⟩
      else advance n ⟨rest, p.index + 1, p.line, p.column + 1⟩

/-- Moves to a rest of the text. -/
def goto (p : Place) (rest : List Char) : Place :=
  p.advance (p.rest.length - rest.length)

end Place

/-- Three equal characters that stand alone mark a document's start or end. -/
def isDocumentMark (mark : Char) (cs : List Char) : Bool :=
  match cs with
  | a :: b :: c :: rest => a == mark && b == mark && c == mark && atSpace rest
  | _ => false

/-- A document mark of either kind. -/
def atDocumentMark (cs : List Char) : Bool :=
  isDocumentMark '-' cs || isDocumentMark '.' cs

end ArticleAudit.Yaml
