/-!
# The syntax of patterns

A pattern text taken apart. Which characters an item stands for depends on the flags that are set
where it stands, so flags are items too; they hold to the end of the group around them.
-/

set_option autoImplicit false

namespace ArticleAudit.Pattern

/-- The flags of a pattern. -/
inductive Flag
  | ignoreCase
  | multiLine
  | dotMatchesAll
  | swapGreed
  | unicode
  | carriageReturn
  | ignoreSpace
  deriving DecidableEq, Repr, Inhabited

/-- Flags that are switched on or off. -/
abbrev Settings := List (Flag × Bool)

/-- A character in a pattern. One written as an octet in two hexadecimal digits is kept apart. -/
structure Literal where
  char : Char
  isOctet : Bool
  deriving DecidableEq, Repr, Inhabited

/-- A place between characters that an assertion asks for. -/
inductive Assertion
  | lineStart
  | lineEnd
  | textStart
  | textEnd
  | wordBoundary
  | notWordBoundary
  | wordStart
  | wordEnd
  | wordStartHalf
  | wordEndHalf
  deriving DecidableEq, Repr, Inhabited

/-- The classes with a letter of their own. -/
inductive LetterClass
  | digit
  | space
  | word
  deriving DecidableEq, Repr, Inhabited

/-- The name of a Unicode class. -/
inductive ClassName
  | name (name : List Char)
  | value (property value : List Char)
  deriving DecidableEq, Repr, Inhabited

/-- The operations between sets in brackets. -/
inductive SetOperation
  | intersection
  | difference
  | symmetricDifference
  deriving DecidableEq, Repr, Inhabited

/-- What stands in brackets. -/
inductive SetSyntax
  | literal (l : Literal)
  | range (first last : Literal)
  | ascii (name : String) (negated : Bool)
  | letter (kind : LetterClass) (negated : Bool)
  | unicode (name : ClassName) (negated : Bool)
  | bracketed (negated : Bool) (content : SetSyntax)
  | union (items : List SetSyntax)
  | operation (kind : SetOperation) (left right : SetSyntax)
  deriving Repr, Inhabited

/-- A pattern text. -/
inductive Syntax
  | empty
  | flags (settings : Settings)
  | literal (l : Literal)
  | dot
  | assertion (a : Assertion)
  | letter (kind : LetterClass) (negated : Bool)
  | unicode (name : ClassName) (negated : Bool)
  | bracketed (negated : Bool) (content : SetSyntax)
  | repetition (least : Nat) (most : Option Nat) (greedy : Bool) (item : Syntax)
  | group (settings : Settings) (content : Syntax)
  | alternation (branches : List Syntax)
  | concat (items : List Syntax)
  deriving Repr, Inhabited

namespace SetSyntax

/-- The items of a union as one set. -/
def ofItems : List SetSyntax → SetSyntax
  | [item] => item
  | items => .union items

/-- The number of collections around the innermost item. -/
def depth : SetSyntax → Nat
  | .bracketed _ content => content.depth + 1
  | .union [] => 0
  | .union (item :: rest) => depthOf (item :: rest) + 1
  | .operation _ left right => max left.depth right.depth + 1
  | _ => 0
where
  depthOf : List SetSyntax → Nat
    | [] => 0
    | item :: rest => max item.depth (depthOf rest)

end SetSyntax

namespace Syntax

/-- Items one after the other. -/
def ofItems : List Syntax → Syntax
  | [] => .empty
  | [item] => item
  | items => .concat items

/-- Branches, of which the first that fits counts. -/
def ofBranches : List Syntax → Syntax
  | [] => .empty
  | [branch] => branch
  | branches => .alternation branches

/-- The number of collections around the innermost item. -/
def depth : Syntax → Nat
  | .bracketed _ content => content.depth + 1
  | .repetition _ _ _ item => item.depth + 1
  | .group _ content => content.depth + 1
  | .alternation branches => depthOf branches + 1
  | .concat items => depthOf items + 1
  | _ => 0
where
  depthOf : List Syntax → Nat
    | [] => 0
    | item :: rest => max item.depth (depthOf rest)

end Syntax

end ArticleAudit.Pattern
