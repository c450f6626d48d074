import ArticleAudit.Unicode.Word

/-!
# Variables in paths

A path in the settings may name variables of the environment, as `$NAME` or as `$` and the name in
braces, and the home directory as a tilde in front. A variable that is not set makes the path stay
as it is written, unless braces give another value for it.
-/

set_option autoImplicit false

namespace ArticleAudit

open ArticleAudit.Unicode

/-- The variables around a run. -/
structure Environment where
  bindings : List (String × String)
  deriving DecidableEq, Repr, Inhabited

namespace Environment

/-- The value of a variable. -/
def get? (env : Environment) (name : String) : Option String :=
  env.bindings.lookup name

/-- The home directory. -/
def home? (env : Environment) : Option String :=
  (env.get? "HOME").filter fun home => home != ""

end Environment

/-- A piece of a path with variables. -/
inductive PathPiece
  | text (cs : List Char)
  /-- A variable, with the value that counts where it is empty or not set. -/
  | variable (name : List Char) (otherwise : Option (List Char))
  deriving DecidableEq, Repr, Inhabited

namespace PathPiece

/-- A character of a variable's name. -/
def isNameChar (c : Char) : Bool :=
  isAlphanumeric c || c == '_'

/-- Splits a text at the first `:-`. -/
def splitOtherwise : List Char → List Char × Option (List Char)
  | ':' :: '-' :: rest => ([], some rest)
  | c :: rest => let (name, otherwise) := splitOtherwise rest; (c :: name, otherwise)
  | [] => ([], none)

/-- The variable between braces. A name is needed before another value. -/
def ofBraces (inner : List Char) : PathPiece :=
  match splitOtherwise inner with
  | ([], some _) => .variable inner none
  | (name, otherwise) => .variable name otherwise

/-- Reads a piece after its dollar sign. A dollar sign that starts no variable stands for itself,
and two of them stand for one. -/
def read : List Char → PathPiece × List Char
  | [] => (.text ['$'], [])
  | c :: rest =>
    if c == '\x7b' then
      match rest.dropWhile (· != '\x7d') with
      | [] => (.text ['$', c], rest)
      | _ :: after => (ofBraces (rest.takeWhile (· != '\x7d')), after)
    else if c == '$' then (.text ['$'], rest)
    else if isNameChar c then
      (.variable ((c :: rest).takeWhile isNameChar) none, (c :: rest).dropWhile isNameChar)
    else (.text ['$'], c :: rest)

/-- The pieces of a path; `fuel` bounds the characters. -/
def split : Nat → List Char → List PathPiece
  | 0, _ => []
  | _, [] => []
  | fuel + 1, c :: rest =>
    if c == '$' then let (piece, rest) := read rest; piece :: split fuel rest
    else .text [c] :: split fuel rest

/-- The pieces of a path. -/
def ofPath (cs : List Char) : List PathPiece :=
  split cs.length cs

/-- The text that a piece stands for. -/
def expand? (env : Environment) : PathPiece → Option (List Char)
  | .text cs => some cs
  | .variable name none => (env.get? (String.ofList name)).map String.toList
  | .variable name (some otherwise) =>
    match env.get? (String.ofList name) with
    | none | some "" => some otherwise
    | some value => some value.toList

end PathPiece

namespace Environment

/-- Puts the home directory in the place of a tilde that is all of a path or stands before a
slash. -/
def expandHome (env : Environment) (cs : List Char) : List Char :=
  match cs, env.home? with
  | ['~'], some home => home.toList
  | '~' :: '/' :: rest, some home => home.toList ++ '/' :: rest
  | _, _ => cs

/-- Expands the variables of a path, and its tilde if the path as written starts with it. -/
def expandPath? (env : Environment) (path : String) : Option String := do
  let pieces ← (PathPiece.ofPath path.toList).mapM (PathPiece.expand? env)
  let cs := pieces.flatten
  return String.ofList (if path.toList.head? == some '~' then env.expandHome cs else cs)

/-- Expands a path; one that cannot be expanded stays as it is. -/
def expandPath (env : Environment) (path : String) : String :=
  (env.expandPath? path).getD path

end Environment

end ArticleAudit
