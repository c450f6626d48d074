import ArticleAudit.Toml.Scalar
import ArticleAudit.Toml.Text

/-!
# Reading TOML

A document is a list of statements: members, headers of tables and headers of items in arrays of
tables. The grammar decides whether a text is such a list; then the statements build a table, which
fails where one of them defines a thing twice.
-/

set_option autoImplicit false

namespace ArticleAudit.Toml

/-! ## Keys -/

/-- A character of a key without quotes. -/
def isBareChar (c : Char) : Bool :=
  c.isAlphanum || c == '_' || c == '-'

/-- Reads one key. -/
def readKey? (cs : List Char) : Option (String × List Char) :=
  match readLineText? cs with
  | some (key, rest) => some (String.ofList key, rest)
  | none =>
    let key := cs.takeWhile isBareChar
    if key.isEmpty then none else some (String.ofList key, cs.dropWhile isBareChar)

/-- Reads keys between points; `fuel` bounds their number. Blanks after them are passed. -/
def readKeyPath : Nat → List Char → Option (KeyPath × List Char)
  | 0, _ => none
  | fuel + 1, cs => do
    let (key, rest) ← readKey? cs
    match skipBlanks rest with
    | '.' :: rest => do
      let (path, rest) ← readKeyPath fuel (skipBlanks rest)
      return ({ path with above := key :: path.above }, rest)
    | rest => return (⟨[], key⟩, rest)

/-! ## Values -/

/-- Passes blanks, line breaks and comments; `fuel` bounds the lines. -/
def skipLines : Nat → List Char → List Char
  | 0, cs => cs
  | fuel + 1, cs =>
    match skipBlankLines cs with
    | '#' :: rest => skipLines fuel (skipComment ('#' :: rest))
    | rest => rest

/-- Passes blanks, line breaks and comments between the parts of a collection. -/
def skipSpace (cs : List Char) : List Char :=
  skipLines (cs.length + 1) cs

/-- Reads parts with commas between them, up to a closing mark; a comma may follow the last one.
`fuel` bounds the parts. -/
def readParts {α : Type} (readPart : List Char → Option (α × List Char)) (closing : Char) :
    Nat → List Char → Option (List α × List Char)
  | 0, _ => none
  | fuel + 1, cs =>
    match skipSpace cs with
    | [] => none
    | c :: rest =>
      if c == closing then some ([], rest)
      else do
        let (part, rest) ← readPart (c :: rest)
        match skipSpace rest with
        | ',' :: rest => do
          let (parts, rest) ← readParts readPart closing fuel rest
          return (part :: parts, rest)
        | d :: rest => if d == closing then some ([part], rest) else none
        | [] => none

/-- Reads a member: keys, an equals sign and a value. -/
def readMember? (readValue : List Char → Option (Value × List Char)) (cs : List Char) :
    Option ((KeyPath × Value) × List Char) := do
  let (key, rest) ← readKeyPath (cs.length + 1) cs
  match rest with
  | '=' :: rest => do
    let (value, rest) ← readValue (skipBlanks rest)
    return ((key, value), rest)
  | _ => none

/-- Reads a value with at most so many levels of collections. -/
def readValue : Nat → List Char → Option (Value × List Char)
  | _, [] => none
  | levels, c :: rest =>
    if c == '"' || c == '\'' then
      (readText? (c :: rest)).map fun (s, rest) => (.string (String.ofList s), rest)
    else if c == '[' then
      match levels with
      | 0 => none
      | levels + 1 =>
        (readParts (readValue levels) ']' (rest.length + 1) rest).map fun (items, rest) =>
          (.array items, rest)
    else if c == '\x7b' then
      match levels with
      | 0 => none
      | levels + 1 => do
        let (members, rest) ←
          readParts (readMember? (readValue levels)) '\x7d' (rest.length + 1) rest
        return (← Value.addAll? (.table .inline []) members, rest)
    else readScalar? (c :: rest)

/-- Collections nest at most this deep. -/
def maxLevels : Nat := 80

/-! ## Documents -/

/-- A statement of a document. -/
inductive Statement
  | member (key : KeyPath) (value : Value)
  | table (key : KeyPath)
  | item (key : KeyPath)
  deriving Repr, Inhabited

/-- Reads the keys of a header and the text that closes it. -/
def readHeader? (closing : List Char) (cs : List Char) : Option (KeyPath × List Char) := do
  let start := skipBlanks cs
  let (key, rest) ← readKeyPath (start.length + 1) start
  return (key, ← closing.isPrefixOf? rest)

/-- Reads a statement. -/
def readStatement? : List Char → Option (Statement × List Char)
  | '[' :: '[' :: rest =>
    (readHeader? [']', ']'] rest).map fun (key, rest) => (.item key, rest)
  | '[' :: rest => (readHeader? [']'] rest).map fun (key, rest) => (.table key, rest)
  | cs =>
    (readMember? (readValue maxLevels) cs).map fun ((key, value), rest) =>
      (.member key value, rest)

/-- Reads statements, one on a line, with empty lines among them; `fuel` bounds the lines. -/
def readStatements : Nat → List Char → Option (List Statement)
  | 0, _ => none
  | fuel + 1, cs =>
    match skipBlanks cs with
    | [] => some []
    | c :: rest =>
      match readLineEnd? (c :: rest) with
      | some rest => readStatements fuel rest
      | none => do
        let (statement, rest) ← readStatement? (c :: rest)
        let statements ← readStatements fuel (← readLineEnd? rest)
        return statement :: statements

/-- The statements of a text. A mark of the byte order in front of it does not count. -/
def statementsOf? (cs : List Char) : Option (List Statement) :=
  let cs := match cs with
    | '\ufeff' :: rest => rest
    | cs => cs
  readStatements (cs.length + 1) cs

/-- The root table while it is built, and the keys of the header that counts. -/
structure Building where
  root : Value
  here : List String
  deriving Repr, Inhabited

namespace Building

/-- Nothing is built yet. -/
def empty : Building :=
  ⟨.table .header [], []⟩

/-- Takes a statement in. -/
def take? (b : Building) : Statement → Option Building
  | .member key value =>
    (Value.alongHeader? (Value.add? key value) b.here b.root).map fun root => { b with root }
  | .table key =>
    (Value.alongHeader? (Value.openTable? key.last) key.above b.root).map (⟨·, key.keys⟩)
  | .item key =>
    (Value.alongHeader? (Value.openItem? key.last) key.above b.root).map (⟨·, key.keys⟩)

/-- The members of the root table. -/
def members (b : Building) : List (String × Value) :=
  match b.root with
  | .table _ members => members
  | _ => []

end Building

/-- Reads a document: the members of its root table. -/
def read? (cs : List Char) : Option (List (String × Value)) := do
  let built ← (← statementsOf? cs).foldlM Building.take? .empty
  return built.members

end ArticleAudit.Toml
