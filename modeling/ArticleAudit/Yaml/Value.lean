import ArticleAudit.Yaml.Meaning
import ArticleAudit.Yaml.Node

/-!
# YAML values

A value is what a node stands for: aliases are replaced, plain scalars have their meaning, and a tag
of the document's own stays as a wrapper. The keys of a mapping are distinct (`Value.same`), nesting
is limited, and so is the number of aliases that are followed.
-/

set_option autoImplicit false

namespace ArticleAudit.Yaml

/-- A YAML value. The members of a mapping keep their order. -/
inductive Value
  | null
  | bool (b : Bool)
  | int (n : Int)
  | float (x : Float)
  | text (s : String)
  | sequence (items : List Value)
  | mapping (members : List (Value × Value))
  | tagged (tag : String) (value : Value)
  deriving Repr, Inhabited

namespace Value

/-- Two floats are one key when they are equal or both no numbers. -/
def sameFloat (x y : Float) : Bool :=
  x == y || (x.isNaN && y.isNaN)

mutual

/-- Equality of values as keys; the order of a mapping's members does not matter. -/
def same : Value → Value → Bool
  | .null, .null => true
  | .bool a, .bool b => a == b
  | .int m, .int n => m == n
  | .float x, .float y => sameFloat x y
  | .text s, .text t => s == t
  | .sequence xs, .sequence ys => sameItems xs ys
  | .mapping xs, .mapping ys => xs.length == ys.length && allIn xs ys
  | .tagged s x, .tagged t y => s == t && same x y
  | _, _ => false

/-- Item by item equality. -/
def sameItems : List Value → List Value → Bool
  | [], [] => true
  | x :: xs, y :: ys => same x y && sameItems xs ys
  | _, _ => false

/-- Every member of the first list is in the second. -/
def allIn : List (Value × Value) → List (Value × Value) → Bool
  | [], _ => true
  | (k, v) :: rest, ys => ys.any (fun (k', v') => same k k' && same v v') && allIn rest ys

end

/-- The value of a scalar without a tag. -/
def ofPlain (s : String) : Except Fault Value :=
  match Meaning.ofString s with
  | .null => .ok .null
  | .bool b => .ok (.bool b)
  | .int n => .ok (.int n)
  | .tooWide => .error .scalar
  | .float x => .ok (.float x)
  | .text => .ok (.text s)

/-- The tags of the core schema start so. -/
def coreTag (name : String) : String :=
  "tag:yaml.org,2002:" ++ name

/-- The value of a scalar whose tag belongs to no document: the tags of null, truth values and
numbers demand that meaning, and every other one makes a text. -/
def ofCoreTag (tag : String) (s : String) : Except Fault Value :=
  if tag == coreTag "bool" then
    match Meaning.bool? s with
    | some b => .ok (.bool b)
    | none => .error .scalar
  else if tag == coreTag "int" then
    match Meaning.integer? s.toList with
    | some n => if Decimal.fitsWord 64 n then .ok (.int n) else .error .scalar
    | none => .error .scalar
  else if tag == coreTag "float" then
    match Meaning.float? s.toList with
    | some x => .ok (.float x)
    | none => .error .scalar
  else if tag == coreTag "null" then
    if Meaning.isNull s then .ok .null else .error .scalar
  else .ok (.text s)

/-- The name of a document's own tag: what follows the exclamation mark, or the mark alone. -/
def ownTag? (tag : String) : Option String :=
  match tag.toList with
  | ['!'] => some "!"
  | '!' :: name => some (String.ofList name)
  | _ => none

/-- Wraps a value in the node's own tag, if it has one. -/
def wrap (p : Properties) (v : Value) : Value :=
  match p.tag.bind ownTag? with
  | some tag => .tagged tag v
  | none => v

/-- The value of a scalar. -/
def ofScalar (p : Properties) (s : String) (isPlain : Bool) : Except Fault Value :=
  match p.tag with
  | none => if isPlain then ofPlain s else .ok (.text s)
  | some tag =>
    if (ownTag? tag).isSome then (if isPlain then ofPlain s else .ok (.text s)).map (wrap p)
    else ofCoreTag tag s

/-- Adds a member to those before it, the latest first; its key must be new. -/
def addMember (members : List (Value × Value)) (key value : Value) :
    Except Fault (List (Value × Value)) :=
  if members.any fun (k, _) => same k key then .error .duplicateKey
  else .ok ((key, value) :: members)

/-- Reads a node's value with the number of aliases that may still be followed as state. -/
abbrev Reading := StateT Nat (Except Fault)

/-- The node itself, or the one its alias stands for. -/
def follow (root : Node) : Node → Reading Node
  | .alias anchor => do
    let left ← get
    if left == 0 then throw .tooManyAliases
    set (left - 1)
    match root.anchored? anchor with
    | some target => return target
    | none => throw .unknownAnchor
  | node => return node

/-- The value of a node that lies in collections which allow `depth` further levels. -/
def ofNode (root : Node) (depth : Nat) (node : Node) : Reading Value := do
  match ← follow root node, depth with
  | .alias _, _ => throw .unknownAnchor
  | .scalar p s isPlain, _ => ofScalar p s isPlain
  | _, 0 => throw .tooDeep
  | .sequence p items, depth + 1 =>
    return wrap p (.sequence (← items.mapM (ofNode root depth)))
  | .mapping p members, depth + 1 => do
    let members ← members.foldlM (fun before (k, v) => do
      let key ← ofNode root depth k
      let value ← ofNode root depth v
      liftM (addMember before key value)) []
    return wrap p (.mapping members.reverse)

/-- Collections nest at most this deep. -/
def maxDepth : Nat := 128

/-- For each mark of a document this many aliases are followed. -/
def aliasesPerMark : Nat := 100

/-- The value of a text. -/
def ofChars? (cs : List Char) : Except Fault Value := do
  let root ← Node.ofChars? cs
  let (value, _) ← (ofNode root maxDepth root).run (aliasesPerMark * root.markCount)
  return value

end Value

end ArticleAudit.Yaml
