import ArticleAudit.Yaml.Tokens

/-!
# The node of a stream

The tokens of a stream are read as the one node of its one document. Anchors are numbered in
document order, an alias by the number its name has at that place; what a number finally stands for
is the last node in document order that carries it (`Node.anchored?`).
-/

set_option autoImplicit false

namespace ArticleAudit.Yaml

/-- What may stand before the content of a node. -/
structure Properties where
  tag : Option String
  anchor : Option Nat
  deriving DecidableEq, Repr, Inhabited

/-- No properties. -/
def Properties.empty : Properties :=
  ⟨none, none⟩

/-- A document's content with aliases in place. -/
inductive Node
  | alias (anchor : Nat)
  | scalar (properties : Properties) (text : String) (isPlain : Bool)
  | sequence (properties : Properties) (items : List Node)
  | mapping (properties : Properties) (members : List (Node × Node))
  deriving Repr, Inhabited

namespace Node

/-- The scalar that stands where content is left out. -/
def absent : Node :=
  .scalar .empty "" true

/-- The properties of a node; an alias has none. -/
def properties : Node → Properties
  | .alias _ => .empty
  | .scalar p _ _ => p
  | .sequence p _ => p
  | .mapping p _ => p

/-- The nodes of a tree, each before the nodes inside it. -/
def preorder : Node → List Node
  | .alias a => [.alias a]
  | .scalar p text isPlain => [.scalar p text isPlain]
  | .sequence p items => .sequence p items :: ofItems items
  | .mapping p members => .mapping p members :: ofMembers members
where
  ofItems : List Node → List Node
    | [] => []
    | item :: rest => item.preorder ++ ofItems rest
  ofMembers : List (Node × Node) → List Node
    | [] => []
    | (key, value) :: rest => key.preorder ++ value.preorder ++ ofMembers rest

/-- The node an anchor's number stands for. -/
def anchored? (root : Node) (anchor : Nat) : Option Node :=
  root.preorder.reverse.find? fun n => n.properties.anchor == some anchor

/-- The node has content of its own. -/
def isCollection : Node → Bool
  | .alias _ | .scalar .. => false
  | .sequence .. | .mapping .. => true

/-- The number of marks a node consists of: one for an alias or a scalar, and two for a collection
beside those of its content. -/
def markCount (root : Node) : Nat :=
  root.preorder.length + root.preorder.countP isCollection

end Node

/-! ## Reading nodes -/

/-- The reader of nodes: the tokens ahead, the declared tag handles with their expansions, and the
anchor names seen with their numbers, the latest first. -/
structure NodeReader where
  tokens : List Token
  handles : List (String × String)
  anchors : List (String × Nat)
  deriving Repr, Inhabited

/-- A step of reading. -/
abbrev ReadNode := StateT NodeReader (Except Fault)

namespace ReadNode

/-- The next token. -/
def peek : ReadNode Token := do
  return (← get).tokens.headD .streamEnd

/-- Passes the next token. -/
def skip : ReadNode Unit :=
  modify fun r => { r with tokens := r.tokens.tail }

/-- The number of distinct anchor names seen. -/
def anchorCount (r : NodeReader) : Nat :=
  (r.anchors.map (·.1)).eraseDups.length

/-- Numbers an anchor; a name used again gets a new number. -/
def addAnchor (name : String) : ReadNode Nat := do
  let number := anchorCount (← get)
  modify fun r => { r with anchors := (name, number) :: r.anchors }
  return number

/-- The number that a name has here. -/
def findAnchor (name : String) : ReadNode Nat := do
  match (← get).anchors.lookup name with
  | some number => return number
  | none => throw .unknownAnchor

/-- The full tag; a verbatim tag has no handle. -/
def resolveTag (tag : TagText) : ReadNode String := do
  if tag.handle.isEmpty then return tag.suffix
  match (← get).handles.lookup tag.handle with
  | some expansion => return expansion ++ tag.suffix
  | none => throw .tagHandle

/-- Reads the tag and the anchor before a node, in either order. -/
def properties : ReadNode Properties := do
  match ← peek with
  | .anchor name =>
    skip
    let tag ← match ← peek with
      | .tag tag => skip; pure (some tag)
      | _ => pure none
    return ⟨← tag.mapM resolveTag, some (← addAnchor name)⟩
  | .tag tag =>
    skip
    let anchor ← match ← peek with
      | .anchor name => skip; pure (some name)
      | _ => pure none
    return ⟨some (← resolveTag tag), ← anchor.mapM addAnchor⟩
  | _ => return .empty

/-- The tag of a scalar; the bare exclamation mark is no tag there. -/
def ofScalar (p : Properties) : Properties :=
  if p.tag == some "!" then { p with tag := none } else p

mutual

/-- Reads a node. `inBlock` allows block collections, and `dashes` a block sequence whose dashes
stand in the column of the mapping around it. -/
def node : Nat → Bool → Bool → ReadNode Node
  | 0, _, _ => throw .grammar
  | fuel + 1, inBlock, dashes => do
    if let .alias name ← peek then
      skip
      return .alias (← findAnchor name)
    let p ← properties
    let token ← peek
    if dashes && token == .entry then
      return .sequence p (← dashItems fuel)
    match token with
    | .scalar text isPlain => skip; return .scalar (ofScalar p) text isPlain
    | .flowSequence => skip; return .sequence p (← flowItems fuel true)
    | .flowMapping => skip; return .mapping p (← flowMembers fuel true)
    | _ =>
      if inBlock && token == .blockSequence then
        skip
        return .sequence p (← blockItems fuel)
      else if inBlock && token == .blockMapping then
        skip
        return .mapping p (← blockMembers fuel)
      else if p == .empty then throw .grammar
      else return .scalar p "" true

/-- Reads the rest of a block sequence. -/
def blockItems : Nat → ReadNode (List Node)
  | 0 => throw .grammar
  | fuel + 1 => do
    match ← peek with
    | .entry =>
      skip
      let next ← peek
      let item ← if next == .entry || next == .blockEnd then pure .absent
        else node fuel true false
      return item :: (← blockItems fuel)
    | .blockEnd => skip; return []
    | _ => throw .grammar

/-- Reads the items of a sequence that has no column of its own. -/
def dashItems : Nat → ReadNode (List Node)
  | 0 => throw .grammar
  | fuel + 1 => do
    match ← peek with
    | .entry =>
      skip
      let next ← peek
      let item ← if next == .entry || next == .key || next == .value || next == .blockEnd then
          pure .absent
        else node fuel true false
      return item :: (← dashItems fuel)
    | _ => return []

/-- Reads a key or a value of a block mapping. -/
def blockContent : Nat → ReadNode Node
  | 0 => throw .grammar
  | fuel + 1 => do
    let next ← peek
    if next == .key || next == .value || next == .blockEnd then return .absent
    else node fuel true true

/-- Reads the rest of a block mapping. -/
def blockMembers : Nat → ReadNode (List (Node × Node))
  | 0 => throw .grammar
  | fuel + 1 => do
    match ← peek with
    | .key =>
      skip
      let key ← blockContent fuel
      let value ← match ← peek with
        | .value => skip; blockContent fuel
        | _ => pure .absent
      return (key, value) :: (← blockMembers fuel)
    | .blockEnd => skip; return []
    | _ => throw .grammar

/-- Reads the rest of a flow sequence. A key in it makes a mapping of one member. -/
def flowItems : Nat → Bool → ReadNode (List Node)
  | 0, _ => throw .grammar
  | fuel + 1, isFirst => do
    if (← peek) == .flowSequenceEnd then
      skip
      return []
    if !isFirst then
      if (← peek) != .flowEntry then throw .grammar
      skip
    match ← peek with
    | .key =>
      skip
      let member ← flowPair fuel
      return .mapping .empty [member] :: (← flowItems fuel false)
    | .flowSequenceEnd => skip; return []
    | _ =>
      let item ← node fuel false false
      return item :: (← flowItems fuel false)

/-- Reads a pair in a flow sequence after its key token; where the key is absent, the token that
shows it is passed too. -/
def flowPair : Nat → ReadNode (Node × Node)
  | 0 => throw .grammar
  | fuel + 1 => do
    let next ← peek
    let key ← if next == .value || next == .flowEntry || next == .flowSequenceEnd then do
        skip
        pure .absent
      else node fuel false false
    match ← peek with
    | .value =>
      skip
      let next ← peek
      if next == .flowEntry || next == .flowSequenceEnd then return (key, .absent)
      else return (key, ← node fuel false false)
    | _ => return (key, .absent)

/-- Reads the rest of a flow mapping. -/
def flowMembers : Nat → Bool → ReadNode (List (Node × Node))
  | 0, _ => throw .grammar
  | fuel + 1, isFirst => do
    if (← peek) == .flowMappingEnd then
      skip
      return []
    if !isFirst then
      if (← peek) != .flowEntry then throw .grammar
      skip
    match ← peek with
    | .key =>
      skip
      let next ← peek
      let key ← if next == .value || next == .flowEntry || next == .flowMappingEnd then
          pure .absent
        else node fuel false false
      let value ← flowValue fuel
      return (key, value) :: (← flowMembers fuel false)
    | .flowMappingEnd => skip; return []
    | _ =>
      let key ← node fuel false false
      return (key, .absent) :: (← flowMembers fuel false)

/-- Reads the value of a flow mapping's member, if there is one. -/
def flowValue : Nat → ReadNode Node
  | 0 => throw .grammar
  | fuel + 1 => do
    match ← peek with
    | .value =>
      skip
      let next ← peek
      if next == .flowEntry || next == .flowMappingEnd then return .absent
      else node fuel false false
    | _ => return .absent

end

/-! ## Documents -/

/-- Adds the handle of a tag directive; each is declared once. -/
def declareHandle (handle expansion : String) : ReadNode Unit := do
  if (← get).handles.any (·.1 == handle) then throw .directive
  modify fun r => { r with handles := r.handles ++ [(handle, expansion)] }

/-- Reads the directives before a document and says whether there were any. -/
def directives : Nat → Bool → ReadNode Unit
  | 0, _ => throw .grammar
  | fuel + 1, versionSeen => do
    match ← peek with
    | .version major minor =>
      if versionSeen || major != 1 || !(minor == 1 || minor == 2) then throw .directive
      skip
      directives fuel true
    | .tagDirective handle expansion =>
      declareHandle handle expansion
      skip
      directives fuel versionSeen
    | _ => return

/-- The handles that need no declaration. -/
def defaultHandles : List (String × String) :=
  [("!", "!"), ("!!", "tag:yaml.org,2002:")]

/-- The tokens at which a document with an explicit start has no content. -/
def endsDocument : Token → Bool
  | .version .. | .tagDirective .. | .documentStart | .documentEnd | .streamEnd => true
  | _ => false

/-- Reads the tokens after the content of the one document. -/
def streamEnd : Nat → ReadNode Unit
  | 0 => throw .grammar
  | fuel + 1 => do
    match ← peek with
    | .documentEnd => skip; streamEnd fuel
    | .streamEnd => return
    | _ => throw .secondDocument

/-- Reads a stream of one document; a stream without any is an absent scalar. -/
def stream (fuel : Nat) : ReadNode Node := do
  skip
  match ← peek with
  | .streamEnd => return .absent
  | .version .. | .tagDirective .. | .documentStart =>
    directives fuel false
    modify fun r => { r with handles := r.handles ++ defaultHandles }
    if (← peek) != .documentStart then throw .grammar
    skip
    let root ← if endsDocument (← peek) then pure .absent else node fuel true false
    streamEnd fuel
    return root
  | _ =>
    modify fun r => { r with handles := defaultHandles }
    let root ← node fuel true false
    streamEnd fuel
    return root

end ReadNode

/-- The node of a text. Every step of the reader passes a token or goes one level into the grammar,
so a few steps for each token are enough. -/
def Node.ofChars? (cs : List Char) : Except Fault Node := do
  let tokens ← tokensOf cs
  let (root, _) ← (ReadNode.stream (4 * tokens.length + 8)).run ⟨tokens, [], []⟩
  return root

end ArticleAudit.Yaml
