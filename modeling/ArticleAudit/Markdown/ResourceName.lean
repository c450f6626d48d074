import ArticleAudit.Block.Basic
import ArticleAudit.Text.Blank
import ArticleAudit.Unicode.Word

/-!
# Resource types in templates

Code in one of the template languages names resource types as `Namespace.Part/type`. In Bicep they
stand in a resource declaration, in the other languages in a member named `type`. Each one becomes
a block that spans the whole name and has a child that spans the namespace.
-/

set_option autoImplicit false

namespace ArticleAudit.Markdown

open ArticleAudit.Text

/-- The languages whose fences are searched. -/
def templateLanguages : List (List Char) :=
  ["json", "jsonc", "arm", "bicep"].map String.toList

/-- A found name: the characters before it, its namespace and type, and the characters after it
that belong to the construct. -/
structure ResourceName where
  before : List Char
  provider : List Char
  typeName : List Char
  after : List Char
  deriving DecidableEq, Repr, Inhabited

/-- The construct as it is written. -/
def ResourceName.source (r : ResourceName) : List Char :=
  r.before ++ r.provider ++ '/' :: r.typeName ++ r.after

/-- Letters, digits and points, where no point stands first, last or next to another. -/
def isDotted (afterPoint : Bool) : List Char → Bool
  | [] => !afterPoint
  | c :: rest => if c == '.' then !afterPoint && isDotted true rest else isDotted false rest

/-- A namespace has two or more parts, and the first one starts with a letter. -/
def isNamespace (cs : List Char) : Bool :=
  match cs with
  | [] => false
  | c :: _ => c.isAlpha && cs.contains '.' && isDotted true cs

/-- Reads a namespace, a slash and a type, with what stands before them already read. -/
def readName? (before cs : List Char) : Option (ResourceName × List Char) :=
  let provider := cs.takeWhile fun c => c.isAlphanum || c == '.'
  match cs.drop provider.length with
  | '/' :: rest =>
    let typeName := rest.takeWhile fun c => c.isAlphanum || c == '/'
    if isNamespace provider && !typeName.isEmpty then
      some (⟨before, provider, typeName, []⟩, rest.drop typeName.length)
    else none
  | _ => none

/-- Reads a member `"type": "Namespace/type"`. -/
def memberAt? (cs : List Char) : Option ResourceName := do
  let key := "\"type\"".toList
  let rest ← key.isPrefixOf? cs
  let gap := rest.takeWhile isBlank
  match rest.dropWhile isBlank with
  | ':' :: rest =>
    let gapAfter := rest.takeWhile isBlank
    match rest.dropWhile isBlank with
    | '"' :: rest =>
      let (name, rest) ← readName? (key ++ gap ++ ':' :: gapAfter ++ ['"']) rest
      if rest.head? == some '"' then some { name with after := ['"'] } else none
    | _ => none
  | _ => none

/-- Reads a declaration `resource name 'Namespace/type@version'`. -/
def declarationAt? (cs : List Char) : Option ResourceName := do
  let keyword := "resource".toList
  let rest ← keyword.isPrefixOf? cs
  let gap := rest.takeWhile isBlank
  let rest := rest.dropWhile isBlank
  let symbol := rest.takeWhile Unicode.isWord
  let rest := rest.dropWhile Unicode.isWord
  let gapAfter := rest.takeWhile isBlank
  if gap.isEmpty || symbol.isEmpty || gapAfter.isEmpty then none
  else
    match rest.dropWhile isBlank with
    | '\'' :: rest =>
      let (name, rest) ← readName? (keyword ++ gap ++ symbol ++ gapAfter ++ ['\'']) rest
      let version := if rest.head? == some '@' then rest.takeWhile (· != '\'') else []
      if (rest.drop version.length).head? == some '\'' then
        some { name with after := version ++ ['\''] }
      else none
    | _ => none

/-- The names in a text that stands at `position`, from left to right, with their offsets. -/
def findNames (read : List Char → Option ResourceName) (position : Nat) (cs : List Char) :
    List (Nat × ResourceName) :=
  match cs with
  | [] => []
  | c :: rest =>
    match read (c :: rest) with
    | some name =>
      (position, name) ::
        findNames read (position + byteSize name.source) (rest.drop (name.source.length - 1))
    | none => findNames read (position + c.utf8Size) rest
termination_by cs.length
decreasing_by
  all_goals simp only [List.length_drop, List.length_cons]
  all_goals omega

/-- The block of a name whose construct starts at `position`. -/
def nameBlock (position : Nat) (name : ResourceName) : Block :=
  let start := position + byteSize name.before
  let providerStop := start + byteSize name.provider
  let full : Span := ⟨start, providerStop + 1 + byteSize name.typeName⟩
  let provider : Span := ⟨start, providerStop⟩
  ((Block.leaf .resourceType full (name.provider ++ '/' :: name.typeName)).withTag
    name.typeName).withChildren
      [(Block.leaf .resourceNamespace provider name.provider).withTag name.provider]

/-- The resource type blocks of a line of code that stands at `base`. -/
def resourceBlocks (language : List Char) (line : List Char) (base : Nat) : List Block :=
  let read := if language == "bicep".toList then declarationAt? else memberAt?
  (findNames read base line).map fun (position, name) => nameBlock position name

end ArticleAudit.Markdown
