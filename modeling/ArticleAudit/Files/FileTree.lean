import ArticleAudit.Files.Path

/-!
# Files

A file tree holds what the files around a run contain, under the places where they are: the names on
the way from the current directory or from the root. A path leads to a place step by step, and only
a directory leads further.
-/

set_option autoImplicit false

namespace ArticleAudit.Files

/-- What stands at a place. -/
inductive Entry
  | file (content : ByteArray)
  | directory
  deriving Inhabited

/-- A place: from the root or from the current directory, so many levels up, and then down. -/
structure Place where
  absolute : Bool
  up : Nat
  names : List String
  deriving DecidableEq, Repr, Inhabited

namespace Place

/-- The current directory. -/
def current : Place :=
  ⟨false, 0, []⟩

/-- The root. -/
def root : Place :=
  ⟨true, 0, []⟩

/-- One level up; the root is above itself. -/
def parent (p : Place) : Place :=
  if p.names.isEmpty then (if p.absolute then p else { p with up := p.up + 1 })
  else { p with names := p.names.dropLast }

/-- One level down. -/
def child (p : Place) (name : String) : Place :=
  { p with names := p.names ++ [name] }

/-- The place that pieces of a path lead to, whatever stands on the way. -/
def along (p : Place) : List (List Char) → Place
  | [] => p
  | piece :: rest =>
    if piece.isEmpty || piece == ['.'] then along p rest
    else if piece == ['.', '.'] then along p.parent rest
    else along (p.child (String.ofList piece)) rest

/-- The place of a path. -/
def ofPath (path : Path) : Place :=
  along (if path.isAbsolute then root else current) path.pieces

/-- The place lies below another one. -/
def isBelow (p q : Place) : Bool :=
  p.absolute == q.absolute && p.up == q.up && q.names.isPrefixOf p.names &&
    q.names.length < p.names.length

end Place

/-- The known files and directories. -/
structure FileTree where
  entries : List (Place × Entry)
  deriving Inhabited

namespace FileTree

/-- No files. -/
def empty : FileTree :=
  ⟨[]⟩

/-- What stands at a place. Directories are also the places above an entry, the current directory
and those above it, and the root. -/
def entry? (t : FileTree) (p : Place) : Option Entry :=
  match t.entries.lookup p with
  | some e => some e
  | none =>
    if p.names.isEmpty || t.entries.any (fun e => e.1.isBelow p) then some .directory else none

/-- A directory stands at the place. -/
def isDirectory (t : FileTree) (p : Place) : Bool :=
  match t.entry? p with
  | some .directory => true
  | _ => false

/-- Follows the pieces of a path. -/
def follow? (t : FileTree) (p : Place) : List (List Char) → Option Place
  | [] => some p
  | piece :: rest =>
    if !t.isDirectory p then none
    else if piece.isEmpty || piece == ['.'] then follow? t p rest
    else if piece == ['.', '.'] then follow? t p.parent rest
    else follow? t (p.child (String.ofList piece)) rest

/-- The place a path leads to; the empty path leads nowhere. -/
def locate? (t : FileTree) (path : String) : Option Place :=
  match (Path.ofString path).pieces with
  | [] => none
  | pieces =>
    if (Path.ofString path).isAbsolute then t.follow? .root pieces else t.follow? .current pieces

/-- What a path leads to. -/
def find? (t : FileTree) (path : String) : Option Entry :=
  (t.locate? path).bind t.entry?

/-- The path leads to a file or a directory. -/
def pathExists (t : FileTree) (path : String) : Bool :=
  (t.find? path).isSome

/-- The path leads to a file. -/
def isFile (t : FileTree) (path : String) : Bool :=
  match t.find? path with
  | some (.file _) => true
  | _ => false

/-- The text of a file; what is no file in UTF-8 cannot be read. -/
def readText? (t : FileTree) (path : String) : Option String :=
  match t.find? path with
  | some (.file content) => String.fromUTF8? content
  | _ => none

/-! ## Writing -/

/-- Puts an entry at a place. -/
def put (t : FileTree) (p : Place) (e : Entry) : FileTree :=
  ⟨(p, e) :: t.entries.filter fun old => old.1 != p⟩

/-- Makes the directories that the pieces of a path lead through. -/
def makeAlong? (t : FileTree) (p : Place) : List (List Char) → Option FileTree
  | [] => some t
  | piece :: rest =>
    if piece.isEmpty || piece == ['.'] then makeAlong? t p rest
    else if piece == ['.', '.'] then makeAlong? t p.parent rest
    else
      let next := p.child (String.ofList piece)
      match t.entry? next with
      | some (.file _) => none
      | some .directory => makeAlong? t next rest
      | none => makeAlong? (t.put next .directory) next rest

/-- Makes a directory and those above it. -/
def makeDirectories? (t : FileTree) (path : Path) : Option FileTree :=
  t.makeAlong? (if path.isAbsolute then .root else .current) path.pieces

/-- Writes a text to a file. Its directory must exist, and no directory may stand in its place. -/
def writeText? (t : FileTree) (path text : String) : Option FileTree :=
  match t.locate? path, (Path.ofString path).pieces.getLast? with
  | some p, some last =>
    if t.isDirectory p || !Path.isPart last then none else some (t.put p (.file text.toUTF8))
  | _, _ => none

/-- Writes a text to a file, in directories that are made where they are missing. -/
def saveText? (t : FileTree) (path text : String) : Option FileTree := do
  let t ← match (Path.ofString path).parent? with
    | some parent => t.makeDirectories? parent
    | none => some t
  t.writeText? path text

/-- Adds a file or directory under its path. -/
def add (t : FileTree) (path : String) (e : Entry) : FileTree :=
  t.put (.ofPath (Path.ofString path)) e

end FileTree

end ArticleAudit.Files
