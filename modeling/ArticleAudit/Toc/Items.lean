import ArticleAudit.Markdown.ListBlock
import ArticleAudit.Toc.Detect

/-!
# Items of a table of contents

Items are read by indentation: an item starts with a dash, and the deeper lines after it are its
properties and its own items. The property `name` is the item's tag, `href` becomes a block for the
file, and `items` or nested items make the item a node. Blank lines and comments are passed over.
-/

set_option autoImplicit false

namespace ArticleAudit.Toc

open ArticleAudit.Text ArticleAudit.Markdown

/-- The line starts an item: an unordered marker that is a dash. -/
def isItem (l : LineFacts) : Bool :=
  (l.marker.any fun m => !m.ordered) && (trimStart l.text).head? == some '-'

/-- Narrows a span to what stands between matching quotes, if its text is quoted. -/
def unquoteSpan (source : List Char) (s : Span) : Span :=
  let text := slice source s
  let quotedBy (q : Char) : Bool := text.head? == some q && text.getLast? == some q
  if byteSize text ≥ 2 && (quotedBy '"' || quotedBy '\'') then ⟨s.start + 1, s.stop - 1⟩ else s

/-- What a line says about its item. -/
inductive Property
  | name (name : List Char)
  | items
  | file (span : Span) (target : List Char)
  deriving DecidableEq, Repr

/-- Reads the property that stands in a line from a byte offset on. -/
def property? (source : List Char) (l : LineFacts) (offset : Nat) : Option Property := do
  let rest ← dropBytes? offset l.text
  let field ← Field.ofLine? rest
  let start := l.content.start + offset + field.valueOffset
  let value := unquoteSpan source ⟨start, start + byteSize field.value⟩
  let text := slice source value
  if field.key == "name".toList then some (.name text)
  else if field.key == "items".toList then some .items
  else if field.key == "href".toList && !value.isEmpty then some (.file value text)
  else none

/-- What an item consists of: its children in order, its name, whether it has items, and the
offset after its last line; `none` where no line says so. -/
structure Parts where
  children : List Block
  name : Option (List Char)
  hasItems : Bool
  stop : Option Nat
  deriving Repr, Inhabited

namespace Parts

/-- An item of which nothing is known yet. -/
def empty : Parts :=
  ⟨[], none, false, none⟩

/-- Joins what earlier and later lines say: the later name and the later end count. -/
def append (earlier later : Parts) : Parts :=
  ⟨earlier.children ++ later.children, later.name.orElse fun _ => earlier.name,
    earlier.hasItems || later.hasItems, later.stop.orElse fun _ => earlier.stop⟩

/-- What one property says. -/
def ofProperty : Option Property → Parts
  | none => empty
  | some (.name name) => { empty with name := some name }
  | some .items => { empty with hasItems := true }
  | some (.file span target) =>
    { empty with
      children := [((Block.leaf .fileName span target).withTarget span).withTag target] }

/-- What nested items say. -/
def ofItems (items : List Block) : Parts :=
  match items.getLast? with
  | none => empty
  | some last => ⟨items, none, true, some last.span.stop⟩

end Parts

/-- The kind of an item. -/
def itemKind (depth : Nat) (hasItems : Bool) : BlockKind :=
  match depth, hasItems with
  | 0, true => .tocTopNode
  | 0, false => .tocTopEntry
  | _ + 1, true => .tocNode
  | _ + 1, false => .tocEntry

/-- The block of an item that starts on line `l`. -/
def itemBlock (source : List Char) (depth : Nat) (l : LineFacts) (parts : Parts) : Block :=
  let stop := parts.stop.getD l.stop
  let block := ((Block.ofSource source (itemKind depth parts.hasItems) l.start stop).withLevel
    depth).withChildren parts.children
  match parts.name with
  | some name => block.withTag name
  | none => block

/-- What was read of an item from the front of some lines, and the lines that are left. -/
structure TakenParts (lines : List LineFacts) where
  parts : Parts
  rest : List LineFacts
  isSuffix : rest <:+ lines

/-- What later lines say, after one more line. -/
def TakenParts.after {lines later : List LineFacts} (more : TakenParts later) (earlier : Parts)
    (h : later <:+ lines) : TakenParts lines :=
  ⟨earlier.append more.parts, more.rest, more.isSuffix.trans h⟩

/-- The property on the first line of an item, after its marker. -/
def firstProperty (source : List Char) (l : LineFacts) : Parts :=
  match l.marker with
  | some m => Parts.ofProperty (property? source l m.contentOffset)
  | none => .empty

mutual

/-- The items at column `indent` at the front of some lines. -/
def takeItems (source : List Char) (depth indent : Nat) (lines : List LineFacts) :
    TakenAll lines :=
  match lines with
  | [] => .nothing []
  | l :: lines =>
    if l.isBlank || isComment l then
      (takeItems source depth indent lines).skipping (List.suffix_cons l lines)
    else if l.indent < indent then .nothing (l :: lines)
    else if l.indent = indent then
      if isItem l then
        let item := takeItem source depth l lines
        item.andThen l (takeItems source depth indent item.rest)
      else .nothing (l :: lines)
    else (takeItems source depth indent lines).skipping (List.suffix_cons l lines)
termination_by (lines.length, 2)
decreasing_by
  · exact Prod.Lex.left _ _ (by simp)
  · exact Prod.Lex.left _ _ (by simp)
  · exact Prod.Lex.left _ _ (Nat.lt_succ_of_le item.isSuffix.length_le)
  · exact Prod.Lex.left _ _ (by simp)

/-- The item that starts on line `l`. -/
def takeItem (source : List Char) (depth : Nat) (l : LineFacts) (lines : List LineFacts) :
    Taken lines :=
  let inner := takeParts source depth l.indent lines
  { block := itemBlock source depth l ((firstProperty source l).append inner.parts)
    rest := inner.rest
    isSuffix := inner.isSuffix }
termination_by (lines.length, 1)
decreasing_by
  · exact Prod.Lex.right _ (by decide)

/-- What the lines deeper than `indent` say about an item. -/
def takeParts (source : List Char) (depth indent : Nat) (lines : List LineFacts) :
    TakenParts lines :=
  match lines with
  | [] => ⟨.empty, [], List.suffix_rfl⟩
  | l :: lines =>
    if l.isBlank || isComment l then
      (takeParts source depth indent lines).after .empty (List.suffix_cons l lines)
    else if l.indent ≤ indent then ⟨.empty, l :: lines, List.suffix_rfl⟩
    else if isItem l then
      let item := takeItem source (deeper depth) l lines
      let more := takeItems source (deeper depth) l.indent item.rest
      (takeParts source depth indent more.rest).after (Parts.ofItems (item.block :: more.blocks))
        ((more.isSuffix.trans item.isSuffix).trans (List.suffix_cons l lines))
    else
      let parts := Parts.ofProperty (property? source l l.indentBytes)
      (takeParts source depth indent lines).after { parts with stop := some l.stop }
        (List.suffix_cons l lines)
termination_by (lines.length, 0)
decreasing_by
  · exact Prod.Lex.left _ _ (by simp)
  · exact Prod.Lex.left _ _ (by simp)
  · exact Prod.Lex.left _ _ (Nat.lt_succ_of_le item.isSuffix.length_le)
  · exact Prod.Lex.left _ _
      (Nat.lt_succ_of_le (more.isSuffix.trans item.isSuffix).length_le)
  · exact Prod.Lex.left _ _ (by simp)

end

/-- The blocks of a table of contents: the items from the first item line on. -/
def blocksOf (source : List Char) (lines : List LineFacts) : List Block :=
  match lines.dropWhile fun l => !(isItem l && !isComment l) with
  | [] => []
  | first :: rest => (takeItems source 0 first.indent (first :: rest)).blocks

end ArticleAudit.Toc
