import ArticleAudit.Markdown.Leaf

/-!
# Lists

A list is a run of items with markers of one type at one column. An item takes the lines that are
indented deeper than its marker: lists of its own, fenced code, and other lines as rows. Blank lines
belong to a list or an item only when the next line that is not blank does.

Every function answers the lines it leaves as a final part of those it was given, so each call works
on fewer lines, or on as many at a smaller stage: rows of an item, list, items, item.
-/

set_option autoImplicit false

namespace ArticleAudit.Markdown

open ArticleAudit.Text

/-- Blocks built from the front of some lines, and the lines that are left. -/
structure TakenAll (lines : List LineFacts) where
  blocks : List Block
  rest : List LineFacts
  isSuffix : rest <:+ lines

/-- No block, and all lines left. -/
def TakenAll.nothing (lines : List LineFacts) : TakenAll lines :=
  ⟨[], lines, List.suffix_rfl⟩

/-- A block in front of those built from the lines it leaves. -/
def Taken.andThen {lines : List LineFacts} (first : Taken lines) (l : LineFacts)
    (more : TakenAll first.rest) : TakenAll (l :: lines) :=
  ⟨first.block :: more.blocks, more.rest,
    more.isSuffix.trans (first.isSuffix.trans (List.suffix_cons l lines))⟩

/-- Blocks built after lines were passed over. -/
def TakenAll.skipping {lines later : List LineFacts} (more : TakenAll later)
    (h : later <:+ lines) : TakenAll lines :=
  ⟨more.blocks, more.rest, more.isSuffix.trans h⟩

/-- Two markers belong to one list. -/
def ListMarker.joins (a b : ListMarker) : Bool :=
  a.indent == b.indent && a.ordered == b.ordered

/-- The marker of a line, if the line is an item of the list that `marker` opened. -/
def itemMarker? (marker : ListMarker) (l : LineFacts) : Option ListMarker :=
  l.marker.filter (·.joins marker)

/-- After blank lines, the line still belongs to the list that `marker` opened. -/
def continuesList (marker : ListMarker) (l : LineFacts) : Bool :=
  l.indent > marker.indent || (itemMarker? marker l).isSome

/-- The block of a further line of an item. -/
def listRow (source : List Char) (l : LineFacts) : Block :=
  (Block.ofSource source .listRow l.start l.stop).withChildren
    (linkBlocks l.start (slice source ⟨l.start, l.stop⟩))

/-- The offset at which a list ends. -/
def lastStop (start : Nat) (blocks : List Block) : Nat :=
  match blocks.getLast? with
  | some b => b.span.stop
  | none => start

/-- The kind of a list. -/
def listKind (marker : ListMarker) : BlockKind :=
  if marker.ordered then .numberedList else .bulletedList

/-- The block of an item: the links of its first line, then the blocks of its deeper lines. -/
def itemBlock (source : List Char) (depth : Nat) (marker : ListMarker) (l : LineFacts)
    (inner : List Block) : Block :=
  let textStart := min (l.content.start + marker.contentOffset) l.stop
  let links := linkBlocks textStart (slice source ⟨textStart, l.stop⟩)
  (((Block.ofSource source .listItem l.start (lastStop l.stop inner)).withLevel depth).withContent
    ⟨textStart, l.stop⟩).withChildren (links ++ inner)

/-- The block of a list whose first line starts at `start`. -/
def listBlock (source : List Char) (depth : Nat) (marker : ListMarker) (start : Nat)
    (items : List Block) : Block :=
  let first := (items.head?.map fun b => b.span.start).getD start
  ((Block.ofSource source (listKind marker) first (lastStop first items)).withLevel
    depth).withChildren items

theorem dropWhile_isBlank_suffix {l : LineFacts} {lines : List LineFacts}
    (_h : l.isBlank = true) : (lines.dropWhile LineFacts.isBlank) <:+ l :: lines :=
  (List.dropWhile_suffix _).trans (List.suffix_cons l lines)

mutual

/-- A list that opens on line `l`. -/
def takeList (source : List Char) (depth : Nat) (marker : ListMarker) (l : LineFacts)
    (lines : List LineFacts) : Taken lines :=
  let item := takeItem source depth marker l lines
  let more := takeItems source depth marker item.rest
  { block := listBlock source depth marker l.start (item.block :: more.blocks)
    rest := more.rest
    isSuffix := more.isSuffix.trans item.isSuffix }
termination_by (lines.length, 2)
decreasing_by
  · exact Prod.Lex.right _ (by decide)
  · rcases Nat.lt_or_eq_of_le item.isSuffix.length_le with h | h
    · exact Prod.Lex.left _ _ h
    · rw [h]
      exact Prod.Lex.right _ (by decide)

/-- The items of a list, as far as they follow one another. -/
def takeItems (source : List Char) (depth : Nat) (marker : ListMarker) (lines : List LineFacts) :
    TakenAll lines :=
  match lines with
  | [] => .nothing []
  | l :: lines =>
    if hl : l.isBlank then
      match h : lines.dropWhile LineFacts.isBlank with
      | [] => .nothing (l :: lines)
      | next :: later =>
        if continuesList marker next then
          (takeItems source depth marker (next :: later)).skipping
            (h ▸ dropWhile_isBlank_suffix hl)
        else .nothing (l :: lines)
    else
      match itemMarker? marker l with
      | none => .nothing (l :: lines)
      | some own =>
        let item := takeItem source depth own l lines
        item.andThen l (takeItems source depth marker item.rest)
termination_by (lines.length, 1)
decreasing_by
  · have := congrArg List.length h
    have := (List.dropWhile_suffix (l := lines) LineFacts.isBlank).length_le
    exact Prod.Lex.left _ _ (by simp only [List.length_cons] at *; omega)
  · exact Prod.Lex.left _ _ (by simp)
  · exact Prod.Lex.left _ _ (Nat.lt_succ_of_le item.isSuffix.length_le)

/-- An item that starts on line `l`. -/
def takeItem (source : List Char) (depth : Nat) (marker : ListMarker) (l : LineFacts)
    (lines : List LineFacts) : Taken lines :=
  let inner := takeInner source depth marker.indent lines
  { block := itemBlock source depth marker l inner.blocks
    rest := inner.rest
    isSuffix := inner.isSuffix }
termination_by (lines.length, 1)
decreasing_by
  · exact Prod.Lex.right _ (by decide)

/-- The blocks of the lines that are indented deeper than `indent`. -/
def takeInner (source : List Char) (depth indent : Nat) (lines : List LineFacts) :
    TakenAll lines :=
  match lines with
  | [] => .nothing []
  | l :: lines =>
    if hl : l.isBlank then
      match h : lines.dropWhile LineFacts.isBlank with
      | [] => .nothing (l :: lines)
      | next :: later =>
        if next.indent > indent then
          (takeInner source depth indent (next :: later)).skipping
            (h ▸ dropWhile_isBlank_suffix hl)
        else .nothing (l :: lines)
    else if l.indent ≤ indent then .nothing (l :: lines)
    else
      match l.marker with
      | some own =>
        let list := takeList source (deeper depth) own l lines
        list.andThen l (takeInner source depth indent list.rest)
      | none =>
        match l.fence with
        | some f =>
          let fence := fenceBlock source l f lines
          fence.andThen l (takeInner source depth indent fence.rest)
        | none =>
          let row : Taken lines := ⟨listRow source l, lines, List.suffix_rfl⟩
          row.andThen l (takeInner source depth indent lines)
termination_by (lines.length, 0)
decreasing_by
  · have := congrArg List.length h
    have := (List.dropWhile_suffix (l := lines) LineFacts.isBlank).length_le
    exact Prod.Lex.left _ _ (by simp only [List.length_cons] at *; omega)
  · exact Prod.Lex.left _ _ (by simp)
  · exact Prod.Lex.left _ _ (Nat.lt_succ_of_le list.isSuffix.length_le)
  · exact Prod.Lex.left _ _ (Nat.lt_succ_of_le fence.isSuffix.length_le)
  · exact Prod.Lex.left _ _ (by simp)

end

end ArticleAudit.Markdown
