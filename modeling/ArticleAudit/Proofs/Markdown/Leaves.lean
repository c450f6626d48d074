import ArticleAudit.Proofs.Markdown.Layout

/-!
# Blocks inside leaves

A heading, a table, an alert, fenced code, a paragraph and a row of an item hold no blocks of other
lines. What they do hold are parts of their own text: links, rows, cells, and names in code
(`parts_leaf`). So at every depth lines are read as blocks of an article, never as fields of front
matter or as items of a table of contents (`Builds.ofArticle`).
-/

set_option autoImplicit false

namespace ArticleAudit.Markdown

open ArticleAudit.Text

variable {source : List Char} {strict : Bool}

/-- The kinds of blocks that are parts of the text of another block. -/
def isPartKind : BlockKind → Bool
  | .link | .tableColumn | .tableRow | .tableRowValue | .resourceType | .resourceNamespace => true
  | _ => false

/-- A block that is a part of the text of another one. -/
def Part (b : Block) : Prop :=
  isPartKind b.kind = true

/-- The kinds of blocks that hold parts only. -/
def isLeafKind : BlockKind → Bool
  | .header | .conceptualTab | .table | .note | .codeFence => true
  | _ => false

theorem throughout_flatMap {P : Block → Prop} {α : Type} {f : α → List Block}
    (h : ∀ x, Block.Throughout P (f x)) (xs : List α) :
    Block.Throughout P (xs.flatMap f) := by
  induction xs with
  | nil => exact Block.throughout_nil
  | cons x rest ih =>
    rw [List.flatMap_cons]
    exact Block.throughout_append.mpr ⟨h x, ih⟩

theorem part_linkBlocks (base : Nat) (cs : List Char) :
    Block.Throughout Part (linkBlocks base cs) := by
  apply Block.throughout_of_mem
  intro b hb
  obtain ⟨node, -, hnode⟩ := List.mem_filterMap.mp hb
  unfold linkBlock? at hnode
  split at hnode
  · obtain rfl := Option.some.inj hnode
    exact ⟨rfl, Block.throughout_nil⟩
  · cases hnode

theorem part_fenceChildren (language : List Char) (lines : List LineFacts) :
    Block.Throughout Part (fenceChildren language lines) := by
  unfold fenceChildren
  split
  · apply throughout_flatMap
    intro l
    apply Block.throughout_of_mem
    intro b hb
    obtain ⟨⟨position, name⟩, -, rfl⟩ := List.mem_map.mp hb
    exact ⟨rfl, Block.throughout_cons.mpr ⟨rfl, Block.throughout_nil, Block.throughout_nil⟩⟩
  · exact Block.throughout_nil

theorem part_cellBlocks (kind : BlockKind) (hkind : isPartKind kind = true) (l : LineFacts) :
    Block.Throughout Part (cellBlocks source kind l) := by
  apply Block.throughout_of_mem
  intro b hb
  obtain ⟨cell, -, rfl⟩ := List.mem_map.mp hb
  exact ⟨hkind, part_linkBlocks _ _⟩

theorem part_rows (lines : List LineFacts) :
    Block.Throughout Part (lines.filterMap (rowBlock? source)) := by
  apply Block.throughout_of_mem
  intro b hb
  obtain ⟨row, -, hrow⟩ := List.mem_filterMap.mp hb
  unfold rowBlock? at hrow
  split at hrow
  · cases hrow
  · obtain rfl := Option.some.inj hrow
    exact ⟨rfl, part_cellBlocks .tableRowValue rfl row⟩

/-- A heading line makes a heading or a tab. -/
theorem parts_headingBlock (source : List Char) (l : LineFacts) (h : Heading) :
    ((headingBlock source l h).kind = .header ∨ (headingBlock source l h).kind = .conceptualTab) ∧
      Block.Throughout Part (headingBlock source l h).children := by
  unfold headingBlock
  split
  · exact ⟨Or.inr rfl, part_linkBlocks _ _⟩
  · exact ⟨Or.inl rfl, part_linkBlocks _ _⟩

theorem parts_fenceBlock (source : List Char) (l : LineFacts) (f : Fence)
    (lines : List LineFacts) : (fenceBlock source l f lines).block.kind = .codeFence ∧
      Block.Throughout Part (fenceBlock source l f lines).block.children := by
  obtain ⟨tag, hblock⟩ := exists_fenceBlock_eq source l f lines
  rw [hblock]
  exact ⟨rfl, part_fenceChildren _ _⟩

theorem parts_noteBlock (source : List Char) (l : LineFacts) (name : List Char)
    (lines : List LineFacts) : (noteBlock source l name lines).block.kind = .note ∧
      Block.Throughout Part (noteBlock source l name lines).block.children := by
  obtain ⟨content, hblock, -⟩ := exists_noteBlock_eq source l name lines
  rw [hblock]
  exact ⟨rfl, throughout_flatMap (fun c => part_linkBlocks _ _) _⟩

theorem parts_tableBlock (source : List Char) (l : LineFacts) (lines : List LineFacts) :
    (tableBlock source l lines).block.kind = .table ∧
      Block.Throughout Part (tableBlock source l lines).block.children :=
  ⟨rfl, Block.throughout_append.mpr ⟨part_cellBlocks .tableColumn rfl l, part_rows _⟩⟩

/-- What a line opens that holds no blocks of other lines holds parts only. -/
theorem parts_leaf {opener : Opener} {l : LineFacts} {lines : List LineFacts}
    {taken : Taken lines} (h : leafBlock? source opener l lines = some taken) :
    isLeafKind taken.block.kind = true ∧ Block.Throughout Part taken.block.children := by
  unfold leafBlock? at h
  split at h
  · next f =>
    obtain rfl := Option.some.inj h
    obtain ⟨hkind, hparts⟩ := parts_fenceBlock source l f lines
    rw [hkind]
    exact ⟨rfl, hparts⟩
  · next heading =>
    obtain rfl := Option.some.inj h
    obtain ⟨hkind | hkind, hparts⟩ := parts_headingBlock source l heading
    · exact ⟨by rw [hkind]; rfl, hparts⟩
    · exact ⟨by rw [hkind]; rfl, hparts⟩
  · next name =>
    obtain rfl := Option.some.inj h
    obtain ⟨hkind, hparts⟩ := parts_noteBlock source l name lines
    rw [hkind]
    exact ⟨rfl, hparts⟩
  · obtain rfl := Option.some.inj h
    exact ⟨rfl, (parts_tableBlock source l lines).2⟩
  · cases h

/-- A paragraph holds parts only. -/
theorem parts_paragraph {pending : Option Span} {b : Block} (hb : b ∈ paragraph source pending) :
    b.kind = .paragraph ∧ Block.Throughout Part b.children := by
  cases pending with
  | none => cases hb
  | some s =>
    obtain rfl := List.mem_singleton.mp hb
    exact ⟨rfl, part_linkBlocks _ _⟩

/-! ## Blocks of an article

Front matter is cut off before lines are read, and tables of contents are read by themselves.
-/

/-- The kinds of blocks that lines of an article are read as. -/
def isArticleKind : BlockKind → Bool
  | .metadata | .metadataField | .tocTopNode | .tocNode | .tocEntry | .tocTopEntry | .fileName
  | .nothing => false
  | _ => true

/-- A block that lines of an article are read as. -/
def OfArticle (b : Block) : Prop :=
  isArticleKind b.kind = true

theorem ofArticle_of_part {b : Block} (h : Part b) : OfArticle b := by
  unfold Part at h
  unfold OfArticle
  revert h
  cases b.kind <;> decide

/-- The kinds of leaves are kinds of articles. -/
theorem isArticleKind_of_isLeafKind {kind : BlockKind} (h : isLeafKind kind = true) :
    isArticleKind kind = true := by
  revert h
  cases kind <;> decide

theorem isArticleKind_listKind (marker : ListMarker) : isArticleKind (listKind marker) = true := by
  unfold listKind
  split <;> rfl

/-- A block of an article around blocks that are of an article too. -/
theorem ofArticle_singleton {b : Block} (h : OfArticle b)
    (hchildren : Block.Throughout OfArticle b.children) :
    Block.Throughout OfArticle [b] :=
  Block.throughout_cons.mpr ⟨h, hchildren, Block.throughout_nil⟩

theorem ofArticle_linkBlocks (base : Nat) (cs : List Char) :
    Block.Throughout OfArticle (linkBlocks base cs) :=
  (part_linkBlocks base cs).mono fun _ => ofArticle_of_part

theorem ofArticle_paragraph (pending : Option Span) :
    Block.Throughout OfArticle (paragraph source pending) := by
  apply Block.throughout_of_mem
  intro b hb
  obtain ⟨hkind, hparts⟩ := parts_paragraph hb
  refine ⟨?_, hparts.mono fun _ => ofArticle_of_part⟩
  rw [OfArticle, hkind]
  rfl

/-- A block of lines that hold no blocks. -/
theorem ofArticle_leaf {opener : Opener} {l : LineFacts} {lines : List LineFacts}
    {taken : Taken lines} (h : leafBlock? source opener l lines = some taken) :
    Block.Throughout OfArticle [taken.block] := by
  obtain ⟨hkind, hparts⟩ := parts_leaf h
  exact ofArticle_singleton (isArticleKind_of_isLeafKind hkind)
    (hparts.mono fun _ => ofArticle_of_part)

/-- Every stage of reading lines builds blocks of an article. -/
theorem Builds.ofArticle {stage : Stage} {used rest : List LineFacts} {blocks : List Block}
    (h : Builds source strict stage used rest blocks) : Block.Throughout OfArticle blocks := by
  induction h with
  | finish pending => exact ofArticle_paragraph pending
  | @blank pending _ _ _ _ _ ih =>
    exact Block.throughout_append.mpr ⟨ofArticle_paragraph pending, ih⟩
  | @opened pending _ _ _ _ _ _ _ _ _ _ ihblock ihblocks =>
    exact Block.throughout_append.mpr
      ⟨ofArticle_paragraph pending, Block.throughout_append.mpr ⟨ihblock, ihblocks⟩⟩
  | text _ _ _ ih => exact ih
  | leaf hleaf _ => exact ofArticle_leaf hleaf
  | zone _ ih => exact ofArticle_singleton rfl ih
  | openedList _ ih => exact ih
  | @list _ marker _ _ _ _ _ _ _ _ ihitem ihitems =>
    exact ofArticle_singleton (isArticleKind_listKind marker)
      (Block.throughout_append.mpr ⟨ihitem, ihitems⟩)
  | noItem => exact Block.throughout_nil
  | blankItems _ _ ih => exact ih
  | nextItem _ _ _ _ ihitem ihitems => exact Block.throughout_append.mpr ⟨ihitem, ihitems⟩
  | item _ ih =>
    exact ofArticle_singleton rfl (Block.throughout_append.mpr ⟨ofArticle_linkBlocks _ _, ih⟩)
  | noInner => exact Block.throughout_nil
  | blankInner _ _ ih => exact ih
  | innerList _ _ _ _ _ ihlist ih => exact Block.throughout_append.mpr ⟨ihlist, ih⟩
  | innerFence _ _ _ _ _ _ ihfence ih => exact Block.throughout_append.mpr ⟨ihfence, ih⟩
  | @innerRow _ _ l _ _ _ _ _ _ _ _ ih =>
    have hrow : Block.Throughout OfArticle [listRow source l] :=
      ofArticle_singleton rfl (ofArticle_linkBlocks _ _)
    exact Block.throughout_append.mpr ⟨hrow, ih⟩

theorem ofArticle_blocksOf (source : List Char) (strict : Bool) (lines : List LineFacts) :
    Block.Throughout OfArticle (blocksOf source strict lines) :=
  (builds_blocksOf source strict lines).ofArticle

/-! ## Where blocks start

Every block that is no part of a text starts where one of the lines that are read does: a paragraph
with its first line, and a list with the line of its first item.
-/

section Starts

variable {all : List LineFacts}

/-- The kinds of blocks that are read from within a line: parts of a text, and an item's file. -/
def isWithinLine (kind : BlockKind) : Bool :=
  isPartKind kind || kind == .fileName

/-- The offset is that of the first character of one of the lines. -/
def IsLineStart (all : List LineFacts) (offset : Nat) : Prop :=
  ∃ l ∈ all, l.isBlank = false ∧ offset = l.start

/-- The block starts on one of the lines, unless it is read from within a line. -/
def StartsOn (all : List LineFacts) (b : Block) : Prop :=
  isWithinLine b.kind = false → IsLineStart all b.span.start

theorem startsOn_of_part {b : Block} (h : Part b) : StartsOn all b := by
  intro hkind
  rw [isWithinLine, h] at hkind
  cases hkind

theorem startsOn_of_parts {blocks : List Block} (h : Block.Throughout Part blocks) :
    Block.Throughout (StartsOn all) blocks :=
  h.mono fun _ => startsOn_of_part

/-- A block on a line around blocks that start on lines. -/
theorem startsOn_singleton {b : Block} (h : IsLineStart all b.span.start)
    (hchildren : Block.Throughout (StartsOn all) b.children) :
    Block.Throughout (StartsOn all) [b] :=
  Block.throughout_cons.mpr ⟨fun _ => h, hchildren, Block.throughout_nil⟩

/-- The pending paragraph starts on a line. -/
def Pends (all : List LineFacts) (pending : Option Span) : Prop :=
  ∀ s, pending = some s → IsLineStart all s.start

theorem pends_extendParagraph {pending : Option Span} {l : LineFacts} (h : Pends all pending)
    (hl : l ∈ all) (hblank : l.isBlank = false) : Pends all (some (extendParagraph pending l)) := by
  rintro s ⟨⟩
  cases pending with
  | none => exact ⟨l, hl, hblank, rfl⟩
  | some s => exact h s rfl

theorem startsOn_paragraph {pending : Option Span} (h : Pends all pending) :
    Block.Throughout (StartsOn all) (paragraph source pending) := by
  cases pending with
  | none => exact Block.throughout_nil
  | some s => exact startsOn_singleton (h s rfl) (startsOn_of_parts (part_linkBlocks _ _))

/-- What a line opens that holds no blocks of other lines starts on the line. -/
theorem start_leafBlock? {opener : Opener} {l : LineFacts} {lines : List LineFacts}
    {taken : Taken lines} (h : leafBlock? source opener l lines = some taken) :
    taken.block.span.start = l.start := by
  unfold leafBlock? at h
  split at h
  · next f =>
    obtain rfl := Option.some.inj h
    obtain ⟨tag, hblock⟩ := exists_fenceBlock_eq source l f lines
    rw [hblock]
    rfl
  · next heading =>
    obtain rfl := Option.some.inj h
    exact congrArg Span.start (headingBlock_spec source l heading).1
  · next name =>
    obtain rfl := Option.some.inj h
    obtain ⟨content, hblock, -⟩ := exists_noteBlock_eq source l name lines
    rw [hblock]
    rfl
  · obtain rfl := Option.some.inj h
    rfl
  · cases h

/-- Every stage of reading lines builds blocks that start on the lines it uses, or where the stage
was opened. -/
theorem Builds.startsOn {stage : Stage} {used rest : List LineFacts} {blocks : List Block}
    (h : Builds source strict stage used rest blocks) (hopening : Pends all stage.opening)
    (hused : ∀ l ∈ used, l ∈ all) : Block.Throughout (StartsOn all) blocks := by
  -- A line that is not blank opens a stage, and it is one of the used lines.
  have hline : ∀ {l : LineFacts}, l.isBlank = false → l ∈ all →
      Pends all (some ⟨l.start, l.stop⟩) := by
    rintro l hblank hl s ⟨⟩
    exact ⟨l, hl, hblank, rfl⟩
  have hnone : Pends all none := nofun
  induction h with
  | finish pending => exact startsOn_paragraph hopening
  | blank _ _ ih =>
    have hused := List.forall_mem_cons.mp hused
    exact Block.throughout_append.mpr ⟨startsOn_paragraph hopening, ih hnone hused.2⟩
  | opened hblank _ _ _ ihblock ihblocks =>
    obtain ⟨hl, hused⟩ := List.forall_mem_cons.mp hused
    obtain ⟨hused, hmore⟩ := List.forall_mem_append.mp hused
    have hblock := ihblock (hline hblank hl) hused
    exact Block.throughout_append.mpr ⟨startsOn_paragraph hopening,
      Block.throughout_append.mpr ⟨hblock, ihblocks hnone hmore⟩⟩
  | text hblank _ _ ih =>
    obtain ⟨hl, hused⟩ := List.forall_mem_cons.mp hused
    exact ih (pends_extendParagraph hopening hl hblank) hused
  | leaf hleaf _ =>
    refine startsOn_singleton ?_ (startsOn_of_parts (parts_leaf hleaf).2)
    rw [start_leafBlock? hleaf]
    exact hopening _ rfl
  | @zone _ _ lines _ _ ih =>
    -- The inner lines of a zone are some of those it takes.
    have hinner : ∀ l ∈ zoneInner lines, l ∈ all :=
      fun l hl => hused l (List.mem_append_left _ hl)
    have hstart := hopening _ rfl
    exact startsOn_singleton hstart (ih hnone hinner)
  | openedList _ ih => exact ih hopening hused
  | @list _ _ _ _ _ _ item _ hitem _ ihitem ihitems =>
    -- A list starts where its first item does.
    obtain ⟨hused, hmore⟩ := List.forall_mem_append.mp hused
    have hfirst := ihitem hopening hused
    have hkind : isWithinLine item.kind = false := by
      rw [hitem.kind_item]
      rfl
    exact startsOn_singleton ((hfirst.of_mem (List.mem_singleton_self item)).1 hkind)
      (Block.throughout_append.mpr ⟨hfirst, ihitems hnone hmore⟩)
  | noItem => exact Block.throughout_nil
  | blankItems _ _ ih => exact ih hnone (List.forall_mem_append.mp hused).2
  | nextItem hblank _ _ _ ihitem ihitems =>
    obtain ⟨hl, hused⟩ := List.forall_mem_cons.mp hused
    obtain ⟨hused, hmore⟩ := List.forall_mem_append.mp hused
    exact Block.throughout_append.mpr ⟨ihitem (hline hblank hl) hused, ihitems hnone hmore⟩
  | item _ ih =>
    have hstart := hopening _ rfl
    exact startsOn_singleton hstart (Block.throughout_append.mpr
      ⟨startsOn_of_parts (part_linkBlocks _ _), ih hnone hused⟩)
  | noInner => exact Block.throughout_nil
  | blankInner _ _ ih => exact ih hnone (List.forall_mem_append.mp hused).2
  | innerList hblank _ _ _ _ ihlist ih =>
    obtain ⟨hl, hused⟩ := List.forall_mem_cons.mp hused
    obtain ⟨hused, hmore⟩ := List.forall_mem_append.mp hused
    exact Block.throughout_append.mpr ⟨ihlist (hline hblank hl) hused, ih hnone hmore⟩
  | innerFence hblank _ _ _ _ _ ihfence ih =>
    obtain ⟨hl, hused⟩ := List.forall_mem_cons.mp hused
    obtain ⟨hused, hmore⟩ := List.forall_mem_append.mp hused
    exact Block.throughout_append.mpr ⟨ihfence (hline hblank hl) hused, ih hnone hmore⟩
  | @innerRow _ _ l _ _ _ hblank _ _ _ _ ih =>
    obtain ⟨hl, hused⟩ := List.forall_mem_cons.mp hused
    have hrow : Block.Throughout (StartsOn all) [listRow source l] :=
      startsOn_singleton ⟨l, hl, hblank, rfl⟩ (startsOn_of_parts (part_linkBlocks _ _))
    exact Block.throughout_append.mpr ⟨hrow, ih hnone hused⟩

/-- The blocks of lines start on them. -/
theorem startsOn_blocksOf (source : List Char) (strict : Bool) {lines : List LineFacts}
    (h : ∀ l ∈ lines, l ∈ all) : Block.Throughout (StartsOn all) (blocksOf source strict lines) :=
  (builds_blocksOf source strict lines).startsOn nofun h

end Starts

end ArticleAudit.Markdown
