import ArticleAudit.Proofs.Markdown.LeafLineEnds
import ArticleAudit.Proofs.Markdown.Layout

/-!
# Blocks of lines with carriage returns

A line of the text with carriage returns opens what the line opens, and the blocks that are built on
it come to lie where its lines do: lists (`mapsLists_crlf`), zones (`zoneBlock_crlf`), paragraphs,
whose links may cross lines (`paragraph_crlf`), and from them the blocks of all lines
(`blocksOf_crlf`).
-/

set_option autoImplicit false

namespace ArticleAudit.Markdown

open ArticleAudit.Text

variable {source : List Char} {l : LineFacts} {lines : List LineFacts}

/-! ## Lists -/

/-- The links between two offsets. -/
theorem linkBlocks_between_crlf (source : List Char) (m n : Nat) :
    linkBlocks (crlfOffset source m)
        (slice (crlf source) ⟨crlfOffset source m, crlfOffset source n⟩) =
      (linkBlocks m (slice source ⟨m, n⟩)).map (Block.crlf source) :=
  linkBlocks_slice_crlf source ⟨m, n⟩

/-- A further line of an item. -/
theorem listRow_crlf (hl : l.Sound source) :
    listRow (crlf source) (l.crlf source) = (listRow source l).crlf source := by
  unfold listRow
  rw [hl.ofSource_crlf, hl.start_crlf, hl.stop_crlf, linkBlocks_between_crlf,
    Block.withChildren_crlf]

theorem lastStop_crlf (start : Nat) (blocks : List Block) :
    lastStop (crlfOffset source start) (blocks.map (Block.crlf source)) =
      crlfOffset source (lastStop start blocks) := by
  unfold lastStop
  rw [List.getLast?_map]
  cases blocks.getLast? with
  | none => rfl
  | some b =>
    show (b.crlf source).span.stop = crlfOffset source b.span.stop
    rw [Block.span_crlf, Span.stop_crlf]

/-- An item and the blocks of its deeper lines. -/
theorem itemBlock_crlf (depth : Nat) (marker : ListMarker) (inner : List Block)
    (hl : l.Sound source) :
    itemBlock (crlf source) depth marker (l.crlf source) (inner.map (Block.crlf source)) =
      (itemBlock source depth marker l inner).crlf source := by
  have htext := hl.min_stop_crlf marker.contentOffset
  rw [hl.stop_crlf] at htext
  unfold itemBlock
  simp only [hl.start_crlf, hl.stop_crlf, htext, lastStop_crlf]
  rw [linkBlocks_between_crlf, Span.crlf_mk, Block.ofSource_crlf, Block.withLevel_crlf,
    Block.withContent_crlf, ← List.map_append, Block.withChildren_crlf]

theorem listBlock_crlf (depth : Nat) (marker : ListMarker) (start : Nat) (items : List Block) :
    listBlock (crlf source) depth marker (crlfOffset source start)
        (items.map (Block.crlf source)) =
      (listBlock source depth marker start items).crlf source := by
  have hfirst : ((items.map (Block.crlf source)).head?.map fun b => b.span.start).getD
      (crlfOffset source start) =
        crlfOffset source ((items.head?.map fun b => b.span.start).getD start) := by
    cases items with
    | nil => rfl
    | cons first rest =>
      show (first.crlf source).span.start = crlfOffset source first.span.start
      rw [Block.span_crlf, Span.start_crlf]
  unfold listBlock
  simp only [hfirst, lastStop_crlf]
  rw [Block.ofSource_crlf, Block.withLevel_crlf, Block.withChildren_crlf]

/-- Lists come to lie where their lines do. -/
theorem mapsLists_crlf (source : List Char) :
    MapsLists source (crlf source) (LineFacts.Sound source) (LineFacts.crlf source)
      (Block.crlf source) where
  isBlank _ := rfl
  indent _ := rfl
  marker _ := rfl
  fence _ := rfl
  row _ hl := listRow_crlf hl
  item depth marker _ inner hl := itemBlock_crlf depth marker inner hl
  list depth marker l items hl := by
    rw [hl.start_crlf]
    exact listBlock_crlf depth marker l.start items
  code _ fence _ hl hlines := fenceBlock_crlf fence hl hlines

/-! ## Zones and paragraphs -/

theorem zoneInner_crlf (lines : List LineFacts) :
    zoneInner (lines.map (LineFacts.crlf source)) =
      (zoneInner lines).map (LineFacts.crlf source) :=
  takeWhile_map_lines (g := LineFacts.crlf source) (q := fun c => !isZoneEnd c.text)
    (fun _ => rfl) lines

theorem zoneOuter_crlf (lines : List LineFacts) :
    zoneOuter (lines.map (LineFacts.crlf source)) =
      (zoneOuter lines).map (LineFacts.crlf source) :=
  dropWhile_map_lines (g := LineFacts.crlf source) (q := fun c => !isZoneEnd c.text)
    (fun _ => rfl) lines

/-- A zone around blocks that come to lie where its lines do. -/
theorem zoneBlock_crlf (attributes : List Char) (children : List Block) (hl : l.Sound source)
    (hlines : ∀ c ∈ lines, c.Sound source) :
    zoneBlock (crlf source) (l.crlf source) attributes (lines.map (LineFacts.crlf source))
        (children.map (Block.crlf source)) =
      (zoneBlock source l attributes lines children).crlf source := by
  -- A zone without an end stops with its last line.
  have hlast : ((zoneOuter lines).head?.getD (lastLine l (zoneInner lines))).Sound source :=
    sound_closingLine _ hl hlines
  unfold zoneBlock
  simp only [zoneInner_crlf, zoneOuter_crlf, lastLine_map, List.head?_map, Option.getD_map]
  rw [ofSource_run_crlf hl hlast, Block.withTag_crlf, Block.withChildren_crlf]

/-- A paragraph holds the links of its text, line ends included. -/
theorem paragraph_crlf (pending : Option Span) :
    paragraph (crlf source) (pending.map (Span.crlf source)) =
      (paragraph source pending).map (Block.crlf source) := by
  cases pending with
  | none => rfl
  | some s =>
    show [((Block.ofSource (crlf source) .paragraph (crlfOffset source s.start)
      (crlfOffset source s.stop)).withContent (s.crlf source)).withChildren
        (linkBlocks (crlfOffset source s.start) (slice (crlf source) (s.crlf source)))] = _
    rw [Block.ofSource_crlf, linkBlocks_slice_crlf, Block.withContent_crlf,
      Block.withChildren_crlf]
    rfl

theorem extendParagraph_crlf (pending : Option Span) (hl : l.Sound source) :
    extendParagraph (pending.map (Span.crlf source)) (l.crlf source) =
      (extendParagraph pending l).crlf source := by
  unfold extendParagraph
  rw [hl.start_crlf, hl.stop_crlf]
  cases pending <;> rfl

/-! ## All lines -/

/-- A line opens what its image opens. -/
theorem openerOf?_crlf (source : List Char) (strict : Bool) (l : LineFacts)
    (lines : List LineFacts) :
    openerOf? strict (l.crlf source) (lines.map (LineFacts.crlf source)) =
      openerOf? strict l lines := by
  unfold openerOf? startsTable
  rw [List.head?_map, Option.map_map]
  rfl

/-- What a line opens, and the blocks of lines, come to lie where the lines do. -/
theorem readLines_crlf (source : List Char) (strict : Bool) :
    (∀ opener l lines, opener.OpenedBy l → l.Sound source → (∀ c ∈ lines, c.Sound source) →
      (openBlock source strict opener l lines).Maps (LineFacts.crlf source) (Block.crlf source)
        (openBlock (crlf source) strict opener (l.crlf source)
          (lines.map (LineFacts.crlf source)))) ∧
    (∀ pending lines, (∀ c ∈ lines, c.Sound source) →
      readLines (crlf source) strict (pending.map (Span.crlf source))
          (lines.map (LineFacts.crlf source)) =
        (readLines source strict pending lines).map (Block.crlf source)) := by
  -- The two functions call each other, so both statements are proved along their recursion.
  apply openBlock.mutual_induct source strict
  case case1 =>
    intro l lines f _ hl hlines
    rw [openBlock, openBlock]
    exact fenceBlock_crlf f hl hlines
  case case2 =>
    intro l lines attributes hinner _ hl hlines
    have hinner := hinner (sound_takeWhile _ hlines)
    rw [openBlock, openBlock]
    constructor
    · show zoneBlock (crlf source) (l.crlf source) attributes (lines.map (LineFacts.crlf source))
        (readLines (crlf source) strict none
          (zoneInner (lines.map (LineFacts.crlf source)))) = _
      rw [zoneInner_crlf, ← zoneBlock_crlf attributes _ hl hlines, ← hinner]
      rfl
    · show (zoneOuter (lines.map (LineFacts.crlf source))).tail = _
      rw [zoneOuter_crlf, List.map_tail]
  case case3 =>
    intro l lines heading hheading hl _
    rw [openBlock, openBlock]
    exact ⟨headingBlock_crlf hl hheading, rfl⟩
  case case4 =>
    intro l lines name _ hl hlines
    rw [openBlock, openBlock]
    exact noteBlock_crlf name hl hlines
  case case5 =>
    intro l lines _ hl hlines
    rw [openBlock, openBlock]
    exact tableBlock_crlf hl hlines
  case case6 =>
    intro l lines marker _ hl hlines
    rw [openBlock, openBlock]
    exact (mapsLists_crlf source).maps_take.1 0 marker l lines hl hlines
  case case7 =>
    intro pending _
    show readLines (crlf source) strict (pending.map (Span.crlf source)) [] = _
    rw [readLines, readLines]
    exact paragraph_crlf pending
  case case8 =>
    intro pending l lines hblank ih hlines
    have ih := ih fun c hc => hlines c (List.mem_cons_of_mem l hc)
    have hblank' : (l.crlf source).isBlank = true := hblank
    rw [List.map_cons, readLines, if_pos hblank', readLines, if_pos hblank, paragraph_crlf,
      List.map_append, ← ih]
    rfl
  case case9 =>
    -- An opener ends the pending paragraph and is followed by what its lines leave.
    intro pending l lines hblank opener hopener taken hblock ih hlines
    have hlater : ∀ c ∈ lines, c.Sound source := fun c hc => hlines c (List.mem_cons_of_mem l hc)
    have hblock := hblock (openedBy_of_openerOf? hopener) (hlines l List.mem_cons_self) hlater
    have ih := ih fun c hc => hlater c (taken.isSuffix.subset hc)
    have hblank' : ¬ (l.crlf source).isBlank = true := hblank
    have hopener' := (openerOf?_crlf source strict l lines).trans hopener
    rw [List.map_cons, readLines, if_neg hblank', hopener', readLines, if_neg hblank, hopener]
    simp only [paragraph_crlf, hblock.block, hblock.rest, List.map_append, List.map_cons]
    exact congrArg _ (congrArg _ ih)
  case case10 =>
    intro pending l lines hblank hopener ih hlines
    have ih := ih fun c hc => hlines c (List.mem_cons_of_mem l hc)
    have hblank' : ¬ (l.crlf source).isBlank = true := hblank
    have hopener' := (openerOf?_crlf source strict l lines).trans hopener
    rw [List.map_cons, readLines, if_neg hblank', hopener', readLines, if_neg hblank, hopener]
    simp only [extendParagraph_crlf pending (hlines l List.mem_cons_self)]
    exact ih

/-- The blocks of lines come to lie where the lines do. -/
theorem blocksOf_crlf (strict : Bool) (hlines : ∀ c ∈ lines, c.Sound source) :
    blocksOf (crlf source) strict (lines.map (LineFacts.crlf source)) =
      (blocksOf source strict lines).map (Block.crlf source) :=
  (readLines_crlf source strict).2 none lines hlines

end ArticleAudit.Markdown
