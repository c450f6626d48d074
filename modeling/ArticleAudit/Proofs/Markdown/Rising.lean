import ArticleAudit.Proofs.Block.Rising
import ArticleAudit.Proofs.Markdown.Leaves
import ArticleAudit.Proofs.Markdown.Marks

/-!
# Built blocks rise

The marks of built blocks rise strictly, since every builder passes that on (`layout_rises`). A
block of lines starts on a line that is not blank, and the blocks in a zone, a list or an item start
later or by a later step. What needs care are cells: a cell may be empty, but then a pipe follows it
(`starts_cellsOf`).
-/

set_option autoImplicit false

namespace ArticleAudit.Markdown

open ArticleAudit.Text ArticleAudit.Block

variable {source : List Char} {strict : Bool}

/-! ## Links and names -/

/-- The target of a link is behind its bracket and before its closing parenthesis. -/
theorem isLink_of_mem_linkBlocks {base : Nat} {cs : List Char} {b : Block}
    (hb : b ∈ linkBlocks base cs) : b.IsLink := by
  have hscan : Scanned base cs base (parseInline base cs) :=
    scanned_scanInline [] rfl rfl (Nat.le_refl base)
  obtain ⟨node, hnode, hb⟩ := List.mem_filterMap.mp hb
  cases node with
  | text full => cases hb
  | codeSpan full inner => cases hb
  | link full text target image =>
    obtain ⟨before, parts, after, -, ⟨init, htail⟩, hparts⟩ :=
      hscan.links full text target image hnode
    rw [hparts] at hb
    obtain rfl := Option.some.inj hb
    have hhead : 0 < byteSize parts.head := by
      apply byteSize_pos_of_ne_nil
      simp [LinkParts.head]
    have hclosing : 0 < byteSize parts.tail := by
      apply byteSize_pos_of_ne_nil
      simp [htail]
    refine ⟨rfl, rfl, _, rfl, ?_, ?_⟩
    · show base + byteSize before < base + byteSize before + byteSize parts.head
      omega
    · show base + byteSize before + byteSize parts.head <
        base + byteSize before + byteSize parts.source
      simp only [LinkParts.source, byteSize_append]
      omega

theorem isLink_of_mem_flatMap {α : Type} {xs : List α} {base : α → Nat} {text : α → List Char}
    {b : Block} (hb : b ∈ xs.flatMap fun x => linkBlocks (base x) (text x)) : b.IsLink := by
  obtain ⟨x, -, hx⟩ := List.mem_flatMap.mp hb
  exact isLink_of_mem_linkBlocks hx

theorem rises_nameBlock (position : Nat) (name : ResourceName) :
    (nameBlock position name).span.start < (nameBlock position name).span.stop ∧
      Rises (nameBlock position name).span.start (nameBlock position name).span.stop
        [nameBlock position name] := by
  have hlt : (nameBlock position name).span.start < (nameBlock position name).span.stop := by
    show position + byteSize name.before <
      position + byteSize name.before + byteSize name.provider + 1 + byteSize name.typeName
    omega
  refine ⟨hlt, .around rfl (Nat.le_refl _) hlt ?_⟩
  have hmarks : marksOf (nameBlock position name).children =
      [(nameBlock position name).key + 1] := by
    simp [nameBlock, marksOf_singleton, marks, key, BlockKind.rank, Block.leaf, Block.withTag,
      Block.withChildren]
  rw [hmarks]
  refine .cons (Nat.le_refl _) ?_ (.nil _ _)
  show 3 * (nameBlock position name).span.start + 1 + 1 < _
  omega

/-! ## Cells -/

theorem start_cellSpan_le (start : Nat) (part : List Char) :
    start ≤ (cellSpan start part).start ∧
      (cellSpan start part).start ≤ start + byteSize part := by
  unfold cellSpan
  split
  · exact ⟨Nat.le_refl start, Nat.le_add_right _ _⟩
  · have hsize := congrArg byteSize (trimStart_append_takeWhile part)
    rw [byteSize_append] at hsize
    refine ⟨Nat.le_add_right _ _, ?_⟩
    show start + byteSize (part.takeWhile isBlank) ≤ start + byteSize part
    omega

/-- A cell with text starts before the end of its part. -/
theorem start_cellSpan_lt (start : Nat) {part : List Char} (h : ¬ part.all isBlank = true) :
    (cellSpan start part).start < start + byteSize part := by
  have hpos : 0 < byteSize (trimStart part) := by
    apply byteSize_pos_of_ne_nil
    simpa [trimStart] using h
  have hsize := congrArg byteSize (trimStart_append_takeWhile part)
  rw [byteSize_append] at hsize
  unfold cellSpan
  rw [if_neg h]
  show start + byteSize (part.takeWhile isBlank) < start + byteSize part
  omega

/-- The cell of a part, and cells behind the pipe after it. -/
theorem rising_cell_cons {start hi : Nat} {part : List Char} {later : List Span}
    (hlt : start + byteSize part < hi)
    (hlater : Rising (start + byteSize part + 1) hi (later.map (·.start))) :
    Rising start hi ((cellSpan start part :: later).map (·.start)) := by
  obtain ⟨hlo, hhi⟩ := start_cellSpan_le start part
  exact .cons hlo (Nat.lt_of_le_of_lt hhi hlt)
    (hlater.weaken (Nat.succ_le_succ hhi) (Nat.le_refl hi))

theorem byteSize_joined (part next : List Char) (rest : List (List Char)) :
    byteSize (List.intercalate ['|'] (part :: next :: rest)) =
      byteSize part + (1 + byteSize (List.intercalate ['|'] (next :: rest))) := by
  have hpipe : byteSize ['|'] = 1 := rfl
  rw [List.intercalate_cons_cons, byteSize_append, byteSize_append, hpipe, Nat.add_assoc]

theorem getLast?_joined (part : List Char) {next : List Char} {rest : List (List Char)} {c : Char}
    (h : (List.intercalate ['|'] (next :: rest)).getLast? = some c) :
    (List.intercalate ['|'] (part :: next :: rest)).getLast? = some c := by
  rw [List.intercalate_cons_cons, List.getLast?_append, h]
  rfl

/-- The cells after the first pipe start one after the other: behind each but the last one there is
a pipe, and the last one has text. -/
theorem starts_laterCells (start : Nat) (parts : List (List Char))
    (hlast : ∀ c, (List.intercalate ['|'] parts).getLast? = some c → isBlank c = false) :
    Rising start (start + byteSize (List.intercalate ['|'] parts))
      ((laterCells start parts).map (·.start)) := by
  induction parts generalizing start with
  | nil => exact .nil _ _
  | cons part rest ih =>
    cases rest with
    | nil =>
      simp only [laterCells]
      split
      · exact .nil _ _
      · next hne =>
        rw [List.intercalate_singleton] at hlast ⊢
        have hnotEmpty : part ≠ [] := by simpa using hne
        have hink : ¬ part.all isBlank = true := by
          intro hall
          have hblank := List.all_eq_true.mp hall _ (List.getLast_mem hnotEmpty)
          rw [hlast _ (List.getLast?_eq_some_getLast hnotEmpty)] at hblank
          cases hblank
        exact .cons (start_cellSpan_le start part).1 (start_cellSpan_lt start hink) (.nil _ _)
    | cons next rest =>
      have hlater := ih (start + byteSize part + 1) fun c hc => hlast c (getLast?_joined part hc)
      rw [byteSize_joined]
      refine rising_cell_cons (by omega) (hlater.weaken (Nat.le_refl _) ?_)
      omega

/-- The cells of a line start one after the other, before the end of the line. -/
theorem starts_cellsOf (row : List Char) (base : Nat) :
    Rising base (base + byteSize (trimEnd row)) ((cellsOf row base).map (·.start)) := by
  have hjoin := intercalate_splitAtPipes (trimEnd row)
  have hlast : ∀ c, (trimEnd row).getLast? = some c → isBlank c = false :=
    dropEndWhile_eq_self_iff.mp (trimEnd_trimEnd row)
  unfold cellsOf
  generalize splitAtPipes (trimEnd row) = parts at *
  rw [← hjoin] at hlast ⊢
  cases parts with
  | nil => exact .nil _ _
  | cons part rest =>
    show Rising _ _ (((if part.all isBlank then [] else [cellSpan base part]) ++ _).map _)
    cases rest with
    | nil =>
      rw [List.intercalate_singleton]
      split
      · exact .nil _ _
      · next hink =>
        exact .cons (start_cellSpan_le base part).1 (start_cellSpan_lt base hink) (.nil _ _)
    | cons next rest =>
      have hlater := starts_laterCells (base + byteSize part + 1) (next :: rest)
        fun c hc => hlast c (getLast?_joined part hc)
      rw [byteSize_joined]
      replace hlater := hlater.weaken (Nat.le_refl _)
        (show _ ≤ base + (byteSize part + (1 + byteSize (List.intercalate ['|'] (next :: rest))))
          by omega)
      split
      · exact hlater.weaken (by omega) (Nat.le_refl _)
      · exact rising_cell_cons (by omega) hlater

/-- The cells of a line rise. -/
theorem rises_cellBlocks {l : LineFacts} (hl : l.Sound source) (kind : BlockKind)
    (hcell : kind = .tableColumn ∨ kind = .tableRowValue) :
    Rises l.start l.stop (cellBlocks source kind l) := by
  have hlaid : Laid source l.start l.stop (cellBlocks source kind l) := by
    rcases hcell with rfl | rfl
    · exact laid_cellBlocks hl _ nofun nofun
    · exact laid_cellBlocks hl _ nofun nofun
  have hstarts := starts_cellsOf l.text l.content.start
  refine .ofEach hlaid.inOrder ?_ hlaid.within ?_ ?_
  · exact List.pairwise_map.mpr (List.pairwise_map.mp hstarts.increasing)
  · intro b hb
    obtain ⟨cell, hcell, rfl⟩ := List.mem_map.mp hb
    exact (hstarts.within cell.start (List.mem_map_of_mem hcell)).2
  · intro b hb
    have hsound := hlaid.sound.of_mem hb
    obtain ⟨cell, -, rfl⟩ := List.mem_map.mp hb
    refine rises_around_links ⟨hsound.2, hsound.1.inOrder, hsound.1.within⟩
      (fun c => isLink_of_mem_linkBlocks) rfl ?_ (Nat.lt_of_succ_le (Nat.le_max_right _ _))
      (Nat.le_max_left _ _)
    rcases hcell with rfl | rfl
    · exact Nat.one_lt_two
    · exact Nat.one_lt_two

/-! ## Blocks of lines -/

/-- A line that opens a block is not blank. -/
theorem isBlank_of_openedBy {l : LineFacts} (opener : Opener) (hl : l.Sound source)
    (h : opener.OpenedBy l) : l.isBlank = false := by
  have hdescribed := hl.described
  cases opener with
  | fence f => exact LineFacts.isBlank_of_ink hdescribed (LineFacts.ink_of_fence hdescribed h)
  | zone attributes => exact LineFacts.isBlank_of_ink hdescribed (LineFacts.ink_of_zone h)
  | heading heading =>
    exact LineFacts.isBlank_of_ink hdescribed (LineFacts.ink_of_heading hdescribed h)
  | note name =>
    -- An alert is quoted, so there is a mark of quotes on its line.
    have hquoted : l.quote.depth ≠ 0 := by
      intro hzero
      rw [Opener.OpenedBy, LineFacts.alert_eq_none hzero] at h
      cases h
    have hmark : '>' ∈ l.text := by
      rw [hl.quote_eq] at hquoted
      unfold quoteOf at hquoted
      by_contra hnone
      have hcount : (quoteMarks l.text).count '>' = 0 :=
        List.count_eq_zero.mpr fun hmem => hnone ((List.takeWhile_prefix _).subset hmem)
      simp [hcount] at hquoted
    rw [hl.isBlank_eq]
    by_contra hblank
    have hall : l.text.all isBlank = true := by simpa using hblank
    exact absurd (List.all_eq_true.mp hall _ hmark) (by decide)
  | table => exact LineFacts.isBlank_of_ink hdescribed (LineFacts.ink_of_isRow hdescribed h)
  | list marker =>
    obtain ⟨c, hink, -⟩ := LineFacts.ink_of_marker hdescribed h
    exact LineFacts.isBlank_of_ink hdescribed hink

/-- The rows of a table after its first one. -/
theorem rises_rows {lo hi : Nat} {lines : List LineFacts} (horder : InOrder source lo lines)
    (hrow : ∀ c ∈ lines, c.isRow = true) (hhi : ∀ c ∈ lines, c.stop ≤ hi) :
    Rises lo hi (lines.filterMap (rowBlock? source)) := by
  induction lines generalizing lo with
  | nil => exact .nil lo hi
  | cons c rest ih =>
    obtain ⟨hlo, hc, horder⟩ := horder
    obtain ⟨hcrow, hrow⟩ := List.forall_mem_cons.mp hrow
    obtain ⟨hcstop, hhi⟩ := List.forall_mem_cons.mp hhi
    have hmore := ih horder hrow hhi
    have hstart := hc.line_start_le.trans c.content_start_le_start
    have hline := hc.stop_le_line_stop
    have hlt := hc.start_lt_stop (isBlank_of_openedBy .table hc hcrow)
    unfold rowBlock? at *
    rw [List.filterMap_cons]
    split
    · exact hmore.weaken (by omega) (Nat.le_refl hi)
    · next b hb =>
      split at hb
      · cases hb
      · obtain rfl := Option.some.inj hb
        have hcells := rises_cellBlocks hc .tableRowValue (Or.inr rfl)
        have hblock : Rises c.start c.stop
            [(Block.ofSource source .tableRow c.start c.stop).withChildren
              (cellBlocks source .tableRowValue c)] := by
          refine .around rfl (Nat.le_refl _) hlt (hcells.above_of_rank 1 ?_)
          intro cell hcell
          obtain ⟨_, -, rfl⟩ := List.mem_map.mp hcell
          exact Nat.le_refl 1
        exact (hblock.weaken (by omega) (Nat.le_refl _)).append
          (hmore.weaken hline (Nat.le_refl hi)) (by omega) hcstop

section Leaf

variable {lo : Nat} {l : LineFacts} {lines used : List LineFacts}

/-- A block over a run of lines that holds links only. -/
theorem rises_run_of_links {taken : Taken lines} (hrun : TakesRun source l taken used)
    (hlinks : ∀ c ∈ taken.block.children, c.IsLink) (htarget : taken.block.target = none)
    (hrank : taken.block.kind.rank = 0) (hlt : l.start < (lastLine l used).stop) :
    Rises l.start (lastLine l used).stop [taken.block] := by
  have hstart : taken.block.span.start = l.start := by rw [hrun.span]
  have hstop : taken.block.span.stop = (lastLine l used).stop := by rw [hrun.span]
  rw [← hstart, ← hstop] at hlt ⊢
  exact rises_around_links hrun.laid.children hlinks htarget (by omega) hlt (Nat.le_refl _)

theorem rises_headingBlock {h : Heading}
    (hrun : TakesRun source l ⟨headingBlock source l h, lines, List.suffix_rfl⟩ used)
    (hlt : l.start < (lastLine l used).stop) :
    Rises l.start (lastLine l used).stop [headingBlock source l h] := by
  refine rises_run_of_links hrun ?_ ?_ ?_ hlt
  · intro c hc
    change c ∈ (headingBlock source l h).children at hc
    unfold headingBlock at hc
    exact isLink_of_mem_linkBlocks hc
  · show (headingBlock source l h).target = none
    unfold headingBlock
    split <;> rfl
  · show (headingBlock source l h).kind.rank = 0
    unfold headingBlock
    split <;> rfl

theorem rises_noteBlock {name : List Char}
    (hrun : TakesRun source l (noteBlock source l name lines) used)
    (hlt : l.start < (lastLine l used).stop) :
    Rises l.start (lastLine l used).stop [(noteBlock source l name lines).block] := by
  obtain ⟨content, hblock, -⟩ := exists_noteBlock_eq source l name lines
  refine rises_run_of_links hrun ?_ ?_ ?_ hlt
  · intro c hc
    rw [hblock] at hc
    exact isLink_of_mem_flatMap hc
  · rw [hblock]
    rfl
  · rw [hblock]
    rfl

/-- The blocks in fenced code are names. -/
theorem exists_nameBlock_of_mem_fenceChildren {language : List Char} {b : Block}
    (hb : b ∈ fenceChildren language lines) : ∃ position name, nameBlock position name = b := by
  unfold fenceChildren at hb
  split at hb
  · obtain ⟨line, -, hb⟩ := List.mem_flatMap.mp hb
    obtain ⟨⟨position, name⟩, -, rfl⟩ := List.mem_map.mp hb
    exact ⟨position, name, rfl⟩
  · cases hb

theorem rises_fenceBlock {f : Fence} (hrun : TakesRun source l (fenceBlock source l f lines) used)
    (hlt : l.start < (lastLine l used).stop) :
    Rises l.start (lastLine l used).stop [(fenceBlock source l f lines).block] := by
  have hlaid := hrun.laid.children
  obtain ⟨tag, hblock⟩ := exists_fenceBlock_eq source l f lines
  have hnames : ∀ c ∈ (fenceBlock source l f lines).block.children,
      ∃ position name, nameBlock position name = c := by
    rw [hblock]
    exact fun c => exists_nameBlock_of_mem_fenceChildren
  have hkey : (fenceBlock source l f lines).block.key = 3 * l.start := by
    rw [hblock]
    rfl
  have hrise := Rises.ofLaid hlaid (by
    intro c hc
    obtain ⟨position, name, rfl⟩ := hnames c hc
    exact rises_nameBlock position name)
  rw [hrun.span] at hrise
  refine .around ?_ ?_ ?_ ?_
  · rw [hblock]
    rfl
  · rw [hrun.span]
  · rw [hrun.span]
    exact hlt
  · rw [hkey]
    refine hrise.above_of_rank 1 ?_
    intro c hc
    obtain ⟨position, name, rfl⟩ := hnames c hc
    exact Nat.le_refl 1

/-- A table rises: the cells of its first row, then the other rows. -/
theorem rises_tableBlock (horder : InOrder source lo (l :: lines.takeWhile LineFacts.isRow))
    (hblank : l.isBlank = false) :
    Rises l.start (lastLine l (lines.takeWhile LineFacts.isRow)).stop
      [(tableBlock source l lines).block] := by
  have hl := horder.2.1
  have hlt := hl.start_lt_stop hblank
  have hline := hl.stop_le_line_stop
  have hstop := horder.stop_le_lastLine List.mem_cons_self
  have hcells : Rising (3 * l.start + 1) (3 * l.stop)
      (marksOf (cellBlocks source .tableColumn l)) := by
    refine (rises_cellBlocks hl .tableColumn (Or.inl rfl)).above_of_rank 1 ?_
    intro cell hcell
    obtain ⟨_, -, rfl⟩ := List.mem_map.mp hcell
    exact Nat.le_refl 1
  have hrows := rises_rows horder.2.2 (fun c hc => List.mem_takeWhile_imp hc)
    fun c hc => horder.stop_le_lastLine (List.mem_cons_of_mem l hc)
  refine .around rfl (Nat.le_refl _) (hlt.trans_le hstop) ?_
  show Rising (3 * l.start + 1) _
    (marksOf (cellBlocks source .tableColumn l ++ List.filterMap (rowBlock? source) _))
  rw [marksOf_append]
  exact (hcells.weaken (Nat.le_refl _) (Nat.mul_le_mul_left 3 hstop)).append
    (hcells.weaken (Nat.le_refl _) (Nat.mul_le_mul_left 3 hline)) hrows (by omega)

/-- A block of lines that hold no blocks. -/
theorem rises_leaf {opener : Opener} {taken : Taken lines}
    (horder : InOrder source lo (l :: lines)) (hopener : opener.OpenedBy l)
    (hleaf : leafBlock? source opener l lines = some taken) (hlines : lines = used ++ taken.rest) :
    Rises l.start (lastLine l used).stop [taken.block] := by
  obtain ⟨used', hrun⟩ := exists_takesRun horder hopener hleaf
  obtain rfl : used' = used := List.append_cancel_right (hrun.split.symm.trans hlines)
  have hused : InOrder source lo (l :: used') := by
    rw [hlines] at horder
    exact horder.left_cons
  have hblank := isBlank_of_openedBy opener horder.2.1 hopener
  have hlt : l.start < (lastLine l used').stop :=
    (horder.2.1.start_lt_stop hblank).trans_le (hused.stop_le_lastLine List.mem_cons_self)
  unfold leafBlock? at hleaf
  split at hleaf
  · obtain rfl := Option.some.inj hleaf
    exact rises_fenceBlock hrun hlt
  · obtain rfl := Option.some.inj hleaf
    exact rises_headingBlock hrun hlt
  · obtain rfl := Option.some.inj hleaf
    exact rises_noteBlock hrun hlt
  · obtain rfl := Option.some.inj hleaf
    obtain rfl : used' = lines.takeWhile LineFacts.isRow :=
      List.append_cancel_right (hlines.symm.trans List.takeWhile_append_dropWhile.symm)
    exact rises_tableBlock hused hblank
  · cases hleaf

end Leaf

/-! ## The layout -/

theorem rank_listKind (marker : ListMarker) : (listKind marker).rank = 0 := by
  unfold listKind
  split <;> rfl

/-- Blocks whose marks rise are a layout. -/
theorem layout_rises (source : List Char) : Layout source Rises where
  nil := .nil
  weaken h := h.weaken
  append ha hbelow hb hlo := ha.append_of_below hbelow hb hlo
  paragraph := by
    intro s hstart hstop hlt
    exact rises_around_links (laid_paragraph hstart hstop hlt.le).children
      (fun c => isLink_of_mem_linkBlocks) rfl Nat.zero_lt_two hlt (Nat.le_refl _)
  leaf := rises_leaf
  zone := by
    -- What is inside a zone starts after its first line.
    intro lo l attributes lines children horder hopener hchildren
    have hl := horder.2.1
    have hlt := hl.start_lt_stop (isBlank_of_openedBy (.zone attributes) hl hopener)
    have hline := hl.stop_le_line_stop
    have hstop := horder.stop_le_lastLine List.mem_cons_self
    refine .around rfl (Nat.le_refl _) (hlt.trans_le hstop)
      (Rising.weaken hchildren ?_ (Nat.le_refl _))
    show 3 * l.start + 0 + 1 ≤ 3 * l.line.stop
    omega
  row := by
    intro l hl hblank
    exact rises_around_links (laid_listRow hl).children (fun c => isLink_of_mem_linkBlocks) rfl
      Nat.zero_lt_two (hl.start_lt_stop hblank) (Nat.le_refl _)
  item := by
    -- The links of the first line, then what the deeper lines hold.
    intro hi depth marker l inner hl hmarker hinner hstop
    obtain ⟨htext, hstart⟩ := boundary_of_marker hl hmarker
    have hlt := hl.start_lt_stop (isBlank_of_openedBy (.list marker) hl hmarker)
    have hline := hl.stop_le_line_stop
    have hlinks :=
      rising_links (laid_linkBlocks_slice htext hl.boundary_stop (Nat.min_le_right _ _))
      (fun c => isLink_of_mem_linkBlocks)
    replace hlinks := hlinks.weaken
      (show 3 * l.start + 1 + 1 ≤ _ by omega) (Nat.le_refl _)
    refine .around rfl (Nat.le_refl _) (hlt.trans_le hstop) ?_
    show Rising (3 * l.start + 1 + 1) _ (marksOf (linkBlocks _ _ ++ inner))
    rw [marksOf_append]
    exact (hlinks.weaken (Nat.le_refl _) (Nat.mul_le_mul_left 3 hstop)).append
      (hlinks.weaken (Nat.le_refl _) (Nat.mul_le_mul_left 3 hline)) hinner (by omega)
  list := by
    -- A list starts where its first item does, one step earlier.
    intro lo hi depth marker start item items hkind h
    have habove := h.above
    have hitem := h.within item.key (by simp [marksOf_cons, marks])
    have hkey : item.key = 3 * item.span.start + 1 := by
      rw [key, hkind]
      rfl
    refine .around rfl ?_ ?_ ?_
    · show lo ≤ item.span.start
      omega
    · show item.span.start < hi
      omega
    · rw [key]
      show Rising (3 * item.span.start + (listKind marker).rank + 1) _ (marksOf (item :: items))
      rw [rank_listKind, Nat.add_zero, ← hkey]
      exact habove

/-- The marks of the blocks of lines in order rise. -/
theorem rises_blocksOf {lo hi : Nat} {lines : List LineFacts} (strict : Bool)
    (h : InOrder source lo lines) (hhi : ∀ l ∈ lines, l.stop ≤ hi) :
    Rises lo hi (blocksOf source strict lines) :=
  (layout_rises source).blocksOf strict h hhi

end ArticleAudit.Markdown
