import ArticleAudit.Proofs.Markdown.Cells
import ArticleAudit.Proofs.Markdown.Headings
import ArticleAudit.Proofs.Markdown.InlineLineEnds
import ArticleAudit.Proofs.Markdown.Mapping
import ArticleAudit.Proofs.Markdown.Runs
import ArticleAudit.Proofs.Text.WrittenLines

/-!
# Lines with carriage returns, and the blocks built from single lines

The content of a line leaves out its terminator, so a line of the text with carriage returns has the
content and the marks of the line and lies where that comes to lie (`LineFacts.ofText_crlf`). What
is on one line moves together (`LineFacts.Sound.movesAlong`), and so do the blocks that are read
from it: headings, rows, cells, resource types, and the fences, alerts and tables that are built
from a run of lines.
-/

set_option autoImplicit false

namespace ArticleAudit.Markdown

open ArticleAudit.Text

variable {source : List Char} {l : LineFacts} {lines : List LineFacts}

/-! ## Lines -/

/-- The facts about a line where it lies in the text with carriage returns. -/
def LineFacts.crlf (source : List Char) (l : LineFacts) : LineFacts :=
  { l with line := l.line.crlf source, content := l.content.crlf source }

/-- The line feed of a line is cut off with what ends the line. -/
theorem lineFeed_not_mem_dropEndWhile {p : Char → Bool} (hfeed : p '\n' = true)
    {cs line : List Char} (hline : line ∈ splitLines cs) : '\n' ∉ dropEndWhile p line := by
  generalize hlines : splitLines cs = lines at hline
  induction lines generalizing cs with
  | nil => cases hline
  | cons first rest ih =>
    obtain ⟨body, after, rfl, hrest, hbody, hfirst⟩ := exists_of_splitLines_eq_cons hlines
    rcases List.mem_cons.mp hline with rfl | hline
    · have hcut : dropEndWhile p line = dropEndWhile p body := by
        rcases hfirst with rfl | ⟨rfl, -⟩
        · exact dropEndWhile_append_of_all fun c hc => by rwa [List.mem_singleton.mp hc]
        · rfl
      rw [hcut]
      exact fun hmem => hbody ((dropEndWhile_isPrefix p body).subset hmem)
    · exact ih hrest.symm hline

/-- A line of a text: where it stands, and that its content is on one line. -/
structure PlacedLine (source : List Char) (raw : Line) : Prop where
  stands : Stands source raw.span.start raw.text
  oneLine : '\n' ∉ dropEndWhile isLineEnd raw.text

theorem placedLine_of_mem {raw : Line} (hraw : raw ∈ linesOf source) : PlacedLine source raw := by
  obtain ⟨hstands, hmem⟩ :=
    stands_of_mem_placeLines [] (flatten_splitLines source).symm hraw
  exact ⟨hstands, lineFeed_not_mem_dropEndWhile rfl hmem⟩

namespace PlacedLine

variable {raw : Line}

/-- The content of a line is a final part of what is left of it without its terminator. -/
theorem contentOf_suffix (raw : Line) :
    (LineFacts.contentOf raw).2 <:+ dropEndWhile isLineEnd raw.text := by
  unfold LineFacts.contentOf
  cases dropEndWhile isLineEnd raw.text with
  | nil => exact List.suffix_rfl
  | cons c rest =>
    simp only
    split
    · exact List.suffix_cons c rest
    · exact List.suffix_rfl

theorem lineFeed_not_mem_content (h : PlacedLine source raw) :
    '\n' ∉ (LineFacts.contentOf raw).2 :=
  fun hmem => h.oneLine ((contentOf_suffix raw).subset hmem)

theorem content_stands (h : PlacedLine source raw) :
    Stands source (LineFacts.contentOf raw).1 (LineFacts.contentOf raw).2 := by
  obtain ⟨mark, ends, htext, hstart, -⟩ := exists_contentOf raw
  have hstands := h.stands
  rw [htext] at hstands
  rw [hstart]
  exact hstands.middle

/-- The content of a line of the text with carriage returns. -/
theorem contentOf_crlf (h : PlacedLine source raw) :
    LineFacts.contentOf ⟨raw.span.crlf source, Text.crlf raw.text⟩ =
      (crlfOffset source (LineFacts.contentOf raw).1, (LineFacts.contentOf raw).2) := by
  have hone := h.oneLine
  have hfront := h.stands.of_prefix (dropEndWhile_isPrefix isLineEnd raw.text)
  unfold LineFacts.contentOf
  rw [dropEndWhile_crlf rfl rfl, crlf_eq_self hone]
  cases htext : dropEndWhile isLineEnd raw.text with
  | nil => rfl
  | cons c rest =>
    rw [htext] at hone hfront
    -- The byte order mark is cut off at the start of both texts.
    have hzero : crlfOffset source raw.span.start = 0 ↔ raw.span.start = 0 := by
      conv_lhs => rw [← crlfOffset_zero source]
      exact (crlfOffset_strictMono source).injective.eq_iff
    by_cases hmark : raw.span.start = 0 ∧ c = byteOrderMark
    · rw [hmark.1] at hfront
      have hmove := hfront.movesAlong hone byteOrderMark.utf8Size
        (by rw [byteSize_cons, hmark.2]; exact Nat.le_add_right _ _)
      rw [crlfOffset_zero] at hmove
      simp only [Span.start_crlf, hmark.1, hmark.2, crlfOffset_zero, beq_self_eq_true,
        Bool.and_self, if_true, hmove]
    · have hcond : ¬ (raw.span.start == 0 && c == byteOrderMark) = true := by simpa using hmark
      have hcond' : ¬ (crlfOffset source raw.span.start == 0 && c == byteOrderMark) = true := by
        simpa [hzero] using hmark
      simp only [if_neg hcond]
      exact if_neg hcond'

theorem ofLine_crlf (h : PlacedLine source raw) (strict : Bool) :
    LineFacts.ofLine strict ⟨raw.span.crlf source, Text.crlf raw.text⟩ =
      (LineFacts.ofLine strict raw).crlf source := by
  have hspan := (h.content_stands.movesAlong h.lineFeed_not_mem_content).span (Nat.le_refl _)
  unfold LineFacts.ofLine LineFacts.crlf
  rw [h.contentOf_crlf]
  simp only [hspan]

end PlacedLine

/-- The lines of the text with carriage returns are the lines of the text where they come to lie. -/
theorem LineFacts.ofText_crlf (strict : Bool) (source : List Char) :
    LineFacts.ofText strict (Text.crlf source) =
      (LineFacts.ofText strict source).map (LineFacts.crlf source) := by
  have hlines : linesOf (Text.crlf source) =
      (linesOf source).map fun raw => ⟨raw.span.crlf source, Text.crlf raw.text⟩ := by
    unfold linesOf
    rw [splitLines_crlf]
    exact placeLines_crlf [] (flatten_splitLines source).symm
  unfold LineFacts.ofText
  rw [hlines, List.map_map, List.map_map]
  refine List.map_congr_left fun raw hraw => ?_
  exact (placedLine_of_mem hraw).ofLine_crlf strict

namespace LineFacts.Sound

theorem movesAlong (h : l.Sound source) :
    MovesAlong source l.content.start (byteSize l.text) :=
  h.stands.movesAlong h.oneLine

theorem stop_crlf (h : l.Sound source) :
    (l.crlf source).stop = crlfOffset source l.stop :=
  (h.movesAlong _ (byteSize_trimEnd_le l.text)).symm

/-- An offset of the line that is cut off at its end. -/
theorem min_stop_crlf (h : l.Sound source) (k : Nat) :
    min ((l.crlf source).content.start + k) (l.crlf source).stop =
      crlfOffset source (min (l.content.start + k) l.stop) :=
  h.movesAlong.min_add (byteSize_trimEnd_le l.text) k

theorem start_crlf (h : l.Sound source) :
    (l.crlf source).start = crlfOffset source l.start :=
  h.min_stop_crlf l.indentBytes

/-- A block over the line, or from the line on. -/
theorem ofSource_crlf (h : l.Sound source) (kind : BlockKind) :
    Block.ofSource (Text.crlf source) kind (l.crlf source).start (l.crlf source).stop =
      (Block.ofSource source kind l.start l.stop).crlf source := by
  rw [h.start_crlf, h.stop_crlf, Block.ofSource_crlf]

end LineFacts.Sound

theorem sound_lastLine (hl : l.Sound source) (hlines : ∀ c ∈ lines, c.Sound source) :
    (lastLine l lines).Sound source := by
  rcases List.mem_cons.mp (lastLine_mem l lines) with heq | hmem
  · rw [heq]
    exact hl
  · exact hlines _ hmem

theorem sound_takeWhile (p : LineFacts → Bool) (hlines : ∀ c ∈ lines, c.Sound source) :
    ∀ c ∈ lines.takeWhile p, c.Sound source :=
  fun c hc => hlines c ((List.takeWhile_prefix p).subset hc)

theorem sound_dropWhile (p : LineFacts → Bool) (hlines : ∀ c ∈ lines, c.Sound source) :
    ∀ c ∈ lines.dropWhile p, c.Sound source :=
  fun c hc => hlines c ((List.dropWhile_suffix p).subset hc)

/-- The line that closes a run, or the last one of the run without one. -/
theorem sound_closingLine (p : LineFacts → Bool) (hl : l.Sound source)
    (hlines : ∀ c ∈ lines, c.Sound source) :
    ((lines.dropWhile p).head?.getD (lastLine l (lines.takeWhile p))).Sound source := by
  rw [← lastLine_closedRun]
  refine sound_lastLine hl fun c hc => hlines c ?_
  rw [← closedRun_append p lines]
  exact List.mem_append_left _ hc

/-! ## Parts of a line -/

namespace LineFacts.Sound

variable {front part after : List Char}

/-- A part of the line moves along with it. -/
theorem movesAlong_part (h : l.Sound source) (htext : l.text = front ++ part ++ after) :
    MovesAlong source (l.content.start + byteSize front) (byteSize part) := by
  have hmove := h.movesAlong
  rw [htext, byteSize_append, byteSize_append] at hmove
  exact (hmove.mono (Nat.le_add_right _ _)).right

theorem content_start_crlf (h : l.Sound source) (htext : l.text = front ++ part ++ after) :
    (l.crlf source).content.start + byteSize front =
      crlfOffset source (l.content.start + byteSize front) := by
  refine (h.movesAlong _ ?_).symm
  rw [htext, List.append_assoc, byteSize_append]
  exact Nat.le_add_right _ _

theorem lineFeed_not_mem_part (h : l.Sound source) (htext : l.text = front ++ part ++ after) :
    '\n' ∉ part := by
  intro hmem
  apply h.oneLine
  rw [htext]
  exact List.mem_append_left _ (List.mem_append_right _ hmem)

/-- The links in a part of the line. -/
theorem linkBlocks_crlf (h : l.Sound source) (htext : l.text = front ++ part ++ after) :
    linkBlocks ((l.crlf source).content.start + byteSize front) part =
      (linkBlocks (l.content.start + byteSize front) part).map (Block.crlf source) := by
  have hstands := h.stands
  rw [htext] at hstands
  rw [h.content_start_crlf htext, ← Markdown.linkBlocks_crlf hstands.middle,
    crlf_eq_self (h.lineFeed_not_mem_part htext)]

end LineFacts.Sound

/-! ## Headings -/

/-- Where the title of a heading is in its line. -/
theorem Heading.Parts.exists_split {heading : Heading} {line lead marks rest : List Char}
    (h : heading.Parts line lead marks rest) :
    ∃ front after, line = front ++ heading.title ++ after ∧ heading.offset = byteSize front := by
  have htitle : heading.title <+: trimStart rest := by
    rw [h.title_eq]
    exact (dropClosing_isPrefix _).trans (trimEnd_isPrefix _)
  obtain ⟨after, hafter⟩ := htitle
  refine ⟨lead ++ marks ++ rest.takeWhile isBlank, after, ?_, h.offset_eq⟩
  rw [List.append_assoc _ heading.title, hafter, List.append_assoc, trimStart_append_takeWhile,
    h.line_eq]

theorem headingBlock_crlf {heading : Heading} (hl : l.Sound source)
    (hheading : l.heading = some heading) :
    headingBlock (crlf source) (l.crlf source) heading =
      (headingBlock source l heading).crlf source := by
  obtain ⟨strict, hread⟩ := hl.heading_eq hheading
  obtain ⟨lead, marks, rest, hparts⟩ := Heading.exists_parts hread
  obtain ⟨front, after, htext, hoffset⟩ := hparts.exists_split
  have hlinks := hl.linkBlocks_crlf htext
  have htitle := (hl.movesAlong_part htext).span (Nat.le_refl _)
  rw [← hl.content_start_crlf htext] at htitle
  -- Only the spans depend on where the line stands; whether the title is a tab does not.
  unfold headingBlock Heading.stop
  simp only [hoffset, ← Nat.add_assoc, htitle, hlinks, hl.ofSource_crlf]
  cases tabId? heading.title with
  | none =>
    simp only [Block.withLevel_crlf, Block.withContent_crlf, Block.withChildren_crlf]
  | some id =>
    simp only [Block.withTag_crlf, Block.withLevel_crlf, Block.withContent_crlf,
      Block.withChildren_crlf]

/-! ## Resource types -/

/-- The block of a name on one line moves along with the name. -/
theorem nameBlock_crlf {position : Nat} {name : ResourceName}
    (hmove : MovesAlong source position (byteSize name.source)) (hone : '\n' ∉ name.source) :
    nameBlock (crlfOffset source position) name = (nameBlock position name).crlf source := by
  have hslash : Char.utf8Size '/' = 1 := rfl
  have hsource : name.source = name.before ++ (name.provider ++ '/' :: name.typeName) ++
      name.after := by
    simp [ResourceName.source]
  have hsize := congrArg byteSize hsource
  simp only [byteSize_append, byteSize_cons, hslash] at hsize
  rw [hsource] at hone
  have hfull : '\n' ∉ name.provider ++ '/' :: name.typeName :=
    fun hmem => hone (List.mem_append_left _ (List.mem_append_right _ hmem))
  have hprovider : '\n' ∉ name.provider := fun hmem => hfull (List.mem_append_left _ hmem)
  -- The namespace and the whole name start after what stands before them.
  have hstart := hmove (byteSize name.before) (by omega)
  have hinner : MovesAlong source (position + byteSize name.before)
      (byteSize name.provider + (1 + byteSize name.typeName)) :=
    (hmove.mono (by omega)).right
  have hfullSpan := hinner.span (Nat.le_refl _)
  have hproviderSpan := hinner.span (Nat.le_add_right _ _)
  simp only [hstart, ← Nat.add_assoc] at hfullSpan hproviderSpan
  have hfullLeaf := fun span =>
    Block.leaf_crlf source .resourceType span (name.provider ++ '/' :: name.typeName)
  have hproviderLeaf := fun span => Block.leaf_crlf source .resourceNamespace span name.provider
  rw [crlf_eq_self hfull] at hfullLeaf
  rw [crlf_eq_self hprovider] at hproviderLeaf
  unfold nameBlock
  simp only [hfullSpan, hproviderSpan, hfullLeaf, hproviderLeaf]
  rw [Block.withTag_crlf, Block.withTag_crlf, ← List.map_singleton, Block.withChildren_crlf]

/-- The names in a text on one line move along with it. -/
theorem findNames_crlf {read : List Char → Option ResourceName} {position : Nat} {cs : List Char}
    (hread : ∀ cs name, read cs = some name → Named name cs)
    (hmove : MovesAlong source position (byteSize cs)) (hone : '\n' ∉ cs) :
    ((findNames read (crlfOffset source position) cs).map fun (position, name) =>
        nameBlock position name) =
      ((findNames read position cs).map fun (position, name) => nameBlock position name).map
        (Block.crlf source) := by
  fun_induction findNames read position cs with
  | case1 position =>
    rw [findNames]
    rfl
  | case2 position c rest name hname ih =>
    obtain ⟨after, hafter⟩ := (hread _ _ hname).read
    have hdrop : rest.drop (name.source.length - 1) = after :=
      drop_of_cons_eq_append hafter (by simp [ResourceName.source])
    rw [hafter] at hone hmove
    rw [byteSize_append] at hmove
    rw [hdrop] at ih
    -- Both searches go on after the name.
    have hrest := ih hmove.right fun hmem => hone (List.mem_append_right _ hmem)
    rw [hmove _ (Nat.le_add_right _ _)] at hrest
    have hblock := nameBlock_crlf (hmove.mono (Nat.le_add_right _ _))
      fun hmem => hone (List.mem_append_left _ hmem)
    rw [findNames, hname]
    simp only [List.map_cons, hdrop, hrest, hblock]
  | case3 position c rest hname ih =>
    rw [byteSize_cons] at hmove
    have hrest := ih hmove.right (List.not_mem_of_not_mem_cons hone)
    rw [hmove _ (Nat.le_add_right _ _)] at hrest
    rw [findNames, hname]
    exact hrest

theorem named_resourceBlocks (language : List Char) {cs : List Char} {name : ResourceName}
    (hname : (if language == "bicep".toList then declarationAt? else memberAt?) cs = some name) :
    Named name cs := by
  split at hname
  · exact named_declarationAt? hname
  · exact named_memberAt? hname

theorem resourceBlocks_crlf (language : List Char) (hl : l.Sound source) :
    resourceBlocks language l.text (l.crlf source).content.start =
      (resourceBlocks language l.text l.content.start).map (Block.crlf source) :=
  findNames_crlf (fun _ _ => named_resourceBlocks language) hl.movesAlong hl.oneLine

/-! ## Cells -/

theorem cellSpan_crlf {start : Nat} {part : List Char}
    (hmove : MovesAlong source start (byteSize part)) :
    cellSpan (crlfOffset source start) part = (cellSpan start part).crlf source := by
  unfold cellSpan
  split
  · rfl
  · have hsplit := congrArg byteSize (trimStart_append_takeWhile part)
    have htrim := byteSize_trimEnd_le (trimStart part)
    rw [byteSize_append] at hsplit
    have hfirst := hmove (byteSize (part.takeWhile isBlank)) (by omega)
    have hstop := hmove (byteSize (part.takeWhile isBlank) + byteSize (trim part))
      (by rw [← hsplit]; exact Nat.add_le_add_left htrim _)
    rw [← Nat.add_assoc, ← Nat.add_assoc] at hstop
    simp only [Span.crlf, hfirst, hstop]

theorem laterCells_cons_cons (start : Nat) (part next : List Char) (rest : List (List Char)) :
    laterCells start (part :: next :: rest) =
      cellSpan start part :: laterCells (start + byteSize part + 1) (next :: rest) :=
  rfl

/-- The first part of a row, the pipe after it and the rest move along with the row. -/
theorem movesAlong_parts {start : Nat} {part next : List Char} {rest : List (List Char)}
    (hmove : MovesAlong source start
      (byteSize (List.intercalate ['|'] (part :: next :: rest)))) :
    MovesAlong source start (byteSize part) ∧
      crlfOffset source start + byteSize part + 1 =
        crlfOffset source (start + byteSize part + 1) ∧
      MovesAlong source (start + byteSize part + 1)
        (byteSize (List.intercalate ['|'] (next :: rest))) := by
  have hpipe : byteSize ['|'] = 1 := rfl
  rw [List.intercalate_cons_cons, byteSize_append, byteSize_append, hpipe] at hmove
  refine ⟨hmove.mono ?_, (hmove (byteSize part + 1) (Nat.le_add_right _ _)).symm, hmove.right⟩
  rw [Nat.add_assoc]
  exact Nat.le_add_right _ _

theorem laterCells_crlf {start : Nat} {parts : List (List Char)}
    (hmove : MovesAlong source start (byteSize (List.intercalate ['|'] parts))) :
    laterCells (crlfOffset source start) parts =
      (laterCells start parts).map (Span.crlf source) := by
  induction parts generalizing start with
  | nil => rfl
  | cons part rest ih =>
    cases rest with
    | nil =>
      rw [List.intercalate_singleton] at hmove
      simp only [laterCells]
      split
      · rfl
      · rw [cellSpan_crlf hmove, List.map_singleton]
    | cons next rest =>
      obtain ⟨hpart, hstart, hrest⟩ := movesAlong_parts hmove
      rw [laterCells_cons_cons, laterCells_cons_cons, cellSpan_crlf hpart, hstart, ih hrest,
        List.map_cons]

/-- The cells of a row move along with it. -/
theorem cellsOf_crlf (hl : l.Sound source) :
    cellsOf l.text (l.crlf source).content.start =
      (cellsOf l.text l.content.start).map (Span.crlf source) := by
  have hmove := hl.movesAlong.mono (byteSize_trimEnd_le l.text)
  have hstart : (l.crlf source).content.start = crlfOffset source l.content.start := rfl
  rw [← intercalate_splitAtPipes (trimEnd l.text)] at hmove
  rw [hstart]
  unfold cellsOf
  generalize splitAtPipes (trimEnd l.text) = parts at hmove ⊢
  cases parts with
  | nil => rfl
  | cons part rest =>
    -- The part before the first pipe is followed by a pipe or is the whole row.
    have hcells : MovesAlong source l.content.start (byteSize part) ∧
        laterCells (crlfOffset source l.content.start + byteSize part + 1) rest =
          (laterCells (l.content.start + byteSize part + 1) rest).map (Span.crlf source) := by
      cases rest with
      | nil => exact ⟨by rwa [List.intercalate_singleton] at hmove, rfl⟩
      | cons next rest =>
        obtain ⟨hpart, hnext, hrest⟩ := movesAlong_parts hmove
        exact ⟨hpart, by rw [hnext, laterCells_crlf hrest]⟩
    simp only [List.map_append, hcells.2, cellSpan_crlf hcells.1]
    split <;> rfl

/-- The cells of a row come to lie where the row does. -/
theorem cellBlocks_crlf (kind : BlockKind) (hl : l.Sound source) :
    cellBlocks (crlf source) kind (l.crlf source) =
      (cellBlocks source kind l).map (Block.crlf source) := by
  have hcells : cellsOf (l.crlf source).text (l.crlf source).content.start = _ := cellsOf_crlf hl
  unfold cellBlocks
  rw [hcells, List.map_map, List.map_map]
  refine List.map_congr_left fun cell _ => ?_
  show ((Block.ofSource (crlf source) kind (crlfOffset source cell.start)
    (crlfOffset source cell.stop)).withContent (cell.crlf source)).withChildren
      (linkBlocks (crlfOffset source cell.start) (slice (crlf source) (cell.crlf source))) = _
  rw [Block.ofSource_crlf, linkBlocks_slice_crlf, Block.withContent_crlf, Block.withChildren_crlf]
  rfl

/-! ## Blocks that take a run of lines -/

/-- A block from the start of a line to the end of another one. -/
theorem ofSource_run_crlf {last : LineFacts} (hl : l.Sound source) (hlast : last.Sound source)
    (kind : BlockKind) :
    Block.ofSource (crlf source) kind (l.crlf source).start
        (max (last.crlf source).stop (l.crlf source).start) =
      (Block.ofSource source kind l.start (max last.stop l.start)).crlf source := by
  rw [hl.start_crlf, hlast.stop_crlf, ← crlfOffset_max, Block.ofSource_crlf]

theorem fenceChildren_crlf (language : List Char) (hlines : ∀ c ∈ lines, c.Sound source) :
    fenceChildren language (lines.map (LineFacts.crlf source)) =
      (fenceChildren language lines).map (Block.crlf source) := by
  unfold fenceChildren
  split
  · rw [List.flatMap_map, List.map_flatMap]
    exact List.flatMap_congr fun c hc => resourceBlocks_crlf language (hlines c hc)
  · rfl

/-- Where the line that closes a run starts, or where the run stops without one. -/
theorem closingStart_crlf (closing : Option LineFacts) (stop : Nat) :
    ((closing.map (LineFacts.crlf source)).map fun c => c.line.start).getD
        (crlfOffset source stop) =
      crlfOffset source ((closing.map fun c => c.line.start).getD stop) := by
  cases closing <;> rfl

/-- Fenced code comes to lie where its lines do. -/
theorem fenceBlock_crlf (f : Fence) (hl : l.Sound source) (hlines : ∀ c ∈ lines, c.Sound source) :
    (fenceBlock source l f lines).Maps (LineFacts.crlf source) (Block.crlf source)
      (fenceBlock (crlf source) (l.crlf source) f (lines.map (LineFacts.crlf source))) := by
  have hbody := takeWhile_map_lines (g := LineFacts.crlf source)
    (q := fun c => !f.isClosedBy c.fence) (fun _ => rfl) lines
  have hrest := dropWhile_map_lines (g := LineFacts.crlf source)
    (q := fun c => !f.isClosedBy c.fence) (fun _ => rfl) lines
  have hbodySound := sound_takeWhile (fun c => !f.isClosedBy c.fence) hlines
  have hchildren := fenceChildren_crlf (languageOf f.info) hbodySound
  have hlast := sound_closingLine (fun c => !f.isClosedBy c.fence) hl hlines
  constructor
  · have hline : (l.crlf source).line.stop = crlfOffset source l.line.stop := rfl
    simp only [fenceBlock, hbody, hrest, hchildren, lastLine_map, List.head?_map, Option.getD_map,
      hl.start_crlf, hlast.stop_crlf, hline, ← crlfOffset_max, ← crlfOffset_min,
      closingStart_crlf, Block.ofSource_crlf, Span.crlf_mk, Block.withContent_crlf,
      Block.withChildren_crlf]
    split
    · rfl
    · rw [Block.withTag_crlf]
  · simp only [fenceBlock, hrest, List.map_tail]

/-! ## Alerts -/

/-- The links in the quoted part of a line. -/
theorem unquoted_linkBlocks_crlf (hl : l.Sound source) :
    linkBlocks ((l.crlf source).content.start + l.quote.offset) l.unquoted =
      (linkBlocks (l.content.start + l.quote.offset) l.unquoted).map (Block.crlf source) := by
  obtain ⟨marks, htext, hsize⟩ := hl.exists_quoteMarks
  have htext' : l.text = marks ++ l.unquoted ++ [] := by
    rw [List.append_nil]
    exact htext
  rw [← hsize]
  exact hl.linkBlocks_crlf htext'

/-- An alert comes to lie where its lines do. -/
theorem noteBlock_crlf (name : List Char) (hl : l.Sound source)
    (hlines : ∀ c ∈ lines, c.Sound source) :
    (noteBlock source l name lines).Maps (LineFacts.crlf source) (Block.crlf source)
      (noteBlock (crlf source) (l.crlf source) name (lines.map (LineFacts.crlf source))) := by
  have hbody := takeWhile_map_lines (g := LineFacts.crlf source)
    (q := fun c => decide (c.quote.depth > 0)) (fun _ => rfl) lines
  have hrest := dropWhile_map_lines (g := LineFacts.crlf source)
    (q := fun c => decide (c.quote.depth > 0)) (fun _ => rfl) lines
  have hbodySound := sound_takeWhile (fun c => decide (c.quote.depth > 0)) hlines
  constructor
  · simp only [noteBlock, hbody, lastLine_map]
    generalize (lines.takeWhile fun c => decide (c.quote.depth > 0)) = body at hbodySound ⊢
    have hlast := sound_lastLine hl hbodySound
    have hlinks : (body.map (LineFacts.crlf source)).flatMap (fun c =>
        linkBlocks (c.content.start + c.quote.offset) c.unquoted) =
        (body.flatMap fun c => linkBlocks (c.content.start + c.quote.offset) c.unquoted).map
          (Block.crlf source) := by
      rw [List.flatMap_map, List.map_flatMap]
      exact List.flatMap_congr fun c hc => unquoted_linkBlocks_crlf (hbodySound c hc)
    simp only [hlinks, hl.start_crlf, hlast.stop_crlf, ← crlfOffset_max, Block.ofSource_crlf,
      Block.withTag_crlf, Block.withChildren_crlf]
    -- The content of an alert starts with its first quoted line, if there is one.
    cases body with
    | nil => rfl
    | cons first rest =>
      have hfirst := (hbodySound first List.mem_cons_self).start_crlf
      simp only [List.map_cons, hfirst, ← crlfOffset_max, Span.crlf_mk, Block.withContent_crlf]
  · simp only [noteBlock, hrest]

/-! ## Tables -/

theorem rowBlock?_crlf (hl : l.Sound source) :
    rowBlock? (crlf source) (l.crlf source) = (rowBlock? source l).map (Block.crlf source) := by
  have hseparator : (l.crlf source).isSeparator = l.isSeparator := rfl
  unfold rowBlock?
  rw [hseparator]
  split
  · rfl
  · rw [cellBlocks_crlf _ hl, hl.ofSource_crlf, Block.withChildren_crlf, Option.map_some]

/-- A table comes to lie where its rows do. -/
theorem tableBlock_crlf (hl : l.Sound source) (hlines : ∀ c ∈ lines, c.Sound source) :
    (tableBlock source l lines).Maps (LineFacts.crlf source) (Block.crlf source)
      (tableBlock (crlf source) (l.crlf source) (lines.map (LineFacts.crlf source))) := by
  have hbody := takeWhile_map_lines (g := LineFacts.crlf source) (q := LineFacts.isRow)
    (fun _ => rfl) lines
  have hrest := dropWhile_map_lines (g := LineFacts.crlf source) (q := LineFacts.isRow)
    (fun _ => rfl) lines
  have hbodySound := sound_takeWhile LineFacts.isRow hlines
  have hlast := sound_lastLine hl hbodySound
  have hrows : (lines.takeWhile LineFacts.isRow).filterMap
      (rowBlock? (crlf source) ∘ LineFacts.crlf source) =
      ((lines.takeWhile LineFacts.isRow).filterMap (rowBlock? source)).map (Block.crlf source) := by
    rw [List.map_filterMap]
    exact List.filterMap_congr fun c hc => rowBlock?_crlf (hbodySound c hc)
  constructor
  · simp only [tableBlock, hbody, lastLine_map, List.filterMap_map, hrows, cellBlocks_crlf _ hl,
      hl.start_crlf, hlast.stop_crlf, ← crlfOffset_max, Block.ofSource_crlf, ← List.map_append,
      Block.withChildren_crlf]
  · simp only [tableBlock, hrest]

end ArticleAudit.Markdown
