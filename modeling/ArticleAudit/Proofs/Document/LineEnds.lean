import ArticleAudit.Proofs.Document.Geometry
import ArticleAudit.Proofs.Markdown.LineEnds
import ArticleAudit.Proofs.Toc.Mapping

/-!
# Line ends of a document

The kind of line ends does not matter. A text with a carriage return before each line feed has the
front matter of the text (`frontMatter?_crlf`) with its fields, and the blocks of the text, of the
same shape, kinds, levels and tags, where they come to lie (`segment_crlf`).
-/

set_option autoImplicit false

namespace ArticleAudit.Document

open ArticleAudit.Text ArticleAudit.Markdown

variable {source : List Char} {l : LineFacts} {lines : List LineFacts}

/-! ## Where the front matter stands -/

/-- Front matter where it stands in the text with carriage returns. -/
def crlfFrontMatter (source : List Char) (fm : FrontMatter) : FrontMatter :=
  ⟨fm.block.crlf source, fm.body.crlf source⟩

/-- The line closes front matter with its carriage return too. -/
theorem trimEnd_crlf {line : List Char} (hone : '\n' ∉ trimEnd line) :
    trimEnd (crlf line) = trimEnd line := by
  unfold trimEnd at hone ⊢
  rw [dropEndWhile_crlf rfl rfl, crlf_eq_self hone]

/-- The trimmed text of a line stops before the carriage return of the line. -/
theorem crlfOffset_trimEnd {before line after : List Char}
    (hsource : source = before ++ line ++ after) (hone : '\n' ∉ trimEnd line) :
    crlfOffset source (byteSize before + byteSize (trimEnd line)) =
      byteSize (crlf before) + byteSize (trimEnd line) := by
  have hline : Stands source (byteSize before) line := ⟨before, after, hsource, rfl⟩
  have hmove := (hline.of_prefix (trimEnd_isPrefix line)).movesAlong hone _ (Nat.le_refl _)
  rw [hmove, hsource, List.append_assoc, crlfOffset_byteSize]

theorem findClosing_crlf {before : List Char} {lines : List (List Char)}
    (hsource : source = before ++ lines.flatten) (hlines : ∀ line ∈ lines, '\n' ∉ trimEnd line) :
    FrontMatter.findClosing (byteSize (crlf before)) (lines.map crlf) =
      (FrontMatter.findClosing (byteSize before) lines).map
        (Prod.map (crlfOffset source) (crlfOffset source)) := by
  induction lines generalizing before with
  | nil => rfl
  | cons line rest ih =>
    have hone := hlines line List.mem_cons_self
    obtain ⟨hstart, -, hsource'⟩ := crlfOffset_line hsource
    have hclosing : FrontMatter.isClosing (crlf line) = FrontMatter.isClosing line := by
      unfold FrontMatter.isClosing
      rw [trimEnd_crlf hone]
    have hrest := ih hsource' fun c hc => hlines c (List.mem_cons_of_mem line hc)
    rw [crlf_append, byteSize_append, byteSize_append] at hrest
    rw [List.map_cons, FrontMatter.findClosing, FrontMatter.findClosing, hclosing, hrest]
    split
    · rw [trimEnd_crlf hone, Option.map_some, Prod.map_apply, crlfOffset_trimEnd hsource' hone,
        hstart]
    · rfl

/-- Front matter in lines with carriage returns. -/
theorem ofLines?_crlf {before : List Char} {lines : List (List Char)}
    (hsource : source = before ++ lines.flatten) (hlines : ∀ line ∈ lines, '\n' ∉ trimEnd line) :
    FrontMatter.ofLines? (byteSize (crlf before)) (lines.map crlf) =
      (FrontMatter.ofLines? (byteSize before) lines).map (crlfFrontMatter source) := by
  cases lines with
  | nil => rfl
  | cons first rest =>
    have hone := hlines first List.mem_cons_self
    obtain ⟨hstart, hbody, hsource'⟩ := crlfOffset_line hsource
    have hclosing := findClosing_crlf hsource' fun c hc => hlines c (List.mem_cons_of_mem first hc)
    rw [crlf_append, byteSize_append, byteSize_append] at hclosing
    simp only [List.map_cons, FrontMatter.ofLines?, trimEnd_crlf hone, hclosing]
    split
    · rw [Option.map_map, Option.map_map]
      congr 1
      funext stops
      simp only [Function.comp_apply, Prod.map_fst, Prod.map_snd, crlfFrontMatter, Span.crlf,
        hstart, hbody]
    · rfl

theorem frontMatter?_byteOrderMark (rest : List Char) :
    frontMatter? (byteOrderMark :: rest) =
      FrontMatter.ofLines? byteOrderMark.utf8Size (splitLines rest) := by
  rw [frontMatter?, if_pos (beq_self_eq_true byteOrderMark)]

theorem frontMatter?_of_head?_ne (h : source.head? ≠ some byteOrderMark) :
    frontMatter? source = FrontMatter.ofLines? 0 (splitLines source) := by
  cases source with
  | nil => rfl
  | cons c rest =>
    have hc : ¬ (c == byteOrderMark) = true := by
      rw [beq_iff_eq]
      rintro rfl
      exact h rfl
    rw [frontMatter?, if_neg hc]

/-- Front matter is found in the text with carriage returns where it is found in the text. -/
theorem frontMatter?_crlf (source : List Char) :
    frontMatter? (crlf source) = (frontMatter? source).map (crlfFrontMatter source) := by
  by_cases hmark : source.head? = some byteOrderMark
  · obtain ⟨rest, rfl⟩ := List.head?_eq_some_iff.mp hmark
    have hsource : byteOrderMark :: rest = [byteOrderMark] ++ (splitLines rest).flatten := by
      rw [flatten_splitLines]
      rfl
    have hlines := ofLines?_crlf hsource fun line => lineFeed_not_mem_dropEndWhile rfl
    rw [crlf_cons (by decide), frontMatter?_byteOrderMark, frontMatter?_byteOrderMark,
      splitLines_crlf]
    exact hlines
  · have hmark' : (crlf source).head? ≠ some byteOrderMark := by
      rwa [Ne, head?_crlf (by decide) (by decide)]
    have hsource : source = [] ++ (splitLines source).flatten := (flatten_splitLines source).symm
    have hlines := ofLines?_crlf hsource fun line => lineFeed_not_mem_dropEndWhile rfl
    rw [frontMatter?_of_head?_ne hmark', frontMatter?_of_head?_ne hmark, splitLines_crlf]
    exact hlines

/-! ## Fields -/

/-- The field of a line comes to lie where the line does. -/
theorem fieldBlock?_crlf (hl : l.Sound source) :
    fieldBlock? (crlf source) (l.crlf source) =
      (fieldBlock? source l).map (Block.crlf source) := by
  have hindent : (l.crlf source).indent = l.indent := rfl
  have htext : (l.crlf source).text = l.text := rfl
  unfold fieldBlock?
  rw [hindent, htext]
  split
  · cases hfield : Field.ofLine? l.text with
    | none => rfl
    | some field =>
      obtain ⟨front, after, hsplit, hsize, -⟩ := (Field.reads_of_ofLine? hfield).exists_split
      have hstart := hl.content_start_crlf hsplit
      have hvalue := (hl.movesAlong_part hsplit).span (Nat.le_refl _)
      rw [hsize] at hstart hvalue
      simp only [Option.map_some, hl.ofSource_crlf, hstart, hvalue]
      rw [Block.crlf_eq, Block.crlf_eq]
      rfl
  · rfl

/-- A field that takes one more line. -/
theorem extendField_crlf (field : Block) (hl : l.Sound source) :
    extendField (crlf source) (field.crlf source) (l.crlf source) =
      (extendField source field l).crlf source := by
  unfold extendField
  simp only [Block.span_crlf, Span.start_crlf, Span.stop_crlf, hl.stop_crlf, ← crlfOffset_max,
    Span.crlf_mk, slice_crlf]
  rw [Block.crlf_eq, Block.crlf_eq]
  simp

/-- A line adds to the fields what its image adds to theirs. -/
theorem addFieldLine_crlf (fields : List Block) (hl : l.Sound source) :
    addFieldLine (crlf source) (fields.map (Block.crlf source)) (l.crlf source) =
      (addFieldLine source fields l).map (Block.crlf source) := by
  have hblank : (l.crlf source).isBlank = l.isBlank := rfl
  unfold addFieldLine
  rw [hblank, fieldBlock?_crlf hl]
  split
  · rfl
  · cases fieldBlock? source l with
    | some field => rfl
    | none =>
      cases fields with
      | nil => rfl
      | cons last earlier =>
        simp only [Option.map_none, List.map_cons]
        rw [extendField_crlf last hl]

theorem foldl_addFieldLine_crlf (fields : List Block) (hlines : ∀ c ∈ lines, c.Sound source) :
    (lines.map (LineFacts.crlf source)).foldl (addFieldLine (crlf source))
        (fields.map (Block.crlf source)) =
      (lines.foldl (addFieldLine source) fields).map (Block.crlf source) := by
  induction lines generalizing fields with
  | nil => rfl
  | cons l rest ih =>
    rw [List.map_cons, List.foldl_cons, List.foldl_cons,
      addFieldLine_crlf fields (hlines l List.mem_cons_self),
      ih _ fun c hc => hlines c (List.mem_cons_of_mem l hc)]

theorem fieldBlocks_crlf (hlines : ∀ c ∈ lines, c.Sound source) :
    fieldBlocks (crlf source) (lines.map (LineFacts.crlf source)) =
      (fieldBlocks source lines).map (Block.crlf source) := by
  unfold fieldBlocks
  rw [List.map_reverse, ← foldl_addFieldLine_crlf [] hlines]
  rfl

/-- The block of the front matter comes to lie where the front matter does. -/
theorem metadataBlock_crlf (fm : FrontMatter) (hlines : ∀ c ∈ lines, c.Sound source) :
    metadataBlock (crlf source) (lines.map (LineFacts.crlf source)) (crlfFrontMatter source fm) =
      (metadataBlock source lines fm).crlf source := by
  have hbody : (lines.map (LineFacts.crlf source)).filter (fun l =>
      l.line.start ≥ (crlfFrontMatter source fm).body.start &&
        l.line.stop ≤ (crlfFrontMatter source fm).body.stop) =
      (lines.filter fun l => l.line.start ≥ fm.body.start && l.line.stop ≤ fm.body.stop).map
        (LineFacts.crlf source) := by
    rw [List.filter_map]
    congr 2
    funext l
    -- The lines between the delimiters are told by their offsets, which keep their order.
    show (decide (crlfOffset source fm.body.start ≤ crlfOffset source l.line.start) &&
      decide (crlfOffset source l.line.stop ≤ crlfOffset source fm.body.stop)) = _
    simp only [crlfOffset_le_iff, ge_iff_le]
  have hsound : ∀ c ∈ lines.filter fun l =>
      l.line.start ≥ fm.body.start && l.line.stop ≤ fm.body.stop, c.Sound source :=
    fun c hc => hlines c (List.mem_filter.mp hc).1
  have hfields := fieldBlocks_crlf hsound
  unfold metadataBlock
  simp only [hbody, hfields]
  show ((Block.ofSource (crlf source) .metadata (crlfOffset source fm.block.start)
    (crlfOffset source fm.block.stop)).withContent (fm.body.crlf source)).withChildren _ = _
  rw [Block.ofSource_crlf, Block.withContent_crlf, Block.withChildren_crlf]

/-! ## Documents -/

/-- The lines after the front matter, with their carriage returns. -/
theorem dropWhile_crlf_lines (stop : Nat) (lines : List LineFacts) :
    ((lines.map (LineFacts.crlf source)).dropWhile fun l => l.line.start < crlfOffset source stop) =
      (lines.dropWhile fun l => l.line.start < stop).map (LineFacts.crlf source) := by
  rw [List.dropWhile_map]
  congr 2
  funext l
  exact decide_eq_decide.mpr crlfOffset_lt_iff

/-- The top-level blocks of a Markdown document come to lie where its lines do. -/
theorem forest_crlf (strict : Bool) (hlines : ∀ c ∈ lines, c.Sound source) :
    forest (crlf source) strict (lines.map (LineFacts.crlf source)) =
      (forest source strict lines).map (Block.crlf source) := by
  unfold forest
  rw [frontMatter?_crlf]
  cases frontMatter? source with
  | none => exact blocksOf_crlf strict hlines
  | some fm =>
    have hsound := sound_dropWhile (fun l => l.line.start < fm.block.stop) hlines
    have hmain := blocksOf_crlf strict hsound
    rw [← dropWhile_crlf_lines] at hmain
    rw [List.map_cons, ← hmain, ← metadataBlock_crlf fm hlines]
    rfl

/-- The sections of a document reach to its end, with its carriage returns. -/
theorem markdownBlocks_crlf (strict : Bool) (hlines : ∀ c ∈ lines, c.Sound source) :
    markdownBlocks (crlf source) strict (lines.map (LineFacts.crlf source)) =
      (markdownBlocks source strict lines).map (Block.crlf source) := by
  have hend := crlfOffset_byteSize source []
  rw [List.append_nil] at hend
  rw [markdownBlocks_eq, markdownBlocks_eq, forest_crlf strict hlines, ← hend,
    Block.assignRegions_crlf]

/-- A document with a carriage return before each line feed is a table of contents when the
document is one, and has the blocks of the document: the same tree with the same kinds, levels and
tags, and every span moved to where its ends come to lie. -/
theorem segment_crlf (fileName : String) (source : List Char) (strict : Bool) :
    Toc.isToc fileName (LineFacts.ofText strict (crlf source)) =
        Toc.isToc fileName (LineFacts.ofText strict source) ∧
      segment fileName (crlf source) strict =
        (segment fileName source strict).map (Block.crlf source) := by
  have hlines : ∀ c ∈ LineFacts.ofText strict source, c.Sound source :=
    fun c hc => (inOrder_ofText strict source).sound_of_mem hc
  have htoc := Toc.isToc_map (g := LineFacts.crlf source) (fun _ => rfl) (fun _ => rfl) fileName
    (LineFacts.ofText strict source)
  unfold segment
  rw [LineFacts.ofText_crlf]
  refine ⟨htoc, ?_⟩
  simp only [htoc]
  split
  · exact (Toc.mapsItems_crlf source).blocksOf hlines
  · exact markdownBlocks_crlf strict hlines

end ArticleAudit.Document
