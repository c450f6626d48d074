import ArticleAudit.Proofs.Document.Fields
import ArticleAudit.Proofs.Markdown.Coverage
import ArticleAudit.Proofs.Text.WrittenLines

/-!
# Front matter and the lines after it

Front matter is a first line, the lines of its body and a closing line
(`exists_frontMatter_lines`), so its block ends with the closing line and the other lines are those
that start after it. Main statements: the top-level blocks of a Markdown document, before sections
are assigned, are laid out over the document (`laid_forest`), cover every line that is not blank
(`covered_forest`) and have a blank line between paragraphs (`separated_forest`).
-/

set_option autoImplicit false

namespace ArticleAudit.Document

open ArticleAudit.Text ArticleAudit.Markdown

variable {source : List Char}

/-! ## Where the front matter ends -/

/-- The closing line is the first that closes front matter. -/
theorem exists_of_findClosing {offset bodyStop stop : Nat} {lines : List (List Char)}
    (h : FrontMatter.findClosing offset lines = some (bodyStop, stop)) :
    ∃ body closing after, lines = body ++ closing :: after ∧
      bodyStop = offset + byteSize body.flatten ∧ stop = bodyStop + byteSize (trimEnd closing) ∧
      trimEnd closing ≠ [] := by
  induction lines generalizing offset with
  | nil => simp [FrontMatter.findClosing] at h
  | cons line rest ih =>
    simp only [FrontMatter.findClosing] at h
    split at h
    · next hclosing =>
      simp only [Option.some.injEq, Prod.mk.injEq] at h
      obtain ⟨rfl, rfl⟩ := h
      refine ⟨[], line, rest, rfl, by simp, rfl, ?_⟩
      intro hnil
      simp [FrontMatter.isClosing, hnil, FrontMatter.delimiter] at hclosing
    · obtain ⟨body, closing, after, rfl, hbody, hstop, hne⟩ := ih h
      refine ⟨line :: body, closing, after, rfl, ?_, hstop, hne⟩
      rw [hbody, List.flatten_cons, byteSize_append, Nat.add_assoc]

/-- Front matter in lines of which the first stands at `start`. -/
theorem exists_of_ofLines? {start : Nat} {lines : List (List Char)} {fm : FrontMatter}
    (h : FrontMatter.ofLines? start lines = some fm) :
    ∃ first body closing after, lines = first :: (body ++ closing :: after) ∧
      trimEnd first = FrontMatter.delimiter ∧ trimEnd closing ≠ [] ∧ fm.block.start = start ∧
      fm.body.start = start + byteSize first ∧
      fm.body.stop = fm.body.start + byteSize body.flatten ∧
      fm.block.stop = fm.body.stop + byteSize (trimEnd closing) := by
  unfold FrontMatter.ofLines? at h
  split at h
  · simp at h
  · next first rest =>
    obtain ⟨hfirst, h⟩ := Option.ite_none_right_eq_some.mp h
    obtain ⟨⟨bodyStop, stop⟩, hclosing, rfl⟩ := Option.map_eq_some_iff.mp h
    obtain ⟨body, closing, after, rfl, hbody, hstop, hne⟩ := exists_of_findClosing hclosing
    exact ⟨first, body, closing, after, rfl, beq_iff_eq.mp hfirst, hne, rfl, rfl, hbody, hstop⟩

/-! ## The lines of a document with front matter -/

/-- How front matter stands among the lines of its document: it opens with a first line and ends
with the text of a closing line. -/
structure Delimits (source : List Char) (fm : FrontMatter) (first closing : LineFacts) : Prop where
  block_start : Boundary source fm.block.start
  first_start : fm.block.start ≤ first.content.start
  first_stop : first.line.stop = fm.body.start
  closing_start : closing.line.start = fm.body.stop
  closing_stop : closing.stop = fm.block.stop
  closing_lt : fm.body.stop < fm.block.stop

/-- A line that does not start the document stops with its trimmed text. -/
theorem stop_ofLine (strict : Bool) {l : Line} (h : l.span.start ≠ 0) :
    (LineFacts.ofLine strict l).stop = l.span.start + byteSize (trimEnd l.text) := by
  obtain ⟨mark, ends, hparts, hstart, hmark, -, hends⟩ := exists_contentOf l
  obtain rfl : mark = [] := hmark.resolve_right fun hmark => h hmark.1
  have hblank : ∀ c ∈ ends, isBlank c = true := fun c hc => isBlank_of_isLineEnd (hends c hc)
  have htrim : trimEnd l.text = trimEnd (LineFacts.contentOf l).2 := by
    rw [hparts]
    exact dropEndWhile_append_of_all hblank
  show (LineFacts.contentOf l).1 + byteSize (trimEnd (LineFacts.contentOf l).2) = _
  rw [hstart, htrim]
  rfl

/-- The byte order mark belongs to the first line, whose content starts after it. -/
theorem splitLines_byteOrderMark {rest first : List Char} {others : List (List Char)}
    (h : splitLines rest = first :: others) :
    splitLines (byteOrderMark :: rest) = (byteOrderMark :: first) :: others ∧
      ∀ stop, LineFacts.contentOf ⟨⟨0, stop⟩, byteOrderMark :: first⟩ =
        (byteOrderMark.utf8Size, dropEndWhile isLineEnd first) := by
  have hfeed : byteOrderMark ≠ '\n' := by decide
  have hend : ∀ x, [byteOrderMark].getLast? = some x → isLineEnd x = false := by
    intro x hx
    obtain rfl : byteOrderMark = x := by simpa using hx
    decide
  constructor
  · simp [splitLines, hfeed, h]
  · intro stop
    have hkeep : dropEndWhile isLineEnd ([byteOrderMark] ++ first) =
        [byteOrderMark] ++ dropEndWhile isLineEnd first :=
      dropEndWhile_append first (dropEndWhile_eq_self_iff.mpr hend)
    rw [List.singleton_append, List.singleton_append] at hkeep
    simp [LineFacts.contentOf, hkeep]

theorem trimEnd_dropEndWhile_isLineEnd (cs : List Char) :
    trimEnd (dropEndWhile isLineEnd cs) = trimEnd cs := by
  obtain ⟨ends, hends, hall⟩ := exists_dropEndWhile_append isLineEnd cs
  have hblank : ∀ c ∈ ends, isBlank c = true := fun c hc => isBlank_of_isLineEnd (hall c hc)
  conv_rhs => rw [hends]
  exact (dropEndWhile_append_of_all hblank).symm

/-- A first line that opens front matter is its own content but for the line end. -/
theorem contentOf_of_trimEnd {first : List Char} (h : trimEnd first = FrontMatter.delimiter)
    (stop : Nat) :
    LineFacts.contentOf ⟨⟨0, stop⟩, first⟩ = (0, dropEndWhile isLineEnd first) := by
  have htrim := trimEnd_dropEndWhile_isLineEnd first
  unfold LineFacts.contentOf
  cases hcontent : dropEndWhile isLineEnd first with
  | nil => rfl
  | cons c rest =>
    -- The line starts with a dash, not with a byte order mark.
    obtain ⟨ends, hends, -⟩ := exists_trimEnd_append (c :: rest)
    rw [← hcontent, htrim, h, hcontent] at hends
    obtain rfl : c = '-' := (List.cons.inj hends).1
    rfl

/-- The split lines of a document with front matter: one that opens it, those of its body, one that
closes it and those after it. -/
structure Splits (source : List Char) (fm : FrontMatter) (first : List Char)
    (body : List (List Char)) (closing : List Char) (after : List (List Char)) : Prop where
  lines : splitLines source = first :: (body ++ closing :: after)
  opening : ∀ stop, fm.block.start ≤ (LineFacts.contentOf ⟨⟨0, stop⟩, first⟩).1 ∧
    trimEnd (LineFacts.contentOf ⟨⟨0, stop⟩, first⟩).2 = FrontMatter.delimiter
  closing_ne : trimEnd closing ≠ []
  block_start : Boundary source fm.block.start
  body_start : fm.body.start = byteSize first
  body_stop : fm.body.stop = fm.body.start + byteSize body.flatten
  block_stop : fm.block.stop = fm.body.stop + byteSize (trimEnd closing)

theorem exists_splits {fm : FrontMatter} (h : frontMatter? source = some fm) :
    ∃ first body closing after, Splits source fm first body closing after := by
  unfold frontMatter? at h
  split at h
  · simp at h
  · next c rest =>
    split at h
    · next hmark =>
      obtain rfl : c = byteOrderMark := by simpa using hmark
      obtain ⟨first, body, closing, after, hsplit, hfirst, hclosing, h1, h2, h3, h4⟩ :=
        exists_of_ofLines? h
      obtain ⟨hlines, hcontent⟩ := splitLines_byteOrderMark hsplit
      refine ⟨byteOrderMark :: first, body, closing, after, hlines, ?_, hclosing, ?_, ?_, h3, h4⟩
      · intro stop
        rw [hcontent, h1, trimEnd_dropEndWhile_isLineEnd]
        exact ⟨Nat.le_refl _, hfirst⟩
      · rw [h1]
        exact ⟨[byteOrderMark], rest, rfl, by simp⟩
      · rw [h2, byteSize_cons]
    · obtain ⟨first, body, closing, after, hsplit, hfirst, hclosing, h1, h2, h3, h4⟩ :=
        exists_of_ofLines? h
      refine ⟨first, body, closing, after, hsplit, ?_, hclosing, ?_, ?_, h3, h4⟩
      · intro stop
        rw [contentOf_of_trimEnd hfirst, h1, trimEnd_dropEndWhile_isLineEnd]
        exact ⟨Nat.le_refl _, hfirst⟩
      · rw [h1]
        exact boundary_zero _
      · rw [h2, Nat.zero_add]

namespace Splits

variable {fm : FrontMatter} {first closing : List Char} {body after : List (List Char)}

theorem first_ne_nil (h : Splits source fm first body closing after) : first ≠ [] := by
  rintro rfl
  cases (h.opening 0).2

theorem body_start_pos (h : Splits source fm first body closing after) : 0 < fm.body.start := by
  rw [h.body_start]
  exact byteSize_pos_of_ne_nil h.first_ne_nil

/-- The described lines of a document with front matter. -/
theorem ofText_eq (h : Splits source fm first body closing after) (strict : Bool) :
    LineFacts.ofText strict source =
      LineFacts.ofLine strict ⟨⟨0, fm.body.start⟩, first⟩ ::
        ((placeLines fm.body.start body).map (LineFacts.ofLine strict) ++
          LineFacts.ofLine strict ⟨⟨fm.body.stop, fm.body.stop + byteSize closing⟩, closing⟩ ::
            (placeLines (fm.body.stop + byteSize closing) after).map
              (LineFacts.ofLine strict)) := by
  rw [LineFacts.ofText, linesOf, h.lines, placeLines, Nat.zero_add, ← h.body_start,
    placeLines_append, ← h.body_stop, placeLines, List.map_cons, List.map_append, List.map_cons]

/-- The first and the closing line delimit the described lines. -/
theorem delimits (h : Splits source fm first body closing after) (strict : Bool) :
    Delimits source fm (LineFacts.ofLine strict ⟨⟨0, fm.body.start⟩, first⟩)
      (LineFacts.ofLine strict ⟨⟨fm.body.stop, fm.body.stop + byteSize closing⟩, closing⟩) := by
  have hpos := h.body_start_pos
  have hink := byteSize_pos_of_ne_nil h.closing_ne
  refine ⟨h.block_start, (h.opening _).1, rfl, rfl, ?_, ?_⟩
  · rw [h.block_stop]
    refine stop_ofLine strict (show fm.body.stop ≠ 0 from ?_)
    rw [h.body_stop]
    omega
  · rw [h.block_stop]
    omega

/-- The text of the body is that of its lines. -/
theorem slice_body (h : Splits source fm first body closing after) :
    slice source fm.body = body.flatten := by
  have hsource : source = first ++ body.flatten ++ (closing :: after).flatten := by
    rw [← flatten_splitLines source, h.lines, List.flatten_cons, List.flatten_append,
      List.append_assoc]
  have hspan : fm.body = ⟨byteSize first, byteSize first + byteSize body.flatten⟩ := by
    rw [← h.body_start, ← h.body_stop]
  have hslice := slice?_append first body.flatten (closing :: after).flatten
  rw [hspan, slice, hsource, hslice]
  rfl

/-- The lines of the body are those of its text, since another line follows them. -/
theorem splitLines_body (h : Splits source fm first body closing after) :
    splitLines (slice source fm.body) = body := by
  have hlines : splitLines source = (first :: body) ++ closing :: after := h.lines
  obtain ⟨-, hbody⟩ := List.forall_mem_cons.mp (isEnded_of_splitLines hlines)
  rw [h.slice_body, splitLines_flatten hbody]

/-- The lines of the body stand in the document behind the first line. -/
theorem stands_of_mem (h : Splits source fm first body closing after) {raw : Line}
    (hraw : raw ∈ placeLines fm.body.start body) :
    0 < raw.span.start ∧ Stands source raw.span.start raw.text := by
  have hsource : source = first ++ (body ++ closing :: after).flatten := by
    rw [← flatten_splitLines source, h.lines, List.flatten_cons]
  have hall : raw ∈ placeLines (byteSize first) (body ++ closing :: after) := by
    rw [placeLines_append, ← h.body_start]
    exact List.mem_append_left _ hraw
  exact ⟨Nat.lt_of_lt_of_le h.body_start_pos (bounds_of_mem_placeLines hraw).1,
    (stands_of_mem_placeLines first hsource hall).1⟩

/-- Of the described lines those of the body lie between the delimiters. -/
theorem filter_ofText (h : Splits source fm first body closing after) (strict : Bool) :
    ((LineFacts.ofText strict source).filter fun l =>
        l.line.start ≥ fm.body.start && l.line.stop ≤ fm.body.stop) =
      (placeLines fm.body.start body).map (LineFacts.ofLine strict) := by
  have hpos := h.body_start_pos
  have hclosing : 0 < byteSize closing := by
    have hink := byteSize_pos_of_ne_nil h.closing_ne
    have hle := byteSize_trimEnd_le closing
    omega
  have hbody : ∀ l ∈ (placeLines fm.body.start body).map (LineFacts.ofLine strict),
      fm.body.start ≤ l.line.start ∧ l.line.stop ≤ fm.body.stop := by
    intro l hl
    obtain ⟨raw, hraw, rfl⟩ := List.mem_map.mp hl
    obtain ⟨hstart, -, hle⟩ := bounds_of_mem_placeLines hraw
    rw [h.body_stop]
    exact ⟨hstart, hle⟩
  have hafter : ∀ l ∈ (placeLines (fm.body.stop + byteSize closing) after).map
      (LineFacts.ofLine strict), ¬ l.line.stop ≤ fm.body.stop := by
    intro l hl
    obtain ⟨raw, hraw, rfl⟩ := List.mem_map.mp hl
    obtain ⟨hstart, hstop, -⟩ := bounds_of_mem_placeLines hraw
    show ¬ raw.span.stop ≤ _
    omega
  rw [h.ofText_eq strict, List.filter_cons_of_neg, List.filter_append, List.filter_cons_of_neg,
    List.filter_eq_self.mpr, List.filter_eq_nil_iff.mpr, List.append_nil]
  · intro l hl
    simp only [Bool.and_eq_true, decide_eq_true_eq, not_and]
    exact fun _ => hafter l hl
  · intro l hl
    simp only [Bool.and_eq_true, decide_eq_true_eq]
    exact hbody l hl
  · simp only [Bool.and_eq_true, decide_eq_true_eq, not_and]
    intro _
    show ¬ fm.body.stop + byteSize closing ≤ fm.body.stop
    omega
  · simp only [Bool.and_eq_true, decide_eq_true_eq, not_and]
    intro hle
    have hzero : fm.body.start ≤ 0 := hle
    omega

end Splits

/-- A line whose text starts with a delimiter does not look like a table of contents. -/
theorem not_toc_of_delimiter {l : LineFacts} {blanks : List Char}
    (htext : l.text = FrontMatter.delimiter ++ blanks) (hblanks : ∀ c ∈ blanks, isBlank c = true) :
    Toc.isComment l = false ∧ Toc.looksLikeToc l = false := by
  have hstart : trimStart l.text = l.text := by
    rw [htext]
    rfl
  have htrim : trim l.text = FrontMatter.delimiter := by
    rw [trim, hstart, htext]
    exact dropEndWhile_append_of_all hblanks
  constructor
  · rw [Toc.isComment, hstart, htext]
    rfl
  · rw [Toc.looksLikeToc, htrim]
    decide

/-- The line that opens front matter decides that its document is no table of contents, unless its
name says so. -/
theorem isToc_of_frontMatter? {fileName : String} {fm : FrontMatter} (strict : Bool)
    (h : frontMatter? source = some fm)
    (hname : Toc.baseName fileName ≠ "toc.yml" ∧ Toc.baseName fileName ≠ "toc.yaml") :
    Toc.isToc fileName (LineFacts.ofText strict source) = false := by
  obtain ⟨first, body, closing, after, hsplits⟩ := exists_splits h
  obtain ⟨-, hopening⟩ := hsplits.opening fm.body.start
  obtain ⟨blanks, hblanks, hall⟩ :=
    exists_trimEnd_append (LineFacts.contentOf ⟨⟨0, fm.body.start⟩, first⟩).2
  rw [hopening] at hblanks
  rw [hsplits.ofText_eq strict]
  generalize hl : LineFacts.ofLine strict ⟨⟨0, fm.body.start⟩, first⟩ = l
  have htext : l.text = FrontMatter.delimiter ++ blanks := by
    rw [← hl]
    exact hblanks
  have hblank : l.isBlank = false := by
    rw [← hl]
    show (LineFacts.contentOf _).2.all Text.isBlank = false
    rw [hblanks]
    rfl
  obtain ⟨hcomment, hlooks⟩ := not_toc_of_delimiter htext hall
  unfold Toc.isToc
  simp [hname.1, hname.2, hblank, hcomment, hlooks]

/-- A document with front matter is its delimiting lines, the lines of the body and those after. -/
theorem exists_frontMatter_lines (strict : Bool) {fm : FrontMatter}
    (h : frontMatter? source = some fm) :
    ∃ first body closing after,
      LineFacts.ofText strict source = first :: (body ++ closing :: after) ∧
        Delimits source fm first closing := by
  obtain ⟨first, body, closing, after, hsplits⟩ := exists_splits h
  exact ⟨_, _, _, _, hsplits.ofText_eq strict, hsplits.delimits strict⟩

namespace Delimits

variable {fm : FrontMatter} {first closing u : LineFacts} {body after : List LineFacts}

/-- A line that starts before the front matter stops lies within it. -/
theorem contains_line (h : Delimits source fm first closing)
    (horder : InOrder source 0 (first :: (body ++ closing :: after)))
    (hu : u ∈ first :: (body ++ closing :: after)) (hlt : u.line.start < fm.block.stop) :
    fm.block.start ≤ u.start ∧ u.stop ≤ fm.block.stop := by
  have hsplit : first :: (body ++ closing :: after) = (first :: (body ++ [closing])) ++ after := by
    simp
  rw [hsplit] at horder hu
  have hrun : InOrder source 0 (first :: (body ++ [closing])) := horder.left
  rcases List.mem_append.mp hu with hu | hu
  · obtain ⟨h1, h2⟩ := hrun.within_run hu
    have hlast : lastLine first (body ++ [closing]) = closing := by simp [lastLine]
    rw [hlast, h.closing_stop] at h2
    exact ⟨(h.first_start.trans first.content_start_le_start).trans h1, h2⟩
  · -- The lines after the closing line start after it.
    obtain ⟨mid, -, hused, hafter⟩ := horder.right
    have h1 := hused closing (by simp)
    have hclosing : closing.Sound source := hrun.sound_of_mem (by simp)
    have h2 := hclosing.stop_le_line_stop
    have h3 := hafter.le_line_start hu
    have h4 := h.closing_stop
    omega

/-- The parts of front matter are in order, and stand on character boundaries. -/
theorem body_le (h : Delimits source fm first closing)
    (horder : InOrder source 0 (first :: (body ++ closing :: after))) :
    fm.block.start ≤ fm.body.start ∧ fm.body.start ≤ fm.body.stop ∧
      Boundary source fm.body.start ∧ Boundary source fm.body.stop ∧
      Boundary source fm.block.stop := by
  have hfirst := horder.2.1
  have hclosing : closing.Sound source := horder.sound_of_mem (by simp)
  have h1 := h.first_start
  have h2 := hfirst.content_stop_le
  have hmem : closing ∈ body ++ closing :: after := by simp
  have h3 := horder.2.2.le_line_start hmem
  rw [← h.first_stop, ← h.closing_start, ← h.closing_stop]
  exact ⟨by omega, h3, hfirst.line_stop, hclosing.line_start, hclosing.boundary_stop⟩

end Delimits

/-! ## The forest of a document -/

/-- The top-level blocks of a Markdown document, before sections are assigned. -/
def forest (source : List Char) (strict : Bool) (lines : List LineFacts) : List Block :=
  match frontMatter? source with
  | none => Markdown.blocksOf source strict lines
  | some fm =>
    let main := lines.dropWhile fun l => l.line.start < fm.block.stop
    metadataBlock source lines fm :: Markdown.blocksOf source strict main

theorem markdownBlocks_eq (source : List Char) (strict : Bool) (lines : List LineFacts) :
    markdownBlocks source strict lines =
      Block.assignRegions (byteSize source) (forest source strict lines) := rfl

/-- The lines of a document after its front matter. -/
def mainLines (source : List Char) (strict : Bool) : List LineFacts :=
  match frontMatter? source with
  | none => LineFacts.ofText strict source
  | some fm => (LineFacts.ofText strict source).dropWhile fun l => l.line.start < fm.block.stop

theorem mainLines_suffix (source : List Char) (strict : Bool) :
    mainLines source strict <:+ LineFacts.ofText strict source := by
  unfold mainLines
  split
  · exact List.suffix_rfl
  · exact List.dropWhile_suffix _

/-- The forest is the block of the front matter, if there is one, and the blocks of the other
lines. -/
theorem forest_eq (source : List Char) (strict : Bool) :
    forest source strict (LineFacts.ofText strict source) =
      (frontMatter? source).toList.map (metadataBlock source (LineFacts.ofText strict source)) ++
        Markdown.blocksOf source strict (mainLines source strict) := by
  unfold forest mainLines
  cases frontMatter? source <;> rfl

/-- Lines that all start from an offset on are in order from it. -/
theorem inOrder_raise {lo n : Nat} {lines : List LineFacts} (h : InOrder source lo lines)
    (hn : ∀ l ∈ lines.head?, n ≤ l.line.start) : InOrder source n lines := by
  cases lines with
  | nil => trivial
  | cons l rest => exact ⟨hn l rfl, h.2⟩

/-- The lines after the front matter. -/
theorem inOrder_main {lo n : Nat} {lines : List LineFacts} (h : InOrder source lo lines) :
    InOrder source n (lines.dropWhile fun l => l.line.start < n) := by
  have hsplit := List.takeWhile_append_dropWhile (p := fun l : LineFacts => l.line.start < n)
    (l := lines)
  rw [← hsplit] at h
  obtain ⟨mid, -, -, hrest⟩ := h.right
  refine inOrder_raise hrest ?_
  intro l hl
  have := List.head?_dropWhile_not (fun l : LineFacts => decide (l.line.start < n)) lines
  rw [Option.mem_def.mp hl] at this
  simpa using this

theorem stop_le_byteSize {lo : Nat} {l : LineFacts} {lines : List LineFacts}
    (h : InOrder source lo lines) (hl : l ∈ lines) : l.stop ≤ byteSize source :=
  (h.sound_of_mem hl).boundary_stop.le

/-- The block of the front matter around its fields. -/
theorem laid_metadataBlock {fm : FrontMatter} {first closing : LineFacts}
    {body after lines : List LineFacts} (h : Delimits source fm first closing)
    (hlines : lines = first :: (body ++ closing :: after)) (horder : InOrder source 0 lines) :
    Block.Laid source fm.block.start fm.block.stop [metadataBlock source lines fm] := by
  subst hlines
  obtain ⟨h1, h2, hstart, hstop, hblock⟩ := h.body_le horder
  have h3 := h.closing_lt
  have hfilter := horder.filter
    fun l => decide (l.line.start ≥ fm.body.start) && decide (l.line.stop ≤ fm.body.stop)
  have hfields := laid_fieldBlocks (inOrder_raise (n := fm.body.start) hfilter ?_) h2 ?_
  · refine .singleton rfl rfl h.block_start hblock (by omega) ?_ ?_ rfl
    · exact hfields.weaken h1 h3.le
    · exact Block.innerFits_of_boundaries (Block.not_overhangs nofun nofun) rfl rfl hstart hstop h1
        h2 h3.le
  · intro l hl
    have := List.mem_filter.mp (List.mem_of_mem_head? hl)
    simp only [Bool.and_eq_true, decide_eq_true_eq] at this
    exact this.2.1
  · intro l hl
    have := List.mem_filter.mp hl
    simp only [Bool.and_eq_true, decide_eq_true_eq] at this
    exact this.2.2

/-- The blocks of a document are laid out over it. -/
theorem laid_forest (source : List Char) (strict : Bool) :
    Block.Laid source 0 (byteSize source)
      (forest source strict (LineFacts.ofText strict source)) := by
  have horder := inOrder_ofText strict source
  unfold forest
  split
  · exact laid_blocksOf strict horder fun l hl => stop_le_byteSize horder hl
  · next fm hfm =>
    obtain ⟨first, body, closing, after, hlines, h⟩ := exists_frontMatter_lines strict hfm
    have hmetadata := laid_metadataBlock h hlines horder
    have hmain : InOrder source fm.block.stop ((LineFacts.ofText strict source).dropWhile
        fun l => l.line.start < fm.block.stop) := inOrder_main horder
    have hblocks := laid_blocksOf strict hmain fun l hl => stop_le_byteSize hmain hl
    rw [hlines] at horder
    have hstop := (h.body_le horder).2.2.2.2.le
    exact (hmetadata.weaken (Nat.zero_le _) (Nat.le_refl _)).append hblocks (Nat.zero_le _) hstop

/-- Every line of a document that is not blank lies within a block. -/
theorem covered_forest (source : List Char) (strict : Bool) {u : LineFacts}
    (hu : u ∈ LineFacts.ofText strict source) (hink : u.isBlank = false) :
    Covered (forest source strict (LineFacts.ofText strict source)) ⟨u.start, u.stop⟩ := by
  have horder := inOrder_ofText strict source
  unfold forest
  split
  · exact covered_blocksOf strict horder hu hink
  · next fm hfm =>
    obtain ⟨first, body, closing, after, hlines, h⟩ := exists_frontMatter_lines strict hfm
    have hmain : InOrder source fm.block.stop ((LineFacts.ofText strict source).dropWhile
        fun l => l.line.start < fm.block.stop) := inOrder_main horder
    rw [← List.takeWhile_append_dropWhile (p := fun l : LineFacts => l.line.start < fm.block.stop)
      (l := LineFacts.ofText strict source)] at hu
    rcases List.mem_append.mp hu with hfront | hrest
    · have hlt : u.line.start < fm.block.stop := by simpa using List.mem_takeWhile_imp hfront
      have hmem := (List.takeWhile_prefix _).subset hfront
      rw [hlines] at horder hmem
      exact ⟨_, List.mem_cons_self, Span.contains_iff.mpr (h.contains_line horder hmem hlt)⟩
    · exact (covered_blocksOf strict hmain hrest hink).right [_]

/-- Two paragraphs that follow one another have a blank line between them. -/
theorem separated_forest (source : List Char) (strict : Bool) :
    (forest source strict (LineFacts.ofText strict source)).IsChain
      (Separated (LineFacts.ofText strict source)) := by
  have horder := inOrder_ofText strict source
  unfold forest
  split
  · exact separated_blocksOf strict horder
  · next fm hfm =>
    have hmain : InOrder source fm.block.stop ((LineFacts.ofText strict source).dropWhile
        fun l => l.line.start < fm.block.stop) := inOrder_main horder
    have hchain := (separated_blocksOf strict hmain).imp fun _ _ h =>
      h.mono fun l hl => (List.dropWhile_suffix _).subset hl
    exact isChain_append_cons List.IsChain.nil hchain nofun

end ArticleAudit.Document
