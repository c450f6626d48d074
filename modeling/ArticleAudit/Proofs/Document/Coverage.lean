import ArticleAudit.Proofs.Document.Geometry

/-!
# No text is lost

Every character that is not blank lies on a line that is covered by a top-level block, and since the
blocks are in order it lies in no other one; sections change neither. Main statement:
`segment_markdown_covers`.
-/

set_option autoImplicit false

namespace ArticleAudit.Block

open ArticleAudit.Text

/-- Blocks in order do not share a span that is not empty. -/
theorem InDocumentOrder.countP_contains_le_one {blocks : List Block} (h : InDocumentOrder blocks)
    {s : Span} (hs : s.start < s.stop) : blocks.countP (fun b => b.span.contains s) ≤ 1 := by
  induction blocks with
  | nil => exact Nat.zero_le 1
  | cons b rest ih =>
    obtain ⟨hb, hrest⟩ := List.pairwise_cons.mp h
    cases hcontains : b.span.contains s with
    | false =>
      rw [List.countP_cons_of_neg (by simp [hcontains])]
      exact ih hrest
    | true =>
      -- The later blocks start where this one has stopped.
      have hnone : rest.countP (fun b => b.span.contains s) = 0 := by
        rw [List.countP_eq_zero]
        intro c hc hboth
        have horder := hb c hc
        obtain ⟨-, h1⟩ := Span.contains_iff.mp hcontains
        obtain ⟨h2, -⟩ := Span.contains_iff.mp hboth
        omega
      rw [List.countP_cons_of_pos (by simp [hcontains]), hnone]

end ArticleAudit.Block

namespace ArticleAudit.Document

open ArticleAudit.Text ArticleAudit.Markdown

variable {source : List Char} {fileName : String} {strict : Bool}

/-! ## Characters -/

theorem covered_segment (h : Toc.isToc fileName (LineFacts.ofText strict source) = false)
    {l : LineFacts} (hl : l ∈ LineFacts.ofText strict source) (hink : l.isBlank = false) :
    Covered (segment fileName source strict) ⟨l.start, l.stop⟩ := by
  obtain ⟨b, hb, hcontains⟩ := covered_forest source strict hl hink
  obtain ⟨b', hb', hsite⟩ := Block.exists_mem_assignRegions (byteSize source) hb
  have hspan : b'.span = b.span := (Prod.mk.inj hsite).2
  rw [segment_eq_of_markdown h]
  refine ⟨b', hb', ?_⟩
  rw [hspan]
  exact hcontains

/-- A character that is neither blank nor the byte order mark at the start lies in exactly one
block. -/
theorem countP_contains_char (h : Toc.isToc fileName (LineFacts.ofText strict source) = false)
    {before after : List Char} {c : Char} (hsource : source = before ++ c :: after)
    (hc : isBlank c = false) (hmark : ¬ (before = [] ∧ c = byteOrderMark)) :
    (segment fileName source strict).countP
      (fun b => b.span.contains ⟨byteSize before, byteSize before + c.utf8Size⟩) = 1 := by
  obtain ⟨l, hl, hink, hstart, hstop⟩ := exists_line_contains strict hsource hc hmark
  have hcovered : Covered (segment fileName source strict)
      ⟨byteSize before, byteSize before + c.utf8Size⟩ :=
    (covered_segment h hl hink).narrow hstart hstop
  obtain ⟨b, hb, hcontains⟩ := hcovered
  have hpos := c.utf8Size_pos
  refine Nat.le_antisymm ?_ ?_
  · exact (inDocumentOrder_segment h).countP_contains_le_one (Nat.lt_add_of_pos_right hpos)
  · exact List.one_le_countP_iff.mpr ⟨b, hb, hcontains⟩

/-! ## Paragraphs -/

/-- A blank line that is not the first one has nothing but blanks. -/
theorem all_isBlank_of_line {raw : Line}
    (hblank : (LineFacts.ofLine strict raw).isBlank = true) (hstart : 0 < raw.span.start) :
    raw.text.all isBlank = true := by
  obtain ⟨mark, ends, hparts, -, hmark, -, hends⟩ := exists_contentOf raw
  obtain rfl : mark = [] := hmark.resolve_right fun hmark => by omega
  rw [hparts, List.nil_append, List.all_append, Bool.and_eq_true]
  refine ⟨hblank, ?_⟩
  rw [List.all_eq_true]
  exact fun c hc => isBlank_of_isLineEnd (hends c hc)

/-- Two paragraphs that follow one another have a line of nothing but blanks between them. -/
theorem exists_blankLine (h : Toc.isToc fileName (LineFacts.ofText strict source) = false)
    {xs ys : List Block} {p q : Block}
    (hsegment : segment fileName source strict = xs ++ p :: q :: ys)
    (hp : p.kind = .paragraph) (hq : q.kind = .paragraph) :
    ∃ l ∈ linesOf source, l.text.all isBlank = true ∧ p.span.stop ≤ l.span.start ∧
      l.span.stop ≤ q.span.start := by
  have hsites : (forest source strict (LineFacts.ofText strict source)).map Block.site =
      xs.map Block.site ++ p.site :: q.site :: ys.map Block.site := by
    rw [← Block.map_assignRegions (byteSize source), ← segment_eq_of_markdown h, hsegment]
    simp
  obtain ⟨xs', rest, hforest, -, hrest⟩ := List.map_eq_append_iff.mp hsites
  obtain ⟨p', rest', rfl, hp', hrest'⟩ := List.map_eq_cons_iff.mp hrest
  obtain ⟨q', ys', rfl, hq', -⟩ := List.map_eq_cons_iff.mp hrest'
  have hchain := separated_forest source strict
  rw [hforest] at hchain
  obtain ⟨hpkind, hpspan⟩ := Prod.mk.inj hp'
  obtain ⟨hqkind, hqspan⟩ := Prod.mk.inj hq'
  obtain ⟨l, hl, hblank, hpos, hbefore, hafter⟩ :=
    (List.isChain_append_cons_cons.mp hchain).2.1 (hpkind.trans hp) (hqkind.trans hq)
  obtain ⟨raw, hraw, rfl⟩ := List.mem_map.mp hl
  rw [hpspan] at hbefore
  rw [hqspan] at hafter
  exact ⟨raw, hraw, all_isBlank_of_line hblank hpos, hbefore, hafter⟩

/-- No text is lost or claimed twice: a character that is neither blank nor a byte order mark at
the start of the document lies in exactly one top-level block; and two top-level paragraphs that
follow one another have a blank line between them. -/
theorem segment_markdown_covers (fileName : String) (source : List Char) (strict : Bool)
    (h : Toc.isToc fileName (LineFacts.ofText strict source) = false) :
    (∀ before c after, source = before ++ c :: after → isBlank c = false →
      ¬ (before = [] ∧ c = byteOrderMark) →
      (segment fileName source strict).countP
        (fun b => b.span.contains ⟨byteSize before, byteSize before + c.utf8Size⟩) = 1) ∧
      ∀ xs p q ys, segment fileName source strict = xs ++ p :: q :: ys →
        p.kind = .paragraph → q.kind = .paragraph →
        ∃ l ∈ linesOf source, l.text.all isBlank = true ∧ p.span.stop ≤ l.span.start ∧
          l.span.stop ≤ q.span.start :=
  ⟨fun _ _ _ hsource hc hmark => countP_contains_char h hsource hc hmark,
    fun _ _ _ _ hsegment hp hq => exists_blankLine h hsegment hp hq⟩

/-- The title of a heading before a paragraph. -/
theorem segment_markdown_covers_heading :
    Toc.isToc "doc.md" (LineFacts.ofText false "# A\n\nb\n".toList) = false ∧
      (segment "doc.md" "# A\n\nb\n".toList false).countP (fun b => b.span.contains ⟨2, 3⟩) =
        1 := by
  have hmarkdown : Toc.isToc "doc.md" (LineFacts.ofText false "# A\n\nb\n".toList) = false := by
    decide
  exact ⟨hmarkdown, (segment_markdown_covers "doc.md" _ false hmarkdown).1 ['#', ' '] 'A'
    ['\n', '\n', 'b', '\n'] rfl rfl (by decide)⟩

end ArticleAudit.Document
