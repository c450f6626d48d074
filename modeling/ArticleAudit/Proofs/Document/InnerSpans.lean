import ArticleAudit.Proofs.Block.Flaws
import ArticleAudit.Proofs.Document.Geometry

/-!
# Content, targets and sections

The text of an inner span is looked up in the text of its block; where the span lies within the
block this is the text of the span in the document, and where it runs past the block there is none
(`Block.textAt?_eq`). So a block's content is the text of its content span unless the block
overhangs, and targets and sections always fit (`segment_inner_spans`). With what is known of spans
and texts this makes the search for flaws exact on documents: what overhangs is the only flaw
(`firstFlaw?_segment_markdown`, `firstFlaw?_segment_toc`).
-/

set_option autoImplicit false

namespace ArticleAudit.Block

open ArticleAudit.Text

variable {source : List Char} {b : Block} {s : Span} {t : List Char}

/-- A span that starts within a block has a text there exactly when it stops within it. -/
theorem textAt?_eq (hb : slice? source b.span = some b.text.toList)
    (hs : slice? source s = some t) (hstart : b.span.start ≤ s.start) :
    b.textAt? s = if s.stop ≤ b.span.stop then some (String.ofList t) else none := by
  obtain ⟨hblock, hblockStop⟩ := slice?_eq_some_iff.mp hb
  obtain ⟨hstands, hstop⟩ := slice?_eq_some_iff.mp hs
  have hle : b.span.start ≤ s.stop := by omega
  unfold textAt?
  rw [if_pos (by simp [hstart, hle])]
  split
  · next hwithin =>
    obtain ⟨before, after, htext, hbefore⟩ := hblock.exists_split hstands hstart (by omega)
    have hslice :
        slice? b.text.toList ⟨s.start - b.span.start, s.stop - b.span.start⟩ = some t := by
      refine slice?_eq_some_iff.mpr ⟨⟨before, after, htext, ?_⟩, ?_⟩
      · show byteSize before = s.start - b.span.start
        omega
      · show s.stop - b.span.start = s.start - b.span.start + byteSize t
        omega
    rw [hslice]
    rfl
  · next hbeyond =>
    rw [Option.map_eq_none_iff]
    cases hslice : slice? b.text.toList ⟨s.start - b.span.start, s.stop - b.span.start⟩ with
    | none => rfl
    | some cs =>
      obtain ⟨hcs, hsize⟩ := slice?_eq_some_iff.mp hslice
      have hend := hcs.stop_le
      simp only at hend hsize
      omega

/-- The content of a block is the text of its content span, unless the block overhangs. -/
theorem InnerFits.contentText_eq_iff (h : b.InnerFits source)
    (hb : slice? source b.span = some b.text.toList) (hs : b.content = some s)
    (ht : slice? source s = some t) :
    b.contentText = String.ofList t ↔ ¬ b.Overhangs source := by
  obtain ⟨cs, hcs, hstart, hstop, hother⟩ := h.content s hs
  obtain rfl : t = cs := Option.some.inj (ht.symm.trans hcs)
  unfold contentText
  rw [hs, Option.bind_some, textAt?_eq hb ht hstart]
  by_cases hover : b.Overhangs source
  · -- The lookup falls back to the text of the block.
    rw [if_neg (fun hle => hstop.mp hle hover), Option.getD_none]
    refine iff_of_false ?_ (not_not.mpr hover)
    intro heq
    refine hother hover ?_
    rw [heq, String.toList_ofList]
  · rw [if_pos (hstop.mpr hover), Option.getD_some]
    exact iff_of_true rfl hover

/-- The target of a block within it is the text of its target span. -/
theorem targetText?_eq (hb : slice? source b.span = some b.text.toList) (hs : b.target = some s)
    (ht : slice? source s = some t) (hwithin : b.span.contains s = true) :
    b.targetText? = some (String.ofList t) := by
  obtain ⟨hstart, hstop⟩ := Span.contains_iff.mp hwithin
  unfold targetText?
  rw [hs, Option.bind_some, textAt?_eq hb ht hstart, if_pos hstop]

end ArticleAudit.Block

namespace ArticleAudit.Document

open ArticleAudit.Text ArticleAudit.Markdown

/-- At every depth the content of a block is cut out of the source from the start of the block on;
it lies within the block, and is what `contentText` answers, exactly when the block does not
overhang. The target lies within the block and is what `targetText?` answers, and a section starts
with its block and ends within the document. -/
theorem segment_inner_spans (fileName : String) (source : List Char) (strict : Bool) :
    ∀ b ∈ Block.preorderAll (segment fileName source strict),
      (∀ s, b.content = some s → ∃ t, slice? source s = some t ∧ b.span.start ≤ s.start ∧
        (b.span.contains s = true ↔ ¬ b.Overhangs source) ∧
        (b.contentText = String.ofList t ↔ ¬ b.Overhangs source)) ∧
      (∀ s, b.target = some s → b.span.contains s = true ∧
        ∃ t, slice? source s = some t ∧ b.targetText? = some (String.ofList t)) ∧
      ∀ r, b.region = some r → r.start = b.span.start ∧ r.isValidFor (byteSize source) = true := by
  intro b hb
  cases htoc : Toc.isToc fileName (LineFacts.ofText strict source) with
  | true =>
    obtain ⟨hi, hitems⟩ := itemsFit_segment htoc
    have hfits := hitems.fits b hb
    refine ⟨?_, ?_, ?_⟩
    · intro s hs
      simp [hfits.content] at hs
    · intro s hs
      obtain rfl := hfits.target s hs
      have hself : b.span.contains b.span = true :=
        Span.contains_iff.mpr ⟨Nat.le_refl _, Nat.le_refl _⟩
      exact ⟨hself, _, hfits.text, Block.targetText?_eq hfits.text hs hfits.text hself⟩
    · intro r hr
      simp [hfits.region] at hr
  | false =>
    have hplaced := placed_segment htoc b hb
    refine ⟨?_, ?_, ?_⟩
    · intro s hs
      obtain ⟨t, ht, hstart, hstop, -⟩ := hplaced.content s hs
      refine ⟨t, ht, hstart, ?_, ?_⟩
      · rw [Span.contains_iff, and_iff_right hstart]
        exact hstop
      · exact hplaced.toInnerFits.contentText_eq_iff hplaced.text hs ht
    · intro s hs
      obtain ⟨⟨t, ht⟩, hwithin⟩ := hplaced.target s hs
      have hcontains := Span.contains_iff.mpr hwithin
      exact ⟨hcontains, t, ht, Block.targetText?_eq hplaced.text hs ht hcontains⟩
    · intro r hr
      obtain ⟨hstart, hstop, hboundary⟩ := hplaced.region r hr
      have hle := hplaced.start_le_stop
      exact ⟨hstart, Span.isValidFor_iff.mpr ⟨by omega, hboundary.le⟩⟩

/-- The title of a heading is its content, so it lies within the heading. -/
theorem segment_inner_spans_heading :
    ∃ b ∈ Block.preorderAll (segment "doc.md" "# A\n".toList false),
      b.content = some ⟨2, 3⟩ ∧ b.contentText = "A" ∧ b.span.contains ⟨2, 3⟩ = true := by
  have hmarkdown : Toc.isToc "doc.md" (LineFacts.ofText false "# A\n".toList) = false := by decide
  have hblocks : (segment "doc.md" "# A\n".toList false).map
      (fun b => (b.content, b.contentText)) = [(some ⟨2, 3⟩, "A")] := by
    rw [segment_eq_of_markdown hmarkdown]
    cbv
  obtain ⟨b, hsegment, hb⟩ := List.map_eq_singleton_iff.mp hblocks
  obtain ⟨hcontent, htext⟩ := Prod.mk.inj hb
  have hmem : b ∈ Block.preorderAll (segment "doc.md" "# A\n".toList false) := by
    rw [hsegment, Block.preorderAll_cons, Block.preorder_eq]
    exact List.mem_append_left _ List.mem_cons_self
  obtain ⟨t, ht, -, hcontains, hcontentText⟩ :=
    (segment_inner_spans "doc.md" "# A\n".toList false b hmem).1 ⟨2, 3⟩ hcontent
  obtain rfl : ['A'] = t := Option.some.inj ht
  exact ⟨b, hmem, hcontent, htext, hcontains.mpr (hcontentText.mp htext)⟩

/-- The title of a heading that is marks and blanks is placed after the blanks, past the heading. -/
theorem not_contains_content_emptyTitle :
    ∃ b ∈ segment "doc.md" "#   \n".toList false, ∃ s, b.content = some s ∧
      slice? "#   \n".toList s = some [] ∧ b.span.contains s = false ∧ b.contentText = "#" := by
  have hmarkdown : Toc.isToc "doc.md" (LineFacts.ofText false "#   \n".toList) = false := by
    decide
  have hblocks : (segment "doc.md" "#   \n".toList false).map
      (fun b => (b.span, b.content, b.contentText)) = [(⟨0, 1⟩, some ⟨4, 4⟩, "#")] := by
    rw [segment_eq_of_markdown hmarkdown]
    cbv
  obtain ⟨b, hsegment, hb⟩ := List.map_eq_singleton_iff.mp hblocks
  simp only [Prod.mk.injEq] at hb
  obtain ⟨hspan, hcontent, htext⟩ := hb
  refine ⟨b, ?_, ⟨4, 4⟩, hcontent, by decide, ?_, htext⟩
  · rw [hsegment]
    exact List.mem_singleton_self b
  · rw [hspan]
    rfl

/-! ## Flaws -/

/-- Blocks that are in order and stop within the source have no flaw exactly when none of them, at
any depth, breaks a rule. -/
theorem firstFlaw?_eq_none_iff_of_inDocumentOrder {source : List Char} {blocks : List Block}
    (horder : Block.InDocumentOrder blocks)
    (hstop : ∀ b ∈ blocks, b.span.stop ≤ byteSize source) :
    Block.firstFlaw? source blocks = none ↔ Block.Throughout (Block.Flawless source) blocks := by
  have hwithin : Block.Within 0 (byteSize source) blocks :=
    fun b hb => ⟨Nat.zero_le _, hstop b hb⟩
  rw [Block.firstFlaw?_eq_none_iff, and_iff_right hwithin, and_iff_right horder]

/-- A Markdown document has no flaw exactly when the content of none of its blocks overhangs. -/
theorem firstFlaw?_segment_markdown {fileName : String} {source : List Char} {strict : Bool}
    (h : Toc.isToc fileName (LineFacts.ofText strict source) = false) :
    Block.firstFlaw? source (segment fileName source strict) = none ↔
      ∀ b ∈ Block.preorderAll (segment fileName source strict), b.content.isSome = true →
        ¬ b.Overhangs source := by
  have hplaced := placed_segment h
  rw [firstFlaw?_eq_none_iff_of_inDocumentOrder (inDocumentOrder_segment h)
    fun b hb => (hplaced.of_mem hb).1.stop_le]
  exact forall₂_congr fun b hb => (hplaced b hb).flawless_iff

/-- A table of contents has no flaw exactly when none of its files overhangs. -/
theorem firstFlaw?_segment_toc {fileName : String} {source : List Char} {strict : Bool}
    (h : Toc.isToc fileName (LineFacts.ofText strict source) = true) :
    Block.firstFlaw? source (segment fileName source strict) = none ↔
      ∀ b ∈ Block.preorderAll (segment fileName source strict), ∀ c ∈ b.children,
        ¬ Toc.FileOverhangs source b.span.stop c := by
  obtain ⟨hi, hitems⟩ := itemsFit_segment h
  rw [firstFlaw?_eq_none_iff_of_inDocumentOrder hitems.inOrder fun b hb =>
    (Span.isValidFor_iff.mp (isValidFor_of_slice? (hitems.fits.of_mem hb).1.text)).2]
  refine forall₂_congr fun b hb => ?_
  have hfits := hitems.fits b hb
  constructor
  · intro hflawless c hc
    exact (hfits.stops c hc).mp (hflawless.within c hc).2
  · intro hfiles
    refine ⟨⟨hfits.text, fun c hc => ⟨hfits.starts c hc, (hfits.stops c hc).mpr (hfiles c hc)⟩,
      hfits.inOrder⟩, ?_, ?_⟩
    · rintro s (hs | hs)
      · simp [hfits.content] at hs
      · rw [hfits.target s hs]
        exact Span.contains_self _
    · simp [hfits.region]

end ArticleAudit.Document
