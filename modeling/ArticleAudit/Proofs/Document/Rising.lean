import ArticleAudit.Proofs.Document.Geometry
import ArticleAudit.Proofs.Markdown.Rising
import ArticleAudit.Proofs.Toc.Listing

/-!
# The blocks of a document rise

The marks of a document's blocks rise strictly in pre-order, in a Markdown document and in a table
of contents (`rises_segment`): of two blocks of one kind the one that is met first starts first, and
so does of two targets. In a table of contents items start on lines of their own, and a file starts
where its target does, on the line of its item or on a later one (`Toc.rises_blocksOf`).
-/

set_option autoImplicit false

namespace ArticleAudit.Toc

open ArticleAudit.Text ArticleAudit.Markdown ArticleAudit.Block

variable {source : List Char}

/-- What a property on a line says of files rises on the line. -/
theorem rises_ofProperty {l : LineFacts} {offset : Nat} (hl : l.Sound source)
    (hblank : l.isBlank = false) (hoffset : l.indentBytes ≤ offset) :
    Rises l.start l.line.stop (Parts.ofProperty (property? source l offset)).children := by
  cases hproperty : property? source l offset with
  | none => exact .nil _ _
  | some property =>
    cases property with
    | name name => exact .nil _ _
    | items => exact .nil _ _
    | file span target =>
      have hfile := fileOn_of_property? hl hblank hoffset hproperty
      obtain ⟨-, -, -, -, -, -, hempty, -⟩ := exists_field_of_property? hproperty
      have hlt : span.start < span.stop := by
        have : span.stop - span.start ≠ 0 := by simpa [Span.isEmpty, Span.length] using hempty
        omega
      have hstart : l.start ≤ span.start := hfile.start
      have hstop : span.stop ≤ l.line.stop := hfile.stop
      have hmarks : marksOf (Parts.ofProperty (some (.file span target))).children =
          [3 * span.start + 1, 3 * span.start + 2] := by
        simp [Parts.ofProperty, marksOf_singleton, marks, key, BlockKind.rank, Block.leaf,
          Block.withTag, Block.withTarget]
      rw [Rises, hmarks]
      exact .cons (by omega) (by omega) (.cons (by omega) (by omega) (.nil _ _))

theorem rises_firstProperty {l : LineFacts} (hl : l.Sound source) (hblank : l.isBlank = false) :
    Rises l.start l.line.stop (firstProperty source l).children := by
  unfold firstProperty
  cases hmarker : l.marker with
  | some marker => exact rises_ofProperty hl hblank (indentBytes_le_contentOffset hl hmarker)
  | none => exact .nil _ _

theorem rank_itemKind (depth : Nat) (hasItems : Bool) : (itemKind depth hasItems).rank = 0 := by
  unfold itemKind
  split <;> rfl

/-- An item around what its lines say. -/
theorem rises_itemBlock {hi : Nat} {l : LineFacts} {inner : Parts} (depth : Nat)
    (hl : l.Sound source) (hblank : l.isBlank = false)
    (hinner : Rises l.line.stop hi inner.children)
    (hhi : l.line.stop ≤ hi) :
    Rises l.start hi [itemBlock source depth l ((firstProperty source l).append inner)] := by
  have hlt := (hl.start_lt_stop hblank).trans_le hl.stop_le_line_stop
  have hfirst := (rises_firstProperty hl hblank).above_of_rank 1 (by
    intro c hc
    rw [(firstProperty_children source l c hc).1]
    exact Nat.le_refl 1)
  obtain ⟨hstart, -, hchildren, hkind⟩ :=
    itemBlock_fields source depth l ((firstProperty source l).append inner)
  refine .around ?_ hstart.ge ?_ ?_
  · unfold itemBlock
    split <;> rfl
  · rw [hstart]
    exact hlt.trans_le hhi
  · rw [key, hstart, hkind, rank_itemKind, hchildren]
    show Rising _ _ (marksOf ((firstProperty source l).children ++ inner.children))
    rw [marksOf_append]
    exact (hfirst.weaken (Nat.le_refl _) (Nat.mul_le_mul_left 3 hhi)).append hfirst hinner
      (by omega)

/-- Items whose marks rise are a layout. -/
theorem itemLayout_rises (source : List Char) :
    ItemLayout source Rises fun lo hi parts => Rises lo hi parts.children where
  nil := .nil
  weaken h := h.weaken
  append h := h.append
  item depth hl hblank := rises_itemBlock depth hl hblank
  noParts := .nil
  partsWeaken h hlo := h.weaken hlo (Nat.le_refl _)
  partsAppend h := h.append
  ofItems := by
    intro lo hi items h
    rw [Parts.ofItems_children]
    exact h
  property := by
    intro l hl hblank
    exact rises_ofProperty hl hblank (Nat.le_refl l.indentBytes)

/-- The marks of a table of contents rise. -/
theorem rises_blocksOf {lo : Nat} {lines : List LineFacts} (h : InOrder source lo lines) :
    ∃ hi, Rises lo hi (blocksOf source lines) :=
  (itemLayout_rises source).blocksOf h

end ArticleAudit.Toc

namespace ArticleAudit.Document

open ArticleAudit.Block ArticleAudit.Text ArticleAudit.Markdown

variable {source : List Char}

/-- A field is not empty: its first line is not blank, and more lines only move its end. -/
theorem rises_of_mem_fieldBlocks {lo : Nat} {lines : List LineFacts}
    (horder : InOrder source lo lines) :
    ∀ b ∈ fieldBlocks source lines, b.kind = .metadataField ∧ b.span.start < b.span.stop ∧
      Rises b.span.start b.span.stop [b] := by
  have hfields : ∀ b ∈ fieldBlocks source lines, b.kind = .metadataField ∧
      b.span.start < b.span.stop ∧ b.children = [] ∧ b.target = none := by
    apply forall_mem_fieldBlocks
    · intro l hl b hblank hb
      have hsound := horder.sound_of_mem hl
      obtain ⟨hon, -⟩ := fieldBlock?_spec hsound hblank hb
      have hlt := hsound.start_lt_stop hblank
      have hstop := hon.stop
      exact ⟨hon.kind, by rw [hon.start]; omega, hon.children, hon.target⟩
    · rintro l b ⟨hkind, hlt, hchildren, htarget⟩
      exact ⟨hkind, hlt.trans_le (Nat.le_max_right _ _), hchildren, htarget⟩
  intro b hb
  obtain ⟨hkind, hlt, hchildren, htarget⟩ := hfields b hb
  refine ⟨hkind, hlt, .around htarget (Nat.le_refl _) hlt ?_⟩
  rw [hchildren, marksOf_nil]
  exact .nil _ _

/-- The front matter around its fields. -/
theorem rises_metadataBlock {fm : FrontMatter} {first closing : LineFacts}
    {body after lines : List LineFacts} (h : Delimits source fm first closing)
    (hlines : lines = first :: (body ++ closing :: after)) (horder : InOrder source 0 lines) :
    Rises fm.block.start fm.block.stop [metadataBlock source lines fm] := by
  have hlaid := (laid_metadataBlock h hlines horder).children
  have hlt : fm.block.start < fm.block.stop := by
    rw [hlines] at horder
    obtain ⟨h1, h2, -⟩ := h.body_le horder
    have h3 := h.closing_lt
    omega
  have hfields := rises_of_mem_fieldBlocks (horder.filter
    fun l => decide (l.line.start ≥ fm.body.start) && decide (l.line.stop ≤ fm.body.stop))
  refine .around rfl (Nat.le_refl _) hlt ?_
  refine (Rises.ofLaid hlaid fun b hb => (hfields b hb).2).above_of_rank 1 ?_
  intro b hb
  rw [(hfields b hb).1]
  exact Nat.le_refl 1

theorem rises_forest (source : List Char) (strict : Bool) :
    Rises 0 (byteSize source) (forest source strict (LineFacts.ofText strict source)) := by
  have horder := inOrder_ofText strict source
  unfold forest
  split
  · exact Markdown.rises_blocksOf strict horder fun l hl => stop_le_byteSize horder hl
  · next fm hfm =>
    obtain ⟨first, body, closing, after, hlines, h⟩ := exists_frontMatter_lines strict hfm
    have hmetadata := rises_metadataBlock h hlines horder
    have hmain : InOrder source fm.block.stop ((LineFacts.ofText strict source).dropWhile
        fun l => l.line.start < fm.block.stop) := inOrder_main horder
    have hblocks := Markdown.rises_blocksOf strict hmain fun l hl => stop_le_byteSize hmain hl
    rw [hlines] at horder
    have hstop := (h.body_le horder).2.2.2.2.le
    exact (hmetadata.weaken (Nat.zero_le _) (Nat.le_refl _)).append hblocks (Nat.zero_le _) hstop

/-- The marks of a document rise. -/
theorem rises_segment (fileName : String) (source : List Char) (strict : Bool) :
    ∃ hi, Rises 0 hi (segment fileName source strict) := by
  cases htoc : Toc.isToc fileName (LineFacts.ofText strict source) with
  | false =>
    refine ⟨byteSize source, ?_⟩
    rw [segment_eq_of_markdown htoc, Rises, marksOf_assignRegions]
    exact rises_forest source strict
  | true =>
    unfold segment
    simp only [htoc, if_true]
    exact Toc.rises_blocksOf (inOrder_ofText strict source)

end ArticleAudit.Document
