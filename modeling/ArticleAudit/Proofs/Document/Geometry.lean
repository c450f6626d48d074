import ArticleAudit.Proofs.Block.Sections
import ArticleAudit.Proofs.Document.FrontMatter
import ArticleAudit.Proofs.Toc.Items
import Mathlib

/-!
# The geometry of a document

The blocks of a Markdown document fit their source at every depth: each text is the text of its
span, children lie within their parent, and siblings follow one another (`segment_markdown_fits`).
The blocks of a table of contents do too, except that a file may run past the item it belongs to;
the exact condition is `Toc.FileOverhangs` (`segment_toc_fits`).
-/

set_option autoImplicit false

namespace ArticleAudit.Document

open ArticleAudit.Text ArticleAudit.Markdown

variable {source : List Char} {fileName : String} {strict : Bool}

/-! ## Markdown -/

theorem segment_eq_of_markdown
    (h : Toc.isToc fileName (LineFacts.ofText strict source) = false) :
    segment fileName source strict = Block.assignRegions (byteSize source)
      (forest source strict (LineFacts.ofText strict source)) := by
  unfold segment
  simp only [h, Bool.false_eq_true, if_false]
  exact markdownBlocks_eq source strict _

theorem boundary_byteSize (source : List Char) : Boundary source (byteSize source) := by
  have h := (stands_self source).boundary_stop
  rwa [Nat.zero_add] at h

/-- The blocks of a Markdown document are placed at every depth. -/
theorem placed_segment (h : Toc.isToc fileName (LineFacts.ofText strict source) = false) :
    Block.Throughout (Block.Placed source) (segment fileName source strict) := by
  rw [segment_eq_of_markdown h]
  exact Block.placed_assignRegions (laid_forest source strict) (boundary_byteSize source)

theorem inDocumentOrder_segment (h : Toc.isToc fileName (LineFacts.ofText strict source) = false) :
    Block.InDocumentOrder (segment fileName source strict) := by
  rw [segment_eq_of_markdown h]
  exact Block.inDocumentOrder_assignRegions _ (laid_forest source strict).inOrder

/-- Every field is cut out of the source after each line of the front matter that is read. -/
theorem slice?_of_mem_foldl {p : LineFacts → Bool} {read left : List LineFacts}
    (hlines : (LineFacts.ofText strict source).filter p = read ++ left) {field : Block}
    (hfield : field ∈ read.foldl (addFieldLine source) []) :
    slice? source field.span = some field.text.toList := by
  have horder := (inOrder_ofText strict source).filter p
  rw [hlines] at horder
  obtain ⟨stop, -, hstate, -⟩ :=
    fieldState_foldl (fieldState_nil source 0 0) (Nat.le_refl 0) horder.left
  exact (hstate.laid.sound_of_mem (List.mem_reverse.mpr hfield)).text

/-- The blocks of a Markdown document are in order, and at every depth each one lies within the
source, has the text of its span, and has its children within it and in order. All spans that are
cut out of the source are on character boundaries: those of the blocks, their inner spans, and the
spans of the fields of the front matter while they take more lines. -/
theorem segment_markdown_fits (fileName : String) (source : List Char) (strict : Bool)
    (h : Toc.isToc fileName (LineFacts.ofText strict source) = false) :
    Block.InDocumentOrder (segment fileName source strict) ∧
      (∀ b ∈ Block.preorderAll (segment fileName source strict),
        b.span.start ≤ b.span.stop ∧ b.span.stop ≤ byteSize source ∧
          slice? source b.span = some b.text.toList ∧
          (∀ c ∈ b.children, b.span.contains c.span = true) ∧
          Block.InDocumentOrder b.children ∧
          ∀ s, b.content = some s ∨ b.target = some s → ∃ cs, slice? source s = some cs) ∧
      ∀ fm, frontMatter? source = some fm → ∀ read left,
        ((LineFacts.ofText strict source).filter fun l =>
          l.line.start ≥ fm.body.start && l.line.stop ≤ fm.body.stop) = read ++ left →
        ∀ field ∈ read.foldl (addFieldLine source) [],
          slice? source field.span = some field.text.toList := by
  refine ⟨inDocumentOrder_segment h, ?_, ?_⟩
  · intro b hb
    have hplaced := placed_segment h b hb
    refine ⟨hplaced.start_le_stop, hplaced.stop_le, hplaced.text, ?_, hplaced.inOrder, ?_⟩
    · intro c hc
      exact Span.contains_iff.mpr (hplaced.within c hc)
    · rintro s (hs | hs)
      · obtain ⟨cs, hcs, -⟩ := hplaced.content s hs
        exact ⟨cs, hcs⟩
      · exact (hplaced.target s hs).1
  · intro fm _ read left hlines field hfield
    exact slice?_of_mem_foldl hlines hfield

/-- A heading and a paragraph. -/
theorem segment_markdown_fits_heading :
    Toc.isToc "doc.md" (LineFacts.ofText false "# A\n\nb\n".toList) = false ∧
      (segment "doc.md" "# A\n\nb\n".toList false).map (·.span) = [⟨0, 3⟩, ⟨5, 6⟩] ∧
      Block.InDocumentOrder (segment "doc.md" "# A\n\nb\n".toList false) := by
  have hmarkdown : Toc.isToc "doc.md" (LineFacts.ofText false "# A\n\nb\n".toList) = false := by
    decide
  refine ⟨hmarkdown, ?_, (segment_markdown_fits "doc.md" _ false hmarkdown).1⟩
  rw [segment_eq_of_markdown hmarkdown]
  cbv

/-! ## Tables of contents -/

/-- The blocks of a table of contents are items that fit the source. -/
theorem itemsFit_segment (h : Toc.isToc fileName (LineFacts.ofText strict source) = true) :
    ∃ hi, Toc.ItemsFit source 0 hi (segment fileName source strict) := by
  unfold segment
  simp only [h, if_true]
  exact Toc.itemsFit_blocksOf (inOrder_ofText strict source)

/-- The blocks of a table of contents are in order, and at every depth each one lies within the
source, has the text of its span, and has its children in order from its start on. A child stops
within its item unless it is a file that overhangs. -/
theorem segment_toc_fits (fileName : String) (source : List Char) (strict : Bool)
    (h : Toc.isToc fileName (LineFacts.ofText strict source) = true) :
    Block.InDocumentOrder (segment fileName source strict) ∧
      ∀ b ∈ Block.preorderAll (segment fileName source strict),
        b.span.start ≤ b.span.stop ∧ b.span.stop ≤ byteSize source ∧
          slice? source b.span = some b.text.toList ∧
          (∀ c ∈ b.children, b.span.start ≤ c.span.start ∧
            (b.span.contains c.span = true ↔ ¬ Toc.FileOverhangs source b.span.stop c)) ∧
          Block.InDocumentOrder b.children := by
  obtain ⟨hi, hitems⟩ := itemsFit_segment h
  refine ⟨hitems.inOrder, ?_⟩
  intro b hb
  have hfits := hitems.fits b hb
  obtain ⟨hstands, hstop⟩ := slice?_eq_some_iff.mp hfits.text
  have hle := hstands.stop_le
  refine ⟨by omega, by omega, hfits.text, ?_, hfits.inOrder⟩
  intro c hc
  have hstart := hfits.starts c hc
  refine ⟨hstart, ?_⟩
  rw [Span.contains_iff, and_iff_right hstart]
  exact hfits.stops c hc

/-- An item with a file. -/
theorem segment_toc_fits_file :
    Toc.isToc "toc.yml" (LineFacts.ofText false "- name: A\n  href: a.md\n".toList) = true ∧
      (segment "toc.yml" "- name: A\n  href: a.md\n".toList false).map
        (fun b => (b.span, b.children.map (·.span))) = [(⟨0, 22⟩, [⟨18, 22⟩])] ∧
      Block.InDocumentOrder (segment "toc.yml" "- name: A\n  href: a.md\n".toList false) := by
  have htoc : Toc.isToc "toc.yml"
      (LineFacts.ofText false "- name: A\n  href: a.md\n".toList) = true := by
    decide
  refine ⟨htoc, ?_, (segment_toc_fits "toc.yml" _ false htoc).1⟩
  cbv

/-- A no-break space after the value is trimmed from the item and kept by the file. -/
theorem not_contains_file_noBreakSpace :
    Toc.isToc "toc.yml" (LineFacts.ofText false "- name: A\n  href: a.md\u00a0\n".toList) = true ∧
      ∃ b ∈ segment "toc.yml" "- name: A\n  href: a.md\u00a0\n".toList false,
        ∃ c ∈ b.children, b.span.contains c.span = false := by
  have hspans : (segment "toc.yml" "- name: A\n  href: a.md\u00a0\n".toList false).map
      (fun b => (b.span, b.children.map (·.span))) = [(⟨0, 22⟩, [⟨18, 24⟩])] := by
    cbv
  obtain ⟨b, hblocks, hb⟩ := List.map_eq_singleton_iff.mp hspans
  obtain ⟨hspan, hchildren⟩ := Prod.mk.inj hb
  obtain ⟨c, hcs, hc⟩ := List.map_eq_singleton_iff.mp hchildren
  refine ⟨by decide, b, ?_, c, ?_, ?_⟩
  · rw [hblocks]
    exact List.mem_singleton_self b
  · rw [hcs]
    exact List.mem_singleton_self c
  · rw [hspan, hc]
    rfl

end ArticleAudit.Document
