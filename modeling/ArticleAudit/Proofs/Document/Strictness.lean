import ArticleAudit.Proofs.Document.Geometry
import ArticleAudit.Proofs.Markdown.Strictness
import ArticleAudit.Proofs.Markdown.Unheaded
import ArticleAudit.Proofs.Toc.Mapping

/-!
# Strictness of a document

Whether a document is a table of contents, and its blocks if it is one, do not depend on which lines
are headings (`Toc.isToc_unheaded`, `Toc.blocksOf_unheaded`), so not on strictness; neither does
front matter. In the other documents strictness only demotes (`segment_strict`).
-/

set_option autoImplicit false

namespace ArticleAudit.Toc

open ArticleAudit.Text ArticleAudit.Markdown

theorem isToc_unheaded (fileName : String) (lines : List LineFacts) :
    isToc fileName (unheaded lines) = isToc fileName lines :=
  isToc_map (g := LineFacts.unheaded) (fun _ => rfl) (fun _ => rfl) fileName lines

/-- Items do not look at headings. -/
theorem mapsItems_unheaded (source : List Char) :
    MapsItems source source (fun _ => True) LineFacts.unheaded id id where
  isBlank _ := rfl
  indent _ := rfl
  comment _ := rfl
  item _ := rfl
  first _ _ := rfl
  line _ _ := rfl
  empty := rfl
  append _ _ := rfl
  items items := congrArg Parts.ofItems (List.map_id items)
  block _ _ _ _ := rfl

/-- The blocks of a table of contents do not depend on headings. -/
theorem blocksOf_unheaded (source : List Char) (lines : List LineFacts) :
    blocksOf source (unheaded lines) = blocksOf source lines :=
  ((mapsItems_unheaded source).blocksOf fun _ _ => trivial).trans (List.map_id _)

end ArticleAudit.Toc

namespace ArticleAudit.Document

open ArticleAudit.Text ArticleAudit.Markdown

/-! ## Front matter -/

/-- The fields of the front matter do not depend on headings. -/
theorem fieldBlocks_unheaded (source : List Char) (lines : List LineFacts) :
    fieldBlocks source (unheaded lines) = fieldBlocks source lines := by
  unfold fieldBlocks unheaded
  rw [List.foldl_map]
  rfl

theorem metadataBlock_unheaded (source : List Char) (lines : List LineFacts) (fm : FrontMatter) :
    metadataBlock source (unheaded lines) fm = metadataBlock source lines fm := by
  unfold metadataBlock
  simp only
  rw [← fieldBlocks_unheaded source (lines.filter _)]
  unfold unheaded
  rw [List.filter_map]
  rfl

/-- The block of the front matter is the same in both readings. -/
theorem metadataBlock_describe (source : List Char) (fm : FrontMatter) :
    metadataBlock source (LineFacts.ofText true source) fm =
      metadataBlock source (LineFacts.ofText false source) fm := by
  rw [← metadataBlock_unheaded, ← metadataBlock_unheaded source (LineFacts.ofText false source)]
  exact congrArg (metadataBlock source · fm) (unheaded_describe (linesOf source))

/-- The lines after the front matter are the same in both readings. -/
theorem exists_mainLines (source : List Char) :
    ∃ raw, ∀ strict, mainLines source strict = describe strict raw := by
  unfold mainLines
  cases frontMatter? source with
  | none => exact ⟨linesOf source, fun _ => rfl⟩
  | some fm =>
    obtain ⟨_, later, -, hlines⟩ := exists_run
      (p := fun l => decide (l.line.start < fm.block.stop)) (fun _ => rfl) (linesOf source)
    exact ⟨later, fun strict => (hlines strict).2⟩

/-- The strict forest of a Markdown document demotes the lenient one. -/
theorem demotes_forest (source : List Char) :
    Block.Demotes (forest source true (LineFacts.ofText true source))
      (forest source false (LineFacts.ofText false source)) := by
  obtain ⟨raw, hraw⟩ := exists_mainLines source
  obtain ⟨front, hfront⟩ := mainLines_suffix source true
  have horder := inOrder_ofText true source
  rw [← hfront, hraw] at horder
  obtain ⟨lo, -, -, hmain⟩ := horder.right
  rw [forest_eq, forest_eq, hraw, hraw]
  refine .append ?_ (demotes_blocksOf hmain)
  cases frontMatter? source with
  | none => exact .nil
  | some fm =>
    show Block.Demotes [metadataBlock source _ fm] [metadataBlock source _ fm]
    rw [metadataBlock_describe]
    exact .same rfl

/-! ## Documents -/

theorem isToc_describe (fileName : String) (source : List Char) :
    Toc.isToc fileName (LineFacts.ofText true source) =
      Toc.isToc fileName (LineFacts.ofText false source) := by
  rw [← Toc.isToc_unheaded, ← Toc.isToc_unheaded fileName (LineFacts.ofText false source)]
  exact congrArg (Toc.isToc fileName) (unheaded_describe (linesOf source))

theorem toc_blocksOf_describe (source : List Char) :
    Toc.blocksOf source (LineFacts.ofText true source) =
      Toc.blocksOf source (LineFacts.ofText false source) := by
  rw [← Toc.blocksOf_unheaded, ← Toc.blocksOf_unheaded source (LineFacts.ofText false source)]
  exact congrArg (Toc.blocksOf source) (unheaded_describe (linesOf source))

/-- Whether a document is a table of contents does not depend on strictness. If it is one, neither
do its blocks. Otherwise strictness only demotes: front matter, fenced code, alerts and lists stay
as they are, the strict headings and tabs are some of the lenient ones, zones correspond and compare
in the same way inside, a strict table is the end of a lenient one, and a lenient paragraph lies in
a strict one. -/
theorem segment_strict (fileName : String) (source : List Char) :
    Toc.isToc fileName (LineFacts.ofText true source) =
        Toc.isToc fileName (LineFacts.ofText false source) ∧
      if Toc.isToc fileName (LineFacts.ofText true source) = true then
        segment fileName source true = segment fileName source false
      else Block.Demotes (segment fileName source true) (segment fileName source false) := by
  have htoc := isToc_describe fileName source
  refine ⟨htoc, ?_⟩
  cases h : Toc.isToc fileName (LineFacts.ofText true source) with
  | true =>
    rw [if_pos rfl]
    simp only [segment, h, ← htoc, if_true]
    exact toc_blocksOf_describe source
  | false =>
    rw [if_neg (by decide), segment_eq_of_markdown h, segment_eq_of_markdown (htoc.symm.trans h)]
    exact (demotes_forest source).assignRegions _ _

end ArticleAudit.Document
