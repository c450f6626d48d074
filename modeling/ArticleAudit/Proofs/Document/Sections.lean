import ArticleAudit.Proofs.Block.SectionFamily
import ArticleAudit.Proofs.Document.Geometry
import ArticleAudit.Proofs.Document.Zones
import ArticleAudit.Proofs.Markdown.Leaves
import ArticleAudit.Proofs.Toc.Listing

/-!
# The sections of a document

Headings and zones are built among lines only, and lines are read in documents and zones only:
lists, items and the blocks of single runs of lines hold neither (`Builds.lodged`).

So exactly the headings of a document have a section. Among siblings the sections form a laminar
family, and each of them ends where the next heading of the same or a smaller level starts, or with
the zone or the document around them (`segment_sections`).
-/

set_option autoImplicit false

namespace ArticleAudit.Markdown

open ArticleAudit.Block

variable {source : List Char} {strict : Bool}

/-! ## Where headings stand -/

theorem sectionless_of_part {b : Block} (h : Part b) : Sectionless b := by
  refine ⟨?_, ?_⟩ <;>
  · intro hkind
    rw [Part, hkind] at h
    cases h

/-- A block that is no heading or zone, around blocks that are none either. -/
theorem sectionless_singleton {b : Block} (h : Sectionless b)
    (hchildren : Throughout Sectionless b.children) : Throughout Sectionless [b] :=
  throughout_cons.mpr ⟨h, hchildren, throughout_nil⟩

theorem lodged_paragraph (pending : Option Text.Span) :
    Throughout Lodged (paragraph source pending) := by
  apply lodged_of_sectionless
  apply throughout_of_mem
  intro b hb
  obtain ⟨hkind, hparts⟩ := parts_paragraph hb
  refine ⟨⟨?_, ?_⟩, hparts.mono fun _ => sectionless_of_part⟩ <;>
  · rw [hkind]
    nofun

/-- A block of lines that hold no blocks. -/
theorem lodged_leaf {opener : Opener} {l : LineFacts} {lines : List LineFacts}
    {taken : Taken lines} (h : leafBlock? source opener l lines = some taken) :
    Throughout Lodged [taken.block] := by
  have hparts := (parts_leaf h).2.mono fun _ => sectionless_of_part
  exact throughout_cons.mpr ⟨fun _ => hparts, lodged_of_sectionless hparts, throughout_nil⟩

theorem sectionless_listKind (marker : ListMarker) :
    listKind marker ≠ .header ∧ listKind marker ≠ .zonePivot := by
  unfold listKind
  split
  · exact ⟨nofun, nofun⟩
  · exact ⟨nofun, nofun⟩

/-- What holds of the blocks of a stage: among lines headings and zones are lodged in zones, and a
list has none. -/
def Stage.Lodges (blocks : List Block) : Stage → Prop
  | .lines _ | .opener _ _ => Throughout Lodged blocks
  | .list _ _ _ | .items _ _ | .item _ _ _ | .inner _ _ => Throughout Sectionless blocks

/-- Built blocks hold headings and zones in zones only. -/
theorem Builds.lodged {stage : Stage} {used rest : List LineFacts} {blocks : List Block}
    (h : Builds source strict stage used rest blocks) : stage.Lodges blocks := by
  induction h with
  | finish pending => exact lodged_paragraph pending
  | @blank pending _ _ _ _ _ ih => exact throughout_append.mpr ⟨lodged_paragraph pending, ih⟩
  | @opened pending _ _ _ _ _ _ _ _ _ _ ihblock ihblocks =>
    exact throughout_append.mpr
      ⟨lodged_paragraph pending, throughout_append.mpr ⟨ihblock, ihblocks⟩⟩
  | text _ _ _ ih => exact ih
  | leaf hleaf _ => exact lodged_leaf hleaf
  | zone _ ih => exact throughout_cons.mpr ⟨fun hzone => absurd rfl hzone, ih, throughout_nil⟩
  | openedList _ ih => exact lodged_of_sectionless ih
  | @list _ marker _ _ _ _ _ _ _ _ ihitem ihitems =>
    exact sectionless_singleton (sectionless_listKind marker)
      (throughout_append.mpr ⟨ihitem, ihitems⟩)
  | noItem => exact throughout_nil
  | blankItems _ _ ih => exact ih
  | nextItem _ _ _ _ ihitem ihitems => exact throughout_append.mpr ⟨ihitem, ihitems⟩
  | item _ ih =>
    exact sectionless_singleton ⟨nofun, nofun⟩ (throughout_append.mpr
      ⟨(part_linkBlocks _ _).mono fun _ => sectionless_of_part, ih⟩)
  | noInner => exact throughout_nil
  | blankInner _ _ ih => exact ih
  | innerList _ _ _ _ _ ihlist ih => exact throughout_append.mpr ⟨ihlist, ih⟩
  | @innerFence _ _ f l _ more rest fence blocks _ _ _ _ hfence _ _ ih =>
    -- A fence in an item is built by the same rule as one among lines.
    suffices hblock : Throughout Sectionless [fence] from throughout_append.mpr ⟨hblock, ih⟩
    generalize more ++ rest = left at hfence
    cases hfence with
    | leaf hleaf _ =>
      obtain rfl := Option.some.inj hleaf
      obtain ⟨hkind, hparts⟩ := parts_fenceBlock source l f _
      refine sectionless_singleton ⟨?_, ?_⟩ (hparts.mono fun _ => sectionless_of_part) <;>
      · rw [hkind]
        nofun
  | @innerRow _ _ l _ _ _ _ _ _ _ _ ih =>
    have hrow : Throughout Sectionless [listRow source l] := sectionless_singleton ⟨nofun, nofun⟩
      ((part_linkBlocks _ _).mono fun _ => sectionless_of_part)
    exact throughout_append.mpr ⟨hrow, ih⟩

/-- The blocks of lines hold headings and zones in zones only. -/
theorem lodged_blocksOf (source : List Char) (strict : Bool) (lines : List LineFacts) :
    Throughout Lodged (blocksOf source strict lines) :=
  (builds_blocksOf source strict lines).lodged

end ArticleAudit.Markdown

namespace ArticleAudit.Toc

open ArticleAudit.Markdown

/-! ## Tables of contents -/

/-- An item or a file. -/
def TocBlock (b : Block) : Prop :=
  isTocKind b.kind = true ∨ b.kind = .fileName

/-- Parts of an item whose children are items and files. -/
theorem tocBlock_itemBlock {depth : Nat} (source : List Char) (l : LineFacts) {parts : Parts}
    (h : Block.Throughout TocBlock parts.children) :
    Block.Throughout TocBlock [itemBlock source depth l parts] := by
  obtain ⟨-, -, hchildren, hkind⟩ := itemBlock_fields source depth l parts
  refine Block.throughout_cons.mpr ⟨Or.inl ?_, ?_, Block.throughout_nil⟩
  · rw [hkind]
    exact isTocKind_itemKind _ _
  · rw [hchildren]
    exact h

theorem tocBlock_files {files : List Block}
    (h : ∀ c ∈ files, c.kind = .fileName ∧ c.children = []) :
    Block.Throughout TocBlock files := by
  apply Block.throughout_of_mem
  intro c hc
  obtain ⟨hkind, hchildren⟩ := h c hc
  rw [hchildren]
  exact ⟨Or.inr hkind, Block.throughout_nil⟩

/-- Only items and files are read of lines. -/
theorem itemLayout_tocBlock (source : List Char) :
    ItemLayout source (fun _ _ items => Block.Throughout TocBlock items)
      fun _ _ parts => Block.Throughout TocBlock parts.children where
  nil _ _ := Block.throughout_nil
  weaken h _ _ := h
  append h hmore _ _ := Block.throughout_append.mpr ⟨h, hmore⟩
  item := by
    intro hi l inner depth _ _ hinner _
    exact tocBlock_itemBlock source l (Block.throughout_append.mpr
      ⟨tocBlock_files (firstProperty_children source l), hinner⟩)
  noParts _ _ := Block.throughout_nil
  partsWeaken h _ := h
  partsAppend h hlater _ _ := Block.throughout_append.mpr ⟨h, hlater⟩
  ofItems := by
    intro lo hi items h
    rw [Parts.ofItems_children]
    exact h
  property _ _ := tocBlock_files (Parts.ofProperty_children _)

theorem tocBlock_blocksOf {source : List Char} {lo : Nat} {lines : List LineFacts}
    (h : InOrder source lo lines) : Block.Throughout TocBlock (blocksOf source lines) := by
  obtain ⟨_, hblocks⟩ := (itemLayout_tocBlock source).blocksOf h
  exact hblocks

theorem sectionless_of_tocBlock {b : Block} (h : TocBlock b) : b.Sectionless := by
  refine ⟨?_, ?_⟩ <;>
  · intro hkind
    rw [TocBlock, hkind] at h
    exact absurd h (by decide)

end ArticleAudit.Toc

namespace ArticleAudit.Document

open ArticleAudit.Block ArticleAudit.Text ArticleAudit.Markdown

variable {source : List Char} {fileName : String} {strict : Bool}

/-! ## Documents -/

/-- The front matter holds no headings. -/
theorem lodged_forest (source : List Char) (strict : Bool) :
    Throughout Lodged (forest source strict (LineFacts.ofText strict source)) := by
  rw [forest_eq]
  refine throughout_append.mpr ⟨?_, lodged_blocksOf source strict _⟩
  cases frontMatter? source with
  | none => exact throughout_nil
  | some fm =>
    apply lodged_of_sectionless
    refine throughout_cons.mpr ⟨⟨nofun, nofun⟩, throughout_of_mem ?_, throughout_nil⟩
    intro b hb
    obtain ⟨hkind, hchildren⟩ := isField_of_mem_fieldBlocks hb
    rw [Sectionless, hkind, hchildren]
    exact ⟨⟨nofun, nofun⟩, throughout_nil⟩

/-- A table of contents has items and files only. -/
theorem tocBlock_segment (h : Toc.isToc fileName (LineFacts.ofText strict source) = true) :
    Throughout Toc.TocBlock (segment fileName source strict) := by
  unfold segment
  simp only [h, if_true]
  exact Toc.tocBlock_blocksOf (inOrder_ofText strict source)

/-- The blocks of a document, with the sections of its siblings and at every depth. -/
theorem wellSectioned_segment (fileName : String) (source : List Char) (strict : Bool) :
    Sectioned (byteSize source) (segment fileName source strict) ∧
      Throughout WellSectioned (segment fileName source strict) := by
  cases htoc : Toc.isToc fileName (LineFacts.ofText strict source) with
  | false =>
    have hlaid := laid_forest source strict
    rw [segment_eq_of_markdown htoc]
    exact ⟨sectioned_assignRegions hlaid.ordered,
      wellSectioned_assignRegions hlaid (lodged_forest source strict)⟩
  | true =>
    -- A table of contents has no headings, and no sections are assigned to it.
    obtain ⟨hi, hitems⟩ := itemsFit_segment htoc
    have hnone : Throughout Sectionless (segment fileName source strict) :=
      (tocBlock_segment htoc).mono fun _ => Toc.sectionless_of_tocBlock
    exact ⟨sectioned_of_no_header fun b hb => (hnone.of_mem hb).1.1,
      wellSectioned_of_sectionless hnone (hitems.fits.mono fun _ hb => hb.region)⟩

/-- Exactly the headings of a document have a section. The headings at the top level form a family
of sections that ends with the document, and those in a zone form one that ends with the zone; no
other block holds a heading. -/
theorem segment_sections (fileName : String) (source : List Char) (strict : Bool) :
    (∀ b ∈ preorderAll (segment fileName source strict),
      b.region.isSome = true ↔ b.kind = .header) ∧
    Sectioned (byteSize source) (segment fileName source strict) ∧
    (∀ zone ∈ preorderAll (segment fileName source strict), zone.kind = .zonePivot →
      Sectioned zone.span.stop zone.children) ∧
    ∀ b ∈ preorderAll (segment fileName source strict), b.kind ≠ .zonePivot →
      ∀ c ∈ b.children, c.kind ≠ .header := by
  obtain ⟨htop, hall⟩ := wellSectioned_segment fileName source strict
  exact ⟨fun b hb => (hall b hb).region_iff, htop, fun b hb => (hall b hb).zone,
    fun b hb => (hall b hb).other⟩

/-- The section of a heading ends where the next one of its level starts, and that of a deeper one
between them ends there too. -/
theorem segment_sections_headings :
    (segment "doc.md" "# A\n## B\n# C\n".toList false).map (fun b => (b.level, b.region)) =
        [(1, some ⟨0, 9⟩), (2, some ⟨4, 9⟩), (1, some ⟨9, 13⟩)] ∧
      Sectioned 13 (segment "doc.md" "# A\n## B\n# C\n".toList false) := by
  have hmarkdown :
      Toc.isToc "doc.md" (LineFacts.ofText false "# A\n## B\n# C\n".toList) = false := by
    decide
  refine ⟨?_, (segment_sections "doc.md" "# A\n## B\n# C\n".toList false).2.1⟩
  rw [segment_eq_of_markdown hmarkdown]
  cbv

end ArticleAudit.Document
