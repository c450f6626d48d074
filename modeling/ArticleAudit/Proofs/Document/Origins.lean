import ArticleAudit.Proofs.Block.Rising
import ArticleAudit.Proofs.Document.InnerSpans
import ArticleAudit.Proofs.Document.Rising
import ArticleAudit.Proofs.Document.Zones
import ArticleAudit.Proofs.Markdown.Fences
import ArticleAudit.Proofs.Markdown.Origins
import ArticleAudit.Proofs.Markdown.Tabs

/-!
# The lines that the blocks of a document come from

Every tab is made by a heading line whose title has the form of a tab, and it has the link to its
identifier as its only child exactly when the title is that link (`segment_tabs`). A title may be
the link and not have the form, or have the form and not be a link (`tabLink_without_tab`).

Fenced code is verbatim at every depth, in zones and in items too: it ends with the first line that
closes it, its content is what stands between the two fences, and no block starts inside it but the
resource types that are named there and their namespaces (`segment_fences`). Code that nothing
closes takes all lines after its fence: those of the document, or those up to the end of the
innermost zone around it.
-/

set_option autoImplicit false

namespace ArticleAudit.Document

open ArticleAudit.Text ArticleAudit.Markdown

variable {source : List Char} {fileName : String} {strict : Bool} {lines : List LineFacts}

/-- A paragraph, a tab or fenced code of a Markdown document comes from the lines it stands
among. -/
theorem origin_of_standsAmong {b : Block} {around : List LineFacts}
    (h : Toc.isToc fileName (LineFacts.ofText strict source) = false)
    (hb : StandsAmong (mainLines source strict) (segment fileName source strict) b around)
    (hkind : b.kind ≠ .zonePivot) : Origin source around b := by
  obtain ⟨-, siblings, hmem, hread⟩ := readFrom_of_standsAmong h hb
  obtain ⟨-, horigin, -⟩ | ⟨hzone, -⟩ := hread.of_mem hmem
  · exact horigin
  · exact absurd hzone hkind

/-! ## Tabs -/

/-- A heading is a tab with an identifier and its title the link to it exactly when the title has
the form of a tab, its text is one that links have and the identifier opens no parenthesis; the
titles for which only one of the two holds are known too. Every tab of a Markdown document is made
by a heading line, with the identifier of the title as its tag, and its only child is the link over
the title to that identifier under the same condition. -/
theorem segment_tabs (fileName : String) (source : List Char) (strict : Bool)
    (h : Toc.isToc fileName (LineFacts.ofText strict source) = false) :
    (∀ (l : LineFacts) (heading : Heading) (id : List Char), id ≠ [] →
      (IsTab (headingBlock source l heading) id ∧
          IsTabLink (l.content.start + heading.offset) heading.title id ↔
        ∃ text, IsTabTitle text id heading.title ∧ IsLinkText text ∧ '(' ∉ id) ∧
      (IsTab (headingBlock source l heading) id ∧
          ¬ IsTabLink (l.content.start + heading.offset) heading.title id ↔
        ∃ text, IsTabTitle text id heading.title ∧ (¬ IsLinkText text ∨ '(' ∈ id)) ∧
      (¬ IsTab (headingBlock source l heading) id ∧
          IsTabLink (l.content.start + heading.offset) heading.title id ↔
        ∃ p : LinkParts, p.IsLink ∧ p.source = heading.title ∧ p.image = false ∧
          p.target = tabMark ++ id ∧ p.IsNoTab id)) ∧
    ∀ b ∈ Block.preorderAll (segment fileName source strict), b.kind = .conceptualTab →
      (∃ around, StandsAmong (mainLines source strict) (segment fileName source strict) b around) ∧
      ∀ around, StandsAmong (mainLines source strict) (segment fileName source strict) b around →
        ∃ l ∈ around, ∃ heading text id, l.heading = some heading ∧
          b = headingBlock source l heading ∧ IsTab b id ∧ IsTabTitle text id heading.title ∧
          (HasOnlyLink b ⟨l.content.start + heading.offset, l.content.start + heading.stop⟩
            (tabMark ++ id) ↔ IsLinkText text ∧ '(' ∉ id) := by
  refine ⟨fun l heading id hid => isTab_isTabLink_cases hid, ?_⟩
  intro b hb hkind
  refine ⟨exists_standsAmong h b hb, fun around haround => ?_⟩
  have horigin := origin_of_standsAmong h haround (by simp [hkind])
  obtain ⟨l, hl, heading, hheading, rfl⟩ := horigin.tab hkind
  obtain ⟨id, htab⟩ : ∃ id, IsTab (headingBlock source l heading) id := by
    unfold headingBlock at hkind ⊢
    cases htab : tabId? heading.title with
    | some id => exact ⟨id, rfl, rfl⟩
    | none =>
      rw [htab] at hkind
      cases hkind
  obtain ⟨text, htitle⟩ := isTab_headingBlock_iff.mp htab
  exact ⟨l, hl, heading, text, id, hheading, rfl, htab, htitle, htitle.hasOnlyLink_iff⟩

/-- A tab in a document. -/
theorem segment_tabs_linux :
    Toc.isToc "doc.md" (LineFacts.ofText true "# [Linux](#tab/linux)\n".toList) = false ∧
      ∃ b ∈ Block.preorderAll (segment "doc.md" "# [Linux](#tab/linux)\n".toList true),
        b.tag = some "linux" ∧ ∃ l heading text id,
          b = headingBlock "# [Linux](#tab/linux)\n".toList l heading ∧ IsTab b id ∧
          IsTabTitle text id heading.title := by
  have hmarkdown : Toc.isToc "doc.md"
      (LineFacts.ofText true "# [Linux](#tab/linux)\n".toList) = false := by
    decide
  have hblocks : (segment "doc.md" "# [Linux](#tab/linux)\n".toList true).map
      (fun b => (b.kind, b.tag)) = [(.conceptualTab, some "linux")] := by
    rw [segment_eq_of_markdown hmarkdown]
    cbv
  obtain ⟨b, hblocks, hb⟩ := List.map_eq_singleton_iff.mp hblocks
  obtain ⟨hkind, htag⟩ := Prod.mk.inj hb
  have hmem : b ∈ Block.preorderAll (segment "doc.md" "# [Linux](#tab/linux)\n".toList true) := by
    rw [hblocks, Block.preorderAll_cons, Block.preorder_eq]
    exact List.mem_cons_self
  obtain ⟨-, htabs⟩ := segment_tabs "doc.md" "# [Linux](#tab/linux)\n".toList true hmarkdown
  obtain ⟨⟨around, haround⟩, hlines⟩ := htabs b hmem hkind
  obtain ⟨l, -, heading, text, id, -, hblock, htab, htitle, -⟩ := hlines around haround
  exact ⟨hmarkdown, b, hmem, htag, l, heading, text, id, hblock, htab, htitle⟩

/-- The first title is a link with brackets in its text, and its heading is no tab. The second one
has the form of a tab and is no link, since its identifier opens a parenthesis. -/
theorem tabLink_without_tab :
    (∃ l heading, LineFacts.ofText false "# [a [b]](#tab/x)\n".toList = [l] ∧
      l.heading = some heading ∧
      IsTabLink (l.content.start + heading.offset) heading.title "x".toList ∧
      ¬ IsTab (headingBlock "# [a [b]](#tab/x)\n".toList l heading) "x".toList) ∧
    ∃ l heading, LineFacts.ofText false "# [a](#tab/x(y)\n".toList = [l] ∧
      l.heading = some heading ∧
      ¬ IsTabLink (l.content.start + heading.offset) heading.title "x(y".toList ∧
      IsTab (headingBlock "# [a](#tab/x(y)\n".toList l heading) "x(y".toList := by
  have hlink : linkAt? "[a [b]](#tab/x)".toList =
      some ⟨false, "a [b]".toList, [], tabMark ++ "x".toList, [')']⟩ := by
    decide
  have hnone : tabId? "[a [b]](#tab/x)".toList = none := by decide
  obtain ⟨text, htitle⟩ := tabId?_eq_some_iff.mp
    (show tabId? "[a](#tab/x(y)".toList = some "x(y".toList by decide)
  refine ⟨⟨_, ⟨1, 2, "[a [b]](#tab/x)".toList⟩, rfl, by decide, ?_, ?_⟩,
    ⟨_, ⟨1, 2, "[a](#tab/x(y)".toList⟩, rfl, by decide, ?_, ?_⟩⟩
  · exact isTabLink_iff.mpr ⟨_, (linkAt?_eq_some_iff.mp hlink).1, rfl, rfl, rfl⟩
  · rw [isTab_headingBlock_iff, ← tabId?_eq_some_iff, hnone]
    nofun
  · rw [htitle.isTabLink_iff]
    rintro ⟨-, hparen⟩
    exact hparen (by decide)
  · exact isTab_headingBlock_iff.mpr ⟨text, htitle⟩

/-! ## Fenced code -/

/-- What starts inside a block of code of a document is the block, a resource type or its
namespace. -/
theorem mem_of_start_in_fence {l : LineFacts} {f : Fence} {after : List LineFacts} {b x : Block}
    (h : Toc.isToc fileName (LineFacts.ofText strict source) = false)
    (hb : b ∈ Block.preorderAll (segment fileName source strict)) (hkind : b.kind = .codeFence)
    (hverbatim : Verbatim l f after b)
    (hx : x ∈ Block.preorderAll (segment fileName source strict))
    (hstart : b.span.start ≤ x.span.start) (hstop : x.span.start < b.span.stop) :
    x = b ∨ x ∈ b.children ∨ ∃ c ∈ b.children, x ∈ c.children := by
  obtain ⟨hi, hrises⟩ := rises_segment fileName source strict
  have hfits := (placed_segment h).mono fun _ hplaced => hplaced.toFits
  have hmem := hrises.mem_preorder_of_start hfits (inDocumentOrder_segment h) hb
    (by rw [hkind]; rfl) hx hstart hstop
  rw [Block.preorder_eq, List.mem_cons] at hmem
  refine hmem.imp_right fun hinside => ?_
  -- The children have one child each, and that has none.
  have hchildren : Block.Throughout
      (fun y => y ∈ b.children ∨ ∃ c ∈ b.children, y ∈ c.children) b.children := by
    refine Block.throughout_of_mem fun c hc => ⟨Or.inl hc, ?_⟩
    obtain ⟨-, n, hn, -, -, hnone⟩ := hverbatim.children c hc
    refine Block.throughout_of_mem fun y hy => ⟨Or.inr ⟨c, hc, hy⟩, ?_⟩
    rw [hn, List.mem_singleton] at hy
    rw [hy, hnone]
    exact Block.throughout_nil
  exact hchildren x hinside

/-- Fenced code of a Markdown document, at every depth, is opened by one of the lines that it stands
among, which starts with the run of a fence. The first line after it that is a bare run of the same
mark and at least as long ends it, and the content is the source from the end of the opening line to
the start of that line; if there is none, it ends with the last of the lines it stands among: with
the document, or before the end of the innermost zone around it. No block starts inside it but its
children, which are resource types, each with its namespace as its only child. -/
theorem segment_fences (fileName : String) (source : List Char) (strict : Bool)
    (h : Toc.isToc fileName (LineFacts.ofText strict source) = false) :
    ∀ b ∈ Block.preorderAll (segment fileName source strict), b.kind = .codeFence →
      (∃ around, StandsAmong (mainLines source strict) (segment fileName source strict) b around) ∧
      (∀ around, StandsAmong (mainLines source strict) (segment fileName source strict) b around →
        ∃ before l after f rest, around = before ++ l :: after ∧
          f.Starts (trimStart l.text) rest ∧ Verbatim l f after b) ∧
      (∀ s, b.content = some s → slice? source s = some b.contentText.toList) ∧
      ∀ x ∈ Block.preorderAll (segment fileName source strict),
        b.span.start ≤ x.span.start → x.span.start < b.span.stop →
          x = b ∨ x ∈ b.children ∨ ∃ c ∈ b.children, x ∈ c.children := by
  intro b hb hkind
  have hlines : ∀ around,
      StandsAmong (mainLines source strict) (segment fileName source strict) b around →
      ∃ before l after f rest, around = before ++ l :: after ∧
        f.Starts (trimStart l.text) rest ∧ Verbatim l f after b := by
    intro around haround
    have horigin := origin_of_standsAmong h haround (by simp [hkind])
    obtain ⟨before, l, after, f, rfl, hf, rfl⟩ := horigin.code hkind
    obtain ⟨⟨_, horder⟩, -⟩ := readFrom_of_standsAmong h haround
    obtain ⟨lo, -, -, hafter⟩ := horder.right
    have hdescribed : l.Described := hafter.2.1.described
    obtain ⟨rest, hstarts⟩ :=
      Fence.ofLine?_eq_some_iff.mp (LineFacts.Described.fence_eq_some_iff hdescribed |>.mp hf).2
    exact ⟨before, l, after, f, rest, rfl, hstarts, verbatim_fenceBlock hafter hf⟩
  obtain ⟨around, haround⟩ := exists_standsAmong h b hb
  obtain ⟨-, l, after, f, -, -, -, hverbatim⟩ := hlines around haround
  refine ⟨⟨around, haround⟩, hlines, ?_, ?_⟩
  · intro s hs
    have hplaced := placed_segment h b hb
    obtain ⟨cs, hcs, -⟩ := hplaced.content s hs
    have hcontent := (hplaced.toInnerFits.contentText_eq_iff hplaced.text hs hcs).mpr
      (Block.not_overhangs (by simp [hkind]) (by simp [hkind]))
    rw [hcontent, String.toList_ofList]
    exact hcs
  · intro x hx hstart hstop
    exact mem_of_start_in_fence h hb hkind hverbatim hx hstart hstop

/-- A heading in code in a zone is no block. -/
theorem segment_fences_zone :
    Toc.isToc "doc.md" (LineFacts.ofText false
      ":::zone pivot=\"a\"\n```\n# x\n```\n::: zone-end\n".toList) = false ∧
      ∃ b ∈ Block.preorderAll (segment "doc.md"
          ":::zone pivot=\"a\"\n```\n# x\n```\n::: zone-end\n".toList false),
        b.kind = .codeFence ∧ b.span = ⟨18, 29⟩ ∧ b.contentText = "# x\n" ∧
        ∃ l after f, Verbatim l f after b := by
  have hmarkdown : Toc.isToc "doc.md" (LineFacts.ofText false
      ":::zone pivot=\"a\"\n```\n# x\n```\n::: zone-end\n".toList) = false := by
    decide
  have hblocks : (Block.preorderAll (segment "doc.md"
      ":::zone pivot=\"a\"\n```\n# x\n```\n::: zone-end\n".toList false)).map
        (fun b => (b.kind, b.span, b.contentText)) =
      [(.zonePivot, ⟨0, 42⟩, ":::zone pivot=\"a\"\n```\n# x\n```\n::: zone-end"),
        (.codeFence, ⟨18, 29⟩, "# x\n")] := by
    rw [segment_eq_of_markdown hmarkdown]
    cbv
  obtain ⟨_, _, hzone, -, hrest⟩ := List.map_eq_cons_iff.mp hblocks
  obtain ⟨b, hcode, hb⟩ := List.map_eq_singleton_iff.mp hrest
  obtain ⟨hkind, hfields⟩ := Prod.mk.inj hb
  obtain ⟨hspan, hcontent⟩ := Prod.mk.inj hfields
  have hmem : b ∈ Block.preorderAll (segment "doc.md"
      ":::zone pivot=\"a\"\n```\n# x\n```\n::: zone-end\n".toList false) := by
    rw [hzone, hcode]
    simp
  obtain ⟨⟨around, haround⟩, hlines, -⟩ := segment_fences "doc.md" _ false hmarkdown b hmem hkind
  obtain ⟨-, l, after, f, -, -, -, hverbatim⟩ := hlines around haround
  exact ⟨hmarkdown, b, hmem, hkind, hspan, hcontent, l, after, f, hverbatim⟩

end ArticleAudit.Document
