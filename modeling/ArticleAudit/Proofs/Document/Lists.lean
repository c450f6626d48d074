import ArticleAudit.Proofs.Document.Zones
import ArticleAudit.Proofs.Markdown.ListShape

/-!
# Lists of a document

The lists of a Markdown document, at every depth, have items of their own type, column and level,
and two of them that follow one another among siblings could not have been one list
(`segment_lists`).
-/

set_option autoImplicit false

namespace ArticleAudit.Document

open ArticleAudit.Text ArticleAudit.Markdown

variable {source : List Char} {fileName : String} {strict : Bool}

/-! ## Sections and lists -/

/-- Whether siblings are apart is seen from their kinds and spans. -/
theorem isChain_apart_of_map_site {lines : List LineFacts} {a b : List Block}
    (h : a.map Block.site = b.map Block.site) (hb : b.IsChain (Apart lines)) :
    a.IsChain (Apart lines) := by
  have hsites : (b.map Block.site).IsChain fun s t =>
      ∀ x y : Block, x.site = s → y.site = t → Apart lines x y := by
    refine (List.isChain_map Block.site).mpr (hb.imp ?_)
    intro x y hxy x' y' hx hy
    obtain ⟨hxkind, hxspan⟩ := Prod.mk.inj hx
    obtain ⟨hykind, hyspan⟩ := Prod.mk.inj hy
    simpa only [Apart, IsList, startLine?, hxkind, hxspan, hykind, hyspan] using hxy
  rw [← h] at hsites
  exact ((List.isChain_map Block.site).mp hsites).imp fun x y hxy => hxy x y rfl rfl

theorem isChain_apart_assignRegions (limit : Nat) {lines : List LineFacts} {blocks : List Block}
    (h : blocks.IsChain (Apart lines)) :
    (Block.assignRegions limit blocks).IsChain (Apart lines) :=
  isChain_apart_of_map_site (Block.map_assignRegions limit blocks) h

/-- Sections do not change the shape of lists. -/
theorem shaped_assignRegions (limit : Nat) {lines : List LineFacts} {blocks : List Block}
    (h : Block.Throughout (Shaped lines) blocks) :
    Block.Throughout (Shaped lines) (Block.assignRegions limit blocks) := by
  induction limit, blocks using Block.assignRegions.induct with
  | case1 limit =>
    rw [Block.assignRegions_nil]
    exact Block.throughout_nil
  | case2 limit b later ihchildren ihlater =>
    obtain ⟨hb, hchildren, hlater⟩ := Block.throughout_cons.mp h
    have hno : ∀ {kind : BlockKind}, b.kind = kind →
        kind ≠ .bulletedList ∧ kind ≠ .numberedList → ¬ IsList (Block.place limit b later) :=
      fun hkind => not_isList_of_kind ((Block.kind_place limit b later).trans hkind)
    rw [Block.assignRegions_cons]
    refine Block.throughout_cons.mpr ⟨⟨?_, ?_⟩, ?_, ihlater hlater⟩
    · intro hlist
      have hplace : Block.place limit b later = b := by
        unfold Block.place
        split
        · next hkind => exact absurd hlist (hno hkind (by simp))
        · next hkind => exact absurd hlist (hno hkind (by simp))
        · rfl
      rw [hplace] at hlist ⊢
      exact hb.list hlist
    · unfold Block.place
      split
      · exact hb.siblings
      · exact isChain_apart_assignRegions _ hb.siblings
      · exact hb.siblings
    · unfold Block.place
      split
      · exact hchildren
      · exact ihchildren hchildren
      · exact hchildren

/-! ## The lists of a document -/

/-- The front matter holds no lists. -/
theorem no_list_metadataBlock (lines : List LineFacts) (fm : FrontMatter) :
    Block.Throughout (fun b => ¬ IsList b) [metadataBlock source lines fm] := by
  have hkind : (metadataBlock source lines fm).kind = .metadata := rfl
  refine Block.throughout_cons.mpr ⟨not_isList_of_kind hkind (by simp),
    Block.throughout_of_mem ?_, Block.throughout_nil⟩
  intro b hb
  obtain ⟨hkind, hchildren⟩ := isField_of_mem_fieldBlocks hb
  rw [hchildren]
  exact ⟨not_isList_of_kind hkind (by simp), Block.throughout_nil⟩

theorem shaped_forest (source : List Char) (strict : Bool) :
    Block.Throughout (Shaped (LineFacts.ofText strict source))
        (forest source strict (LineFacts.ofText strict source)) ∧
      (forest source strict (LineFacts.ofText strict source)).IsChain
        (Apart (LineFacts.ofText strict source)) := by
  have hmain : ∀ u ∈ mainLines source strict, u ∈ LineFacts.ofText strict source :=
    fun _ hu => (mainLines_suffix source strict).subset hu
  obtain ⟨hshaped, hsiblings⟩ := shaped_blocksOf (inOrder_ofText strict source) hmain
  have hfront : Block.Throughout (fun b => ¬ IsList b)
      ((frontMatter? source).toList.map
        (metadataBlock source (LineFacts.ofText strict source))) := by
    cases frontMatter? source with
    | none => exact Block.throughout_nil
    | some fm => exact no_list_metadataBlock _ fm
  rw [forest_eq]
  exact ⟨Block.throughout_append.mpr ⟨shaped_of_no_list hfront, hshaped⟩,
    isChain_append_of_no_list (fun b hb => (hfront.of_mem hb).1) hsiblings⟩

/-- The kinds of the blocks of lines of which the first one opens a list. -/
theorem map_kind_readLines_list {l : LineFacts} {lines : List LineFacts} {marker : ListMarker}
    (hl : l.isBlank = false) (hopener : openerOf? strict l lines = some (.list marker)) :
    (readLines source strict none (l :: lines)).map (·.kind) =
      listKind marker ::
        (readLines source strict none (takeList source 0 marker l lines).rest).map (·.kind) := by
  rw [readLines, if_neg (by simp [hl]), hopener]
  show (openBlock source strict (.list marker) l lines).block.kind :: _ = _
  rw [openBlock_list, takeList]
  rfl

/-- A line that neither goes on with a list nor is deeper ends it. -/
theorem rest_takeList_of_next {depth : Nat} {marker : ListMarker} {l m : LineFacts}
    {lines : List LineFacts} (hm : m.isBlank = false) (hindent : m.indent ≤ marker.indent)
    (hmarker : itemMarker? marker m = none) :
    (takeList source depth marker l (m :: lines)).rest = m :: lines := by
  have hink : ¬ m.isBlank = true := by simp [hm]
  have hitem : (takeItem source depth marker l (m :: lines)).rest = m :: lines := by
    rw [takeItem, takeInner_of_ends (endsItem_of_le hink hindent)]
    rfl
  rw [takeList]
  show (takeItems source depth marker (takeItem source depth marker l (m :: lines)).rest).rest = _
  rw [hitem, takeItems_of_stops (stopsItems_of_no_item hink hmarker)]
  rfl

/-- The lines of a bulleted list and, on the next line, a numbered one. -/
theorem map_kind_two_lists :
    (segment "doc.md" "- a\n1. b\n".toList false).map (·.kind) =
      [.bulletedList, .numberedList] := by
  have hmarkdown : Toc.isToc "doc.md" (LineFacts.ofText false "- a\n1. b\n".toList) = false := by
    decide
  have hforest : forest "- a\n1. b\n".toList false (LineFacts.ofText false "- a\n1. b\n".toList) =
      readLines "- a\n1. b\n".toList false none
        [LineFacts.ofLine false ⟨⟨0, 4⟩, "- a\n".toList⟩,
          LineFacts.ofLine false ⟨⟨4, 9⟩, "1. b\n".toList⟩] := rfl
  have hsites := congrArg (List.map Prod.fst) (Block.map_assignRegions
    (byteSize "- a\n1. b\n".toList)
    (forest "- a\n1. b\n".toList false (LineFacts.ofText false "- a\n1. b\n".toList)))
  rw [List.map_map, List.map_map, hforest] at hsites
  rw [segment_eq_of_markdown hmarkdown, hforest]
  refine hsites.trans ?_
  show (readLines _ _ _ _).map (·.kind) = _
  rw [@map_kind_readLines_list _ _ _ _ ⟨false, 0, 2⟩ rfl rfl,
    rest_takeList_of_next rfl (by decide) rfl,
    @map_kind_readLines_list _ _ _ _ ⟨true, 0, 3⟩ rfl rfl]
  -- Nothing is left after the second line.
  rw [List.suffix_nil.mp (takeList "- a\n1. b\n".toList 0 ⟨true, 0, 3⟩ _ []).isSuffix, readLines]
  rfl

/-- Every list of a Markdown document, at every depth, has at least one item; all its items are of
its level, on lines with a marker of its type at the column of its first line; and after its links
an item has a list of the next level, fenced code or a row for each deeper line that starts one. Of
two lists that follow one another among siblings the second one is no deeper than the first, and
they differ in type or column. -/
theorem segment_lists (fileName : String) (source : List Char) (strict : Bool)
    (h : Toc.isToc fileName (LineFacts.ofText strict source) = false) :
    (∀ list ∈ Block.preorderAll (segment fileName source strict), IsList list →
      ListOf (LineFacts.ofText strict source) list) ∧
    (segment fileName source strict).IsChain (Apart (LineFacts.ofText strict source)) ∧
    ∀ b ∈ Block.preorderAll (segment fileName source strict),
      b.children.IsChain (Apart (LineFacts.ofText strict source)) := by
  obtain ⟨hshaped, hsiblings⟩ := shaped_forest source strict
  have hall := shaped_assignRegions (byteSize source) hshaped
  rw [segment_eq_of_markdown h]
  exact ⟨fun list hlist => (hall list hlist).list, isChain_apart_assignRegions _ hsiblings,
    fun b hb => (hall b hb).siblings⟩

/-- Two lists on lines that follow one another. -/
theorem segment_lists_adjacent :
    Toc.isToc "doc.md" (LineFacts.ofText false "- a\n1. b\n".toList) = false ∧
      ∃ a b, segment "doc.md" "- a\n1. b\n".toList false = [a, b] ∧
        a.kind = .bulletedList ∧ b.kind = .numberedList ∧
        ListOf (LineFacts.ofText false "- a\n1. b\n".toList) a ∧
        Apart (LineFacts.ofText false "- a\n1. b\n".toList) a b := by
  have hmarkdown : Toc.isToc "doc.md" (LineFacts.ofText false "- a\n1. b\n".toList) = false := by
    decide
  obtain ⟨a, rest, hsegment, ha, hrest⟩ := List.map_eq_cons_iff.mp map_kind_two_lists
  obtain ⟨b, rfl, hb⟩ := List.map_eq_singleton_iff.mp hrest
  obtain ⟨hlists, hsiblings, -⟩ := segment_lists "doc.md" _ false hmarkdown
  rw [hsegment] at hlists hsiblings
  refine ⟨hmarkdown, a, b, hsegment, ha, hb, ?_, (List.isChain_cons_cons.mp hsiblings).1⟩
  refine hlists a ?_ (Or.inl ha)
  rw [Block.preorderAll_cons, Block.preorder_eq]
  exact List.mem_cons_self

end ArticleAudit.Document
