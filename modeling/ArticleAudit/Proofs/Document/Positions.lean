import ArticleAudit.Audit.Diagnostic
import ArticleAudit.Proofs.Document.Rising
import ArticleAudit.Proofs.Document.Sections
import ArticleAudit.Proofs.Markdown.Leaves
import ArticleAudit.Proofs.Text.Positions
import ArticleAudit.Proofs.Toc.Forest

/-!
# Positions in a document

Every block of a document starts before its end, and unless it is read from within a line, at the
first character of one of the lines (`startsOn_segment`, `start_lt_of_mem_segment`). So the line and
the column that a diagnostic is printed with are those of the line on which its block was read
(`segment_positions`).
-/

set_option autoImplicit false

namespace ArticleAudit.Toc

open ArticleAudit.Block ArticleAudit.Text ArticleAudit.Markdown

variable {source : List Char} {lo : Nat} {lines : List LineFacts}

/-- Items start on the lines that say so. -/
theorem startsOn_blocksOf (h : InOrder source lo lines) :
    Throughout (StartsOn lines) (blocksOf source lines) := by
  intro b hb hkind
  have htoc : isTocKind b.kind = true := by
    rcases tocBlock_blocksOf h b hb with htoc | hfile
    · exact htoc
    · rw [hfile] at hkind
      cases hkind
  obtain ⟨⟨item, ancestors⟩, hitem, rfl⟩ : ∃ node ∈ lineageAll [] (blocksOf source lines),
      node.1 = b := by
    rw [← map_fst_lineageAll [] (blocksOf source lines)] at hb
    exact List.mem_map.mp hb
  have hnode : (item, ancestors) ∈ tocNodes [] (blocksOf source lines) :=
    List.mem_filter.mpr ⟨hitem, htoc⟩
  have hstart : item.span.start ∈ ((region lines).filter isItem).map inkStart := by
    rw [← (isForestOf_blocksOf h).starts]
    exact List.mem_map.mpr ⟨_, hnode, rfl⟩
  obtain ⟨l, hl, heq⟩ := List.mem_map.mp hstart
  obtain ⟨hregion, hisItem⟩ := List.mem_filter.mp hl
  have hmem := (region_sublist lines).subset hregion
  have hsound := h.sound_of_mem hmem
  -- An item is no blank line, and it starts where its first character stands.
  have hpassed := isPassed_of_isItem hsound hisItem
  exact ⟨l, hmem, (Bool.or_eq_false_iff.mp hpassed).1,
    heq.symm.trans (start_eq_inkStart hsound hisItem).symm⟩

/-- The block starts within the source. -/
def StartsWithin (source : List Char) (b : Block) : Prop :=
  b.span.start < byteSize source

/-- Blocks whose marks rise start below the upper bound. -/
theorem start_lt_of_rises {hi : Nat} {blocks : List Block} (h : Rises lo hi blocks) :
    ∀ b ∈ preorderAll blocks, b.span.start < hi := by
  intro b hb
  have hmark : b.key ∈ marksOf blocks := List.mem_flatMap.mpr ⟨b, hb, List.mem_cons_self⟩
  have hlt := (h.within _ hmark).2
  unfold key at hlt
  omega

/-- What stands on a line starts within the source. -/
theorem startsWithin_of_rises {l : LineFacts} {blocks : List Block} (hl : l.Sound source)
    (h : Rises lo l.line.stop blocks) : Throughout (StartsWithin source) blocks :=
  fun b hb => Nat.lt_of_lt_of_le (start_lt_of_rises h b hb) hl.line_stop.le

/-- Items and files start within the source. -/
theorem itemLayout_startsWithin (source : List Char) :
    ItemLayout source (fun _ _ items => Throughout (StartsWithin source) items)
      fun _ _ parts => Throughout (StartsWithin source) parts.children where
  nil _ _ := throughout_nil
  weaken h _ _ := h
  append h hmore _ _ := throughout_append.mpr ⟨h, hmore⟩
  item := by
    intro hi l inner depth hl hblank hinner _
    obtain ⟨hstart, -, hchildren, -⟩ :=
      itemBlock_fields source depth l ((firstProperty source l).append inner)
    refine throughout_cons.mpr ⟨?_, ?_, throughout_nil⟩
    · rw [StartsWithin, hstart]
      exact Nat.lt_of_lt_of_le (hl.start_lt_stop hblank) hl.boundary_stop.le
    · rw [hchildren]
      exact throughout_append.mpr ⟨startsWithin_of_rises hl (rises_firstProperty hl hblank), hinner⟩
  noParts _ _ := throughout_nil
  partsWeaken h _ := h
  partsAppend h hlater _ _ := throughout_append.mpr ⟨h, hlater⟩
  ofItems := by
    intro lo hi items h
    rw [Parts.ofItems_children]
    exact h
  property hl hblank :=
    startsWithin_of_rises hl (rises_ofProperty hl hblank (Nat.le_refl _))

theorem startsWithin_blocksOf (h : InOrder source lo lines) :
    Throughout (StartsWithin source) (blocksOf source lines) := by
  obtain ⟨_, hblocks⟩ := (itemLayout_startsWithin source).blocksOf h
  exact hblocks

end ArticleAudit.Toc

namespace ArticleAudit.Document

open ArticleAudit.Block ArticleAudit.Text ArticleAudit.Markdown

variable {source : List Char} {fileName : String} {strict : Bool} {all : List LineFacts}

/-! ## Where blocks start -/

/-- A line that opens front matter starts with the delimiter. -/
theorem start_ofLine_of_delimiter (strict : Bool) {raw : Line} {start : Nat} {text : List Char}
    (hcontent : LineFacts.contentOf raw = (start, text))
    (htext : trimEnd text = FrontMatter.delimiter) :
    (LineFacts.ofLine strict raw).isBlank = false ∧
      (LineFacts.ofLine strict raw).start = start := by
  obtain ⟨blanks, hblanks, -⟩ := exists_trimEnd_append text
  rw [htext] at hblanks
  constructor
  · show (LineFacts.contentOf raw).2.all Text.isBlank = false
    rw [hcontent, hblanks]
    rfl
  · have hindent : (LineFacts.ofLine strict raw).indentBytes = 0 := by
      show (leadingIndent (LineFacts.contentOf raw).2).length = 0
      rw [hcontent, hblanks]
      rfl
    show min ((LineFacts.contentOf raw).1 + (LineFacts.ofLine strict raw).indentBytes)
      ((LineFacts.contentOf raw).1 + byteSize (trimEnd (LineFacts.contentOf raw).2)) = start
    rw [hindent, hcontent]
    exact Nat.min_eq_left (Nat.le_add_right _ _)

/-- Front matter starts on the first line of its document. -/
theorem isLineStart_frontMatter {fm : FrontMatter} (strict : Bool)
    (h : frontMatter? source = some fm) :
    IsLineStart (LineFacts.ofText strict source) fm.block.start := by
  -- With the first line at hand, it is enough to know what its content is.
  have hfirst : ∀ {first : List Char} {others : List (List Char)} {text : List Char},
      splitLines source = first :: others →
      LineFacts.contentOf ⟨⟨0, 0 + byteSize first⟩, first⟩ = (fm.block.start, text) →
      trimEnd text = FrontMatter.delimiter →
      IsLineStart (LineFacts.ofText strict source) fm.block.start := by
    intro first others text hlines hcontent htext
    obtain ⟨hblank, hstart⟩ := start_ofLine_of_delimiter strict hcontent htext
    refine ⟨_, ?_, hblank, hstart.symm⟩
    rw [LineFacts.ofText, linesOf, hlines]
    exact List.mem_cons_self
  unfold frontMatter? at h
  split at h
  · cases h
  · next c rest =>
    split at h
    · next hmark =>
      obtain rfl : c = byteOrderMark := by simpa using hmark
      obtain ⟨first, body, closing, after, hsplit, htrim, -, hstart, -⟩ := exists_of_ofLines? h
      obtain ⟨hlines, hcontent⟩ := splitLines_byteOrderMark hsplit
      refine hfirst hlines ((hcontent _).trans (congrArg (·, _) hstart.symm)) ?_
      rw [trimEnd_dropEndWhile_isLineEnd, htrim]
    · obtain ⟨first, body, closing, after, hsplit, htrim, -, hstart, -⟩ := exists_of_ofLines? h
      refine hfirst hsplit ((contentOf_of_trimEnd htrim _).trans (congrArg (·, _) hstart.symm)) ?_
      rw [trimEnd_dropEndWhile_isLineEnd, htrim]

/-- A field starts on a line of the front matter, and takes more lines without moving. -/
theorem startsOn_fieldBlocks {lines : List LineFacts} (h : ∀ l ∈ lines, l ∈ all) :
    Throughout (StartsOn all) (fieldBlocks source lines) := by
  have hfields : ∀ b ∈ fieldBlocks source lines, IsLineStart all b.span.start := by
    apply forall_mem_fieldBlocks
    · intro l hl b hblank hb
      unfold fieldBlock? at hb
      obtain ⟨-, hb⟩ := Option.ite_none_right_eq_some.mp hb
      obtain ⟨field, -, rfl⟩ := Option.map_eq_some_iff.mp hb
      exact ⟨l, h l hl, hblank, rfl⟩
    · exact fun _ _ hb => hb
  apply throughout_of_mem
  intro b hb
  rw [(isField_of_mem_fieldBlocks hb).2]
  exact ⟨fun _ => hfields b hb, throughout_nil⟩

theorem startsOn_forest (source : List Char) (strict : Bool) :
    Throughout (StartsOn (LineFacts.ofText strict source))
      (forest source strict (LineFacts.ofText strict source)) := by
  rw [forest_eq]
  refine throughout_append.mpr ⟨?_, Markdown.startsOn_blocksOf source strict ?_⟩
  · cases hfm : frontMatter? source with
    | none => exact throughout_nil
    | some fm =>
      exact startsOn_singleton (isLineStart_frontMatter strict hfm)
        (startsOn_fieldBlocks fun _ hl => (List.mem_filter.mp hl).1)
  · exact fun _ hl => (mainLines_suffix source strict).subset hl

theorem segment_eq_of_toc (h : Toc.isToc fileName (LineFacts.ofText strict source) = true) :
    segment fileName source strict = Toc.blocksOf source (LineFacts.ofText strict source) := by
  unfold segment
  simp only [h, if_true]

/-- The blocks of a document start on its lines. -/
theorem startsOn_segment (fileName : String) (source : List Char) (strict : Bool) :
    Throughout (StartsOn (LineFacts.ofText strict source)) (segment fileName source strict) := by
  cases htoc : Toc.isToc fileName (LineFacts.ofText strict source) with
  | true =>
    rw [segment_eq_of_toc htoc]
    exact Toc.startsOn_blocksOf (inOrder_ofText strict source)
  | false =>
    rw [segment_eq_of_markdown htoc]
    apply throughout_assignRegions _ (startsOn_forest source strict)
    intro limit b later hb hkind
    obtain ⟨hkindEq, hspan⟩ := Prod.mk.inj (site_place limit b later)
    rw [hspan]
    exact hb (hkindEq ▸ hkind)

/-- The blocks of a document start before its end. -/
theorem start_lt_of_mem_segment {b : Block} (h : b ∈ preorderAll (segment fileName source strict)) :
    b.span.start < byteSize source := by
  cases htoc : Toc.isToc fileName (LineFacts.ofText strict source) with
  | true =>
    rw [segment_eq_of_toc htoc] at h
    exact Toc.startsWithin_blocksOf (inOrder_ofText strict source) b h
  | false =>
    have hrises : Rises 0 (byteSize source) (segment fileName source strict) := by
      rw [segment_eq_of_markdown htoc, Rises, marksOf_assignRegions]
      exact rises_forest source strict
    exact Toc.start_lt_of_rises hrises b h

/-! ## The lines that blocks are read on -/

/-- A described line is one of the lines of the text. -/
theorem exists_raw_of_ofText {k : Nat} {l : LineFacts}
    (h : (LineFacts.ofText strict source)[k]? = some l) :
    ∃ raw, (linesOf source)[k]? = some raw ∧ raw.span = l.line := by
  rw [LineFacts.ofText, List.getElem?_map] at h
  obtain ⟨raw, hraw, rfl⟩ := Option.map_eq_some_iff.mp h
  exact ⟨raw, hraw, rfl⟩

/-- A block starts on the line it is read on, with the line if it is not read from within. -/
theorem exists_line_of_mem_segment {b : Block}
    (h : b ∈ preorderAll (segment fileName source strict)) :
    ∃ (k : Nat) (l : LineFacts), (LineFacts.ofText strict source)[k]? = some l ∧
      l.line.start ≤ b.span.start ∧ b.span.start < l.line.stop ∧
      (isWithinLine b.kind = false → l.isBlank = false ∧ b.span.start = l.start) := by
  cases hkind : isWithinLine b.kind with
  | true =>
    obtain ⟨k, raw, hk, hstart, hstop⟩ := exists_line_of_lt (start_lt_of_mem_segment h)
    refine ⟨k, LineFacts.ofLine strict raw, ?_, hstart, hstop, nofun⟩
    rw [LineFacts.ofText, List.getElem?_map, hk]
    rfl
  | false =>
    obtain ⟨l, hl, hblank, hstart⟩ := startsOn_segment fileName source strict b h hkind
    obtain ⟨k, hk⟩ := List.mem_iff_getElem?.mp hl
    have hsound := (inOrder_ofText strict source).sound_of_mem hl
    refine ⟨k, l, hk, ?_, ?_, fun _ => ⟨hblank, hstart⟩⟩
    · rw [hstart]
      exact hsound.line_start_le.trans l.content_start_le_start
    · rw [hstart]
      exact Nat.lt_of_lt_of_le (hsound.start_lt_stop hblank) hsound.stop_le_line_stop

/-- The position of an offset counts the line feeds before it and the bytes after the last one,
which is what a rope answers. Positions are in the order of the offsets, so each one tells its
offset, and an offset before the end is positioned on the line whose span contains it. A diagnostic
at a block is printed with the line on which the block was read. -/
theorem segment_positions (fileName : String) (source : List Char) (strict : Bool) :
    (∀ offset o, o = min offset (byteSize source) → positionOf source offset =
      ⟨((bytesOf source).take o).count lineFeed, o - lineStart ((bytesOf source).take o)⟩) ∧
    (∀ (rope : LineMetric source) (offset : Nat),
      rope.position offset = positionOf source offset) ∧
    (∀ a b, a < b → b ≤ byteSize source → (positionOf source a).Before (positionOf source b)) ∧
    (∀ a b, a ≤ byteSize source → b ≤ byteSize source →
      positionOf source a = positionOf source b → a = b) ∧
    (∀ o < byteSize source, ∃ l : Line, (linesOf source)[(positionOf source o).line]? = some l ∧
      l.span.start ≤ o ∧ o < l.span.stop ∧ (positionOf source o).column = o - l.span.start) ∧
    (∀ (k : Nat) (l : Line) (o : Nat), (linesOf source)[k]? = some l → l.span.start ≤ o →
      o < l.span.stop → positionOf source o = ⟨k, o - l.span.start⟩) ∧
    ∀ b ∈ preorderAll (segment fileName source strict),
      ∃ (k : Nat) (l : LineFacts), (LineFacts.ofText strict source)[k]? = some l ∧
        l.line.start ≤ b.span.start ∧ b.span.start < l.line.stop ∧
        (isWithinLine b.kind = false → l.isBlank = false ∧ b.span.start = l.start) ∧
        ∀ d : Diagnostic, d.range.start = b.span.start → d.line fileName source =
          fileName ++ ":" ++ toString (k + 1) ++ ":" ++
            toString (b.span.start - l.line.start + 1) ++ ": " ++ d.severity.name ++ ": " ++
            d.message ++ " [rule " ++ toString d.ruleNum.toNat ++ "]" := by
  refine ⟨?_, LineMetric.position_eq, fun _ _ => positionOf_before, fun _ _ => eq_of_positionOf_eq,
    ?_, fun _ _ _ => positionOf_of_line, ?_⟩
  · rintro offset o rfl
    have hle : min offset (byteSize source) ≤ byteSize source := Nat.min_le_right _ _
    rw [← positionOf_min, positionOf_eq, positionAfter, List.length_take, length_bytesOf,
      Nat.min_eq_left hle]
  · intro o ho
    obtain ⟨k, l, hk, hstart, hstop⟩ := exists_line_of_lt ho
    rw [positionOf_of_line hk hstart hstop]
    exact ⟨l, hk, hstart, hstop, rfl⟩
  · intro b hb
    obtain ⟨k, l, hk, hstart, hstop, hline⟩ := exists_line_of_mem_segment hb
    obtain ⟨raw, hraw, hspan⟩ := exists_raw_of_ofText hk
    refine ⟨k, l, hk, hstart, hstop, hline, ?_⟩
    intro d hd
    rw [← hspan] at hstart hstop ⊢
    rw [Diagnostic.line, hd, positionOf_of_line hraw hstart hstop]

/-- The second paragraph starts on the fourth line, after an empty one. -/
theorem segment_positions_paragraph :
    positionOf "ab\ncd\n\nef".toList 100 = ⟨3, 2⟩ ∧
      (LineMetric.ofText "ab\ncd\n\nef".toList).position 4 = ⟨1, 1⟩ ∧
      (positionOf "ab\ncd\n\nef".toList 4).Before (positionOf "ab\ncd\n\nef".toList 7) ∧
      positionOf "ab\ncd\n\nef".toList 7 = ⟨3, 0⟩ ∧
      ∃ b ∈ segment "doc.md" "ab\ncd\n\nef".toList false, b.kind = .paragraph ∧ b.span.start = 7 ∧
        ∃ (k : Nat) (l : LineFacts),
          (LineFacts.ofText false "ab\ncd\n\nef".toList)[k]? = some l ∧ b.span.start = l.start := by
  have hmarkdown : Toc.isToc "doc.md" (LineFacts.ofText false "ab\ncd\n\nef".toList) = false := by
    decide
  have hsites : (segment "doc.md" "ab\ncd\n\nef".toList false).map site =
      [(.paragraph, ⟨0, 5⟩), (.paragraph, ⟨7, 9⟩)] := by
    rw [segment_eq_of_markdown hmarkdown]
    cbv
  obtain ⟨b, hb, hsite⟩ : ∃ b ∈ segment "doc.md" "ab\ncd\n\nef".toList false,
      b.site = (.paragraph, ⟨7, 9⟩) := by
    apply List.mem_map.mp
    rw [hsites]
    decide
  obtain ⟨hkind, hspan⟩ := Prod.mk.inj hsite
  have hpre : Throughout (· ∈ preorderAll (segment "doc.md" "ab\ncd\n\nef".toList false)) _ :=
    fun _ h => h
  obtain ⟨hexact, hrope, hbefore, -, -, hline, hblocks⟩ :=
    segment_positions "doc.md" "ab\ncd\n\nef".toList false
  obtain ⟨k, l, hk, -, -, hstart, -⟩ := hblocks b (hpre.of_mem hb).1
  refine ⟨(hexact 100 9 (by decide)).trans (by decide), (hrope _ 4).trans (by decide),
    hbefore 4 7 (by decide) (by decide), hline 3 ⟨⟨7, 9⟩, "ef".toList⟩ 7 ?_ ?_ ?_,
    b, hb, hkind, congrArg Span.start hspan, k, l, hk, (hstart (by rw [hkind]; rfl)).2⟩ <;> decide

end ArticleAudit.Document
