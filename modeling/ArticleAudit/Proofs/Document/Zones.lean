import ArticleAudit.Proofs.Document.Geometry
import ArticleAudit.Proofs.Markdown.Origins

/-!
# Zones of a document

The blocks of a Markdown document are read from the lines after the front matter
(`readFrom_segment`), those in a zone from the inner lines of the zone.

The zones, at every depth, end where they would end if fenced code in them were raw, except those
whose end is in code (`segment_zones_end`). The exception is real: a line in code that looks like
the end of a zone ends it (`zone_ends_in_code`).
-/

set_option autoImplicit false

namespace ArticleAudit.Document

open ArticleAudit.Text ArticleAudit.Markdown

variable {source : List Char} {fileName : String} {strict : Bool}

/-! ## Sections and zones -/

/-- Sections do not change code. -/
theorem codeSpans_assignRegions (limit : Nat) (blocks : List Block) :
    codeSpans (Block.assignRegions limit blocks) = codeSpans blocks := by
  induction limit, blocks using Block.assignRegions.induct with
  | case1 limit => rw [Block.assignRegions_nil]
  | case2 limit b later ihchildren ihlater =>
    have hplace : codeSpans [Block.place limit b later] = codeSpans [b] := by
      unfold Block.place
      split
      · next hkind =>
        rw [codeSpans_of_kind_ne (by simp [hkind]), codeSpans_of_kind_ne (by simp [hkind])]
      · next hkind =>
        rw [codeSpans_of_kind_ne (by simp [hkind]), codeSpans_of_kind_ne (by simp [hkind])]
        exact ihchildren
      · rfl
    rw [Block.assignRegions_cons, codeSpans_cons, codeSpans_cons b, hplace, ihlater]

/-- Sections change only headings and zones. -/
theorem origin_place {b : Block} (limit : Nat) (later : List Block) {lines : List LineFacts}
    (h : Origin source lines b) : Origin source lines (Block.place limit b later) := by
  have hkind := Block.kind_place limit b later
  cases hb : b.kind with
  | header =>
    have hother : Unsourced (Block.place limit b later) := by simp [Unsourced, hkind, hb]
    exact hother.origin
  | zonePivot =>
    exact ⟨by simp [hkind, hb], by simp [hkind, hb], by simp [hkind, hb]⟩
  | _ =>
    have hplace : Block.place limit b later = b := by simp [Block.place, hb]
    rw [hplace]
    exact h

theorem children_place {b : Block} (hkind : b.kind ≠ .zonePivot) (limit : Nat)
    (later : List Block) : (Block.place limit b later).children = b.children := by
  unfold Block.place
  split
  · rfl
  · next hzone => exact absurd hzone hkind
  · rfl

/-- Sections do not change which lines blocks are read from. -/
theorem readFrom_assignRegions (limit : Nat) {lines : List LineFacts} {blocks : List Block}
    (h : ReadFrom source lines blocks) :
    ReadFrom source lines (Block.assignRegions limit blocks) := by
  induction h generalizing limit with
  | nil =>
    rw [Block.assignRegions_nil]
    exact .nil
  | block hkind horigin hchildren _ _ ihrest =>
    rw [Block.assignRegions_cons]
    refine .block ?_ (origin_place limit _ horigin) ?_ (ihrest limit)
    · rwa [Block.kind_place]
    · rwa [children_place hkind]
  | @zone _ _ after l attributes z rest hlines hzone hkind hblock _ _ ihchildren ihrest =>
    have hplace : Block.place limit z rest =
        { z with children := Block.assignRegions z.span.stop z.children } := by
      simp [Block.place, hkind]
    have hplaced : IsZone l attributes after (Block.place limit z rest) := by
      rw [hplace]
      exact ⟨hblock.span, hblock.tag,
        fun hinner => (codeSpans_assignRegions _ _).trans (hblock.codes hinner)⟩
    rw [Block.assignRegions_cons]
    refine .zone hlines hzone (by rwa [Block.kind_place]) hplaced ?_ (ihrest limit)
    rw [hplace]
    exact ihchildren _

/-! ## The lines of a document -/

/-- A block of a kind that is neither code nor a zone, without children. -/
def IsField (b : Block) : Prop :=
  b.kind = .metadataField ∧ b.children = []

theorem isField_of_mem_fieldBlocks {lines : List LineFacts} {b : Block}
    (hb : b ∈ fieldBlocks source lines) : IsField b := by
  refine forall_mem_fieldBlocks ?_ ?_ b hb
  · intro l _ field _ hfield
    unfold fieldBlock? at hfield
    obtain ⟨-, hfield⟩ := Option.ite_none_right_eq_some.mp hfield
    obtain ⟨parts, -, rfl⟩ := Option.map_eq_some_iff.mp hfield
    exact ⟨rfl, rfl⟩
  · exact fun _ _ h => h

/-- The front matter comes from no line of the text. -/
theorem unsourced_metadataBlock (body : List LineFacts) (fm : FrontMatter) :
    Block.Throughout Unsourced [metadataBlock source body fm] := by
  refine Block.throughout_cons.mpr
    ⟨⟨nofun, nofun, nofun, nofun⟩, Block.throughout_of_mem ?_, Block.throughout_nil⟩
  intro b hb
  obtain ⟨hkind, hchildren⟩ := isField_of_mem_fieldBlocks hb
  rw [hchildren]
  exact ⟨by simp [Unsourced, hkind], Block.throughout_nil⟩

theorem readFrom_forest (source : List Char) (strict : Bool) :
    ReadFrom source (mainLines source strict)
      (forest source strict (LineFacts.ofText strict source)) := by
  rw [forest_eq]
  refine ReadFrom.append ?_ (readFrom_blocksOf source strict _)
  cases frontMatter? source with
  | none => exact .nil
  | some fm => exact .of_unsourced (unsourced_metadataBlock _ fm)

/-- The blocks of a Markdown document are read from its lines. -/
theorem readFrom_segment (h : Toc.isToc fileName (LineFacts.ofText strict source) = false) :
    ReadFrom source (mainLines source strict) (segment fileName source strict) := by
  rw [segment_eq_of_markdown h]
  exact readFrom_assignRegions _ (readFrom_forest source strict)

theorem inOrder_mainLines (source : List Char) (strict : Bool) :
    ∃ lo, InOrder source lo (mainLines source strict) := by
  obtain ⟨front, hfront⟩ := mainLines_suffix source strict
  have hall := inOrder_ofText strict source
  rw [← hfront] at hall
  obtain ⟨lo, -, -, hmain⟩ := hall.right
  exact ⟨lo, hmain⟩

/-- Every block of a Markdown document stands among some of its lines. -/
theorem exists_standsAmong (h : Toc.isToc fileName (LineFacts.ofText strict source) = false) :
    ∀ b ∈ Block.preorderAll (segment fileName source strict), ∃ around,
      StandsAmong (mainLines source strict) (segment fileName source strict) b around :=
  (readFrom_segment h).exists_standsAmong fun _ => .top

/-- The lines that a block of a Markdown document stands among are in order, and the block is one
of those that are read from them. -/
theorem readFrom_of_standsAmong {b : Block} {around : List LineFacts}
    (h : Toc.isToc fileName (LineFacts.ofText strict source) = false)
    (hb : StandsAmong (mainLines source strict) (segment fileName source strict) b around) :
    (∃ lo, InOrder source lo around) ∧
      ∃ siblings, b ∈ siblings ∧ ReadFrom source around siblings := by
  obtain ⟨lo, horder⟩ := inOrder_mainLines source strict
  exact hb.readFrom (readFrom_segment h) horder

/-! ## Where zones end -/

/-- A line stops before every later line that is not blank. -/
theorem stop_lt_of_later {lo : Nat} {e w : LineFacts} {lines : List LineFacts}
    (horder : InOrder source lo (e :: lines)) (hw : w ∈ lines) (hink : w.isBlank = false) :
    e.stop < w.stop := by
  have hsound := horder.2.2.sound_of_mem hw
  have h1 := horder.2.1.stop_le_line_stop
  have h2 := horder.2.2.le_line_start hw
  have h3 := hsound.line_start_le
  have h4 := w.content_start_le_start
  have h5 := hsound.start_lt_stop hink
  omega

/-- A zone that ends in code would end later if the code were raw. -/
theorem stop_lt_of_endsInCode {lo : Nat} {l : LineFacts} {lines inner outer : List LineFacts}
    (horder : InOrder source lo (l :: lines)) (h : RawSplit lines inner outer)
    (hends : EndsInCode lines) :
    (lastLine l (zoneRun lines)).stop < (lastLine l (inner ++ outer.head?.toList)).stop := by
  obtain ⟨e, more, hinner, houter⟩ := h.exists_more hends
  have hrun : zoneRun lines = zoneInner lines ++ [e] := by
    show lines.takeWhile _ ++ (lines.dropWhile _).head?.toList = _
    rw [show lines.dropWhile _ = e :: (more ++ outer) from houter]
    rfl
  have hlast : lastLine l (zoneRun lines) = e := by
    simp [hrun, lastLine]
  have hlines : lines = zoneInner lines ++ e :: (more ++ outer) := by
    conv_lhs => rw [← zoneInner_append_zoneOuter lines, houter]
  -- Some later line of the raw zone is not blank: the one that ends it or one that closes the code.
  obtain ⟨w, hw, hink, hraw⟩ : ∃ w ∈ more ++ outer, w.isBlank = false ∧
      w ∈ inner ++ outer.head?.toList := by
    cases outer with
    | cons v rest =>
      have hv : v ∈ lines := by simp [h.split]
      have hdescribed := (horder.2.2.sound_of_mem hv).described
      have hend := (h.ends v rest rfl).1
      exact ⟨v, by simp, LineFacts.isBlank_of_ink hdescribed (LineFacts.ink_of_isZoneEnd hend),
        by simp⟩
    | nil =>
      obtain ⟨u, after, houter', c, -, x, hx, hclosed⟩ := hends
      obtain ⟨-, rfl⟩ := List.cons.inj (houter.symm.trans houter')
      rw [List.append_nil] at hx
      have hmem : x ∈ inner := by simp [hinner, hx]
      have hdescribed := (horder.2.2.sound_of_mem (by simpa [h.split] using hmem)).described
      cases hf : x.fence with
      | none => simp [hf, Fence.isClosedBy] at hclosed
      | some f =>
        exact ⟨x, by simpa using hx, LineFacts.isBlank_of_ink hdescribed
          (LineFacts.ink_of_fence hdescribed hf), by simpa using hmem⟩
  have hrest := horder.2.2
  rw [hlines] at hrest
  obtain ⟨mid, -, -, hrest⟩ := hrest.right
  have hlt := stop_lt_of_later hrest hw hink
  have hall : inner ++ outer.head?.toList ++ outer.tail = lines := by
    rw [h.split]
    cases outer <;> simp
  rw [← hall] at horder
  have hle := horder.left_cons.stop_le_lastLine (List.mem_cons_of_mem l hraw)
  rw [hlast]
  exact Nat.lt_of_lt_of_le hlt hle

/-- Every zone of a Markdown document, at every depth, is opened by one of the lines that it stands
among, and takes the lines after that one up to the first that ends zones. The blocks of fenced code
in it are those that its inner lines show. If code in the zone is raw, so that it goes on to the
first line that ends zones and is not in code, then it stops where its block does, except when the
line that ends it is itself in code. -/
theorem segment_zones_end (fileName : String) (source : List Char) (strict : Bool)
    (h : Toc.isToc fileName (LineFacts.ofText strict source) = false) :
    ∀ z ∈ Block.preorderAll (segment fileName source strict), z.kind = .zonePivot →
      (∃ around, StandsAmong (mainLines source strict) (segment fileName source strict) z around) ∧
      ∀ around, StandsAmong (mainLines source strict) (segment fileName source strict) z around →
        ∃ before l after attributes inner outer,
          around = before ++ l :: after ∧ l.zone? = some attributes ∧
          z.tag = some (String.ofList attributes) ∧
          z.span = ⟨l.start, (lastLine l (zoneRun after)).stop⟩ ∧
          codeSpans z.children = (codesOf (zoneInner after)).map Code.span ∧
          RawSplit after inner outer ∧
          (z.span.stop = (lastLine l (inner ++ outer.head?.toList)).stop ↔ ¬ EndsInCode after) := by
  intro z hz hzone
  refine ⟨exists_standsAmong h z hz, fun around haround => ?_⟩
  obtain ⟨⟨lo, hlines⟩, siblings, hmem, hread⟩ := readFrom_of_standsAmong h haround
  obtain ⟨hno, -⟩ | ⟨-, before, l, after, attributes, rfl, hopened, hblock, -⟩ := hread.of_mem hmem
  · exact absurd hzone hno
  obtain ⟨inner, outer, hraw⟩ := RawSplit.exists_rawSplit after
  -- The lines of the zone are in order, so its last line ends it.
  obtain ⟨lo', -, -, horder⟩ := hlines.right
  have hdescribed : ∀ u ∈ zoneInner after, u.Described := fun u hu =>
    (horder.2.2.sound_of_mem ((List.takeWhile_prefix _).subset hu)).described
  have hrun : InOrder source lo' (l :: zoneRun after) := by
    have hafter : zoneRun after ++ (zoneOuter after).tail = after := closedRun_append _ after
    rw [← hafter] at horder
    exact horder.left_cons
  have hspan := hblock.span
  rw [Nat.max_eq_left hrun.start_le_lastLine] at hspan
  refine ⟨before, l, after, attributes, inner, outer, rfl, hopened, hblock.tag, hspan,
    hblock.codes hdescribed, hraw, ?_⟩
  rw [hspan]
  constructor
  · intro hstop hends
    have hlt := stop_lt_of_endsInCode horder hraw hends
    exact absurd hstop (Nat.ne_of_lt hlt)
  · intro hends
    obtain ⟨rfl, rfl⟩ := hraw.eq_zoneInner_iff.mpr hends
    rfl

/-- A zone around code. -/
theorem segment_zones_end_code :
    Toc.isToc "doc.md" (LineFacts.ofText false
      ":::zone pivot=\"a\"\n```\nx\n```\n::: zone-end\n".toList) = false ∧
      ∃ z ∈ Block.preorderAll (segment "doc.md"
          ":::zone pivot=\"a\"\n```\nx\n```\n::: zone-end\n".toList false),
        z.kind = .zonePivot ∧ ∃ l attributes after,
          z.tag = some (String.ofList attributes) ∧
          z.span = ⟨l.start, (lastLine l (zoneRun after)).stop⟩ ∧
          codeSpans z.children = (codesOf (zoneInner after)).map Code.span := by
  have hmarkdown : Toc.isToc "doc.md" (LineFacts.ofText false
      ":::zone pivot=\"a\"\n```\nx\n```\n::: zone-end\n".toList) = false := by
    decide
  have hkinds : (segment "doc.md"
      ":::zone pivot=\"a\"\n```\nx\n```\n::: zone-end\n".toList false).map (·.kind) =
        [.zonePivot] := by
    rw [segment_eq_of_markdown hmarkdown]
    cbv
  obtain ⟨z, hblocks, hkind⟩ := List.map_eq_singleton_iff.mp hkinds
  have hz : z ∈ Block.preorderAll (segment "doc.md"
      ":::zone pivot=\"a\"\n```\nx\n```\n::: zone-end\n".toList false) := by
    rw [hblocks, Block.preorderAll_cons, Block.preorder_eq]
    exact List.mem_cons_self
  obtain ⟨⟨around, haround⟩, hends⟩ := segment_zones_end "doc.md" _ false hmarkdown z hz hkind
  obtain ⟨-, l, after, attributes, -, -, -, -, htag, hspan, hcodes, -⟩ := hends around haround
  exact ⟨hmarkdown, z, hz, hkind, l, attributes, after, htag, hspan, hcodes⟩

/-- A fence that lines open and nothing closes is open. -/
theorem openCode?_singleton {l : LineFacts} {f : Fence} (h : l.fence = some f) :
    openCode? [l] = some (.ofLines l f []) := by
  rw [openCode?, codesOf_cons_fence [] h, show fenceRest f [] = [] from rfl, codesOf_nil]
  rfl

/-- The third line is in code, and yet it ends the zone that would end with the fifth one. -/
theorem zone_ends_in_code :
    Toc.isToc "doc.md" (LineFacts.ofText false
      ":::zone pivot=\"a\"\n```\n::: zone-end\n```\n::: zone-end\n".toList) = false ∧
      ∃ z ∈ segment "doc.md"
          ":::zone pivot=\"a\"\n```\n::: zone-end\n```\n::: zone-end\n".toList false,
        z.kind = .zonePivot ∧ z.span = ⟨0, 34⟩ ∧
          ∃ l after inner outer, LineFacts.ofText false
              ":::zone pivot=\"a\"\n```\n::: zone-end\n```\n::: zone-end\n".toList = l :: after ∧
            RawSplit after inner outer ∧ (lastLine l (inner ++ outer.head?.toList)).stop = 51 := by
  have hmarkdown : Toc.isToc "doc.md" (LineFacts.ofText false
      ":::zone pivot=\"a\"\n```\n::: zone-end\n```\n::: zone-end\n".toList) = false := by
    decide
  have hblocks : (segment "doc.md"
      ":::zone pivot=\"a\"\n```\n::: zone-end\n```\n::: zone-end\n".toList false).map
        (fun b => (b.kind, b.span)) = [(.zonePivot, ⟨0, 34⟩), (.codeFence, ⟨35, 51⟩)] := by
    rw [segment_eq_of_markdown hmarkdown]
    cbv
  have hlines : (LineFacts.ofText false
      ":::zone pivot=\"a\"\n```\n::: zone-end\n```\n::: zone-end\n".toList).map
        (fun l => (l.stop, l.fence, isZoneEnd l.text)) =
      [(17, none, false), (21, some ⟨.backticks, 3, []⟩, false), (34, none, true),
        (38, some ⟨.backticks, 3, []⟩, false), (51, none, true)] := by
    rfl
  obtain ⟨z, _, hz, hkind, -⟩ := List.map_eq_cons_iff.mp hblocks
  obtain ⟨l, after, hl, -, hafter⟩ := List.map_eq_cons_iff.mp hlines
  obtain ⟨opening, _, rfl, hopening, hafter⟩ := List.map_eq_cons_iff.mp hafter
  obtain ⟨ending, _, rfl, hending, hafter⟩ := List.map_eq_cons_iff.mp hafter
  obtain ⟨closing, _, rfl, hclosing, hafter⟩ := List.map_eq_cons_iff.mp hafter
  obtain ⟨last, rfl, hlast⟩ := List.map_eq_singleton_iff.mp hafter
  simp only [Prod.mk.injEq] at hkind hopening hending hclosing hlast
  refine ⟨hmarkdown, z, ?_, hkind.1, hkind.2, l, _, [opening, ending, closing], [last], hl, ?_, ?_⟩
  · rw [hz]
    exact List.mem_cons_self
  · refine ⟨rfl, ?_, ?_⟩
    · intro before u more hsplit hend
      -- Of the lines before the last one only the third one looks like the end of the zone.
      rcases before with _ | ⟨first, _ | ⟨second, _ | ⟨third, before⟩⟩⟩
      · rw [← (List.cons.inj hsplit).1, hopening.2.2] at hend
        cases hend
      · obtain ⟨hfirst, htail⟩ := List.cons.inj hsplit
        obtain ⟨-, hmore⟩ := List.cons.inj htail
        rw [← hfirst, ← hmore]
        refine ⟨_, openCode?_singleton hopening.2.1, closing, by simp, ?_⟩
        rw [hclosing.2.1]
        rfl
      · obtain ⟨-, htail⟩ := List.cons.inj hsplit
        obtain ⟨-, htail⟩ := List.cons.inj htail
        rw [← (List.cons.inj htail).1, hclosing.2.2] at hend
        cases hend
      · simp at hsplit
    · intro u more hsplit
      obtain ⟨hu, hmore⟩ := List.cons.inj hsplit
      rw [← hu, ← hmore]
      refine ⟨hlast.2.2, ?_⟩
      rintro ⟨c, -, v, hv, -⟩
      cases hv
  · exact hlast.1

end ArticleAudit.Document
