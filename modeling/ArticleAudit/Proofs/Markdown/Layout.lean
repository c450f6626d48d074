import ArticleAudit.Proofs.Markdown.Building
import ArticleAudit.Proofs.Markdown.Items

/-!
# Built blocks are laid out

The blocks that are built from lines in order start where the reading stands (at the pending
paragraph, at the opening line, or at the first line) and stop by any offset that the opening and
all used lines stop by. A property of blocks between two offsets is a `Layout` when single blocks
pass it on from the blocks inside them and blocks that follow one another join it; every layout
holds of built blocks (`Builds.lays`). Main statement: built blocks are sound at every depth and
follow one another (`Builds.laid`).
-/

set_option autoImplicit false

namespace ArticleAudit.Markdown

open ArticleAudit.Text

variable {source : List Char} {strict : Bool}

/-! ## Openers -/

/-- The line says what it opens. -/
def Opener.OpenedBy (l : LineFacts) : Opener → Prop
  | .fence f => l.fence = some f
  | .zone attributes => l.zone? = some attributes
  | .heading h => l.heading = some h
  | .note name => l.alert? = some name
  | .table => l.isRow = true
  | .list marker => l.marker = some marker

theorem mem_of_firstSome {α : Type} {values : List (Option α)} {a : α}
    (h : firstSome values = some a) : some a ∈ values := by
  induction values with
  | nil => simp [firstSome] at h
  | cons first rest ih =>
    cases first with
    | none => exact List.mem_cons_of_mem _ (ih h)
    | some b =>
      rw [← h]
      exact List.mem_cons_self

theorem openedBy_of_openerOf? {l : LineFacts} {rest : List LineFacts} {opener : Opener}
    (h : openerOf? strict l rest = some opener) : opener.OpenedBy l := by
  have hmem := mem_of_firstSome h
  simp only [List.mem_cons, List.not_mem_nil, or_false] at hmem
  rcases hmem with hmem | hmem | hmem | hmem | hmem | hmem
  · obtain ⟨f, hf, rfl⟩ := Option.map_eq_some_iff.mp hmem.symm
    exact hf
  · obtain ⟨attributes, hattributes, rfl⟩ := Option.map_eq_some_iff.mp hmem.symm
    exact hattributes
  · obtain ⟨heading, hheading, rfl⟩ := Option.map_eq_some_iff.mp hmem.symm
    exact hheading
  · obtain ⟨name, hname, rfl⟩ := Option.map_eq_some_iff.mp hmem.symm
    exact hname
  · obtain ⟨htable, heq⟩ := Option.ite_none_right_eq_some.mp hmem.symm
    obtain rfl := Option.some.inj heq
    exact (Bool.and_eq_true_iff.mp htable).1
  · obtain ⟨marker, hmarker, rfl⟩ := Option.map_eq_some_iff.mp hmem.symm
    exact hmarker

/-- The block of a line that opens no other lines' blocks takes a run of lines. -/
theorem exists_takesRun {lo : Nat} {opener : Opener} {l : LineFacts} {lines : List LineFacts}
    {taken : Taken lines} (h : InOrder source lo (l :: lines)) (hopener : opener.OpenedBy l)
    (hleaf : leafBlock? source opener l lines = some taken) :
    ∃ used, TakesRun source l taken used := by
  unfold leafBlock? at hleaf
  split at hleaf
  · obtain rfl := Option.some.inj hleaf
    exact ⟨_, takesRun_fenceBlock h⟩
  · next heading =>
    obtain rfl := Option.some.inj hleaf
    have hlaid := laid_headingBlock h.2.1 hopener
    exact ⟨[], rfl, (headingBlock_spec source l heading).1, hlaid⟩
  · next name =>
    obtain rfl := Option.some.inj hleaf
    exact ⟨_, takesRun_noteBlock name h⟩
  · obtain rfl := Option.some.inj hleaf
    exact ⟨_, takesRun_tableBlock h⟩
  · cases hleaf

/-! ## Zones -/

theorem span_zoneBlock {lo : Nat} {l : LineFacts} {lines : List LineFacts}
    (attributes : List Char) (children : List Block)
    (h : InOrder source lo (l :: zoneRun lines)) :
    (zoneBlock source l attributes lines children).span =
      ⟨l.start, (lastLine l (zoneRun lines)).stop⟩ := by
  show (⟨l.start, max ((zoneOuter lines).head?.getD (lastLine l (zoneInner lines))).stop
    l.start⟩ : Span) = _
  rw [show (zoneOuter lines).head?.getD (lastLine l (zoneInner lines)) =
    lastLine l (zoneRun lines) from (lastLine_closedRun _ l lines).symm,
    Nat.max_eq_left h.start_le_lastLine]

/-- A zone around the blocks of its inner lines. -/
theorem laid_zoneBlock {lo : Nat} {l : LineFacts} {lines : List LineFacts} {children : List Block}
    (attributes : List Char) (h : InOrder source lo (l :: zoneRun lines))
    (hchildren : Block.Laid source l.line.stop (lastLine l (zoneRun lines)).stop children) :
    Block.Laid source l.start (lastLine l (zoneRun lines)).stop
      [zoneBlock source l attributes lines children] := by
  have hspan := span_zoneBlock attributes children h
  have hstart := l.start_le_stop.trans h.2.1.stop_le_line_stop
  refine laid_run h hspan ?_ (hchildren.weaken hstart (Nat.le_refl _))
    (Block.innerFits_of_none rfl rfl) rfl
  rw [← hspan]
  rfl

/-! ## Paragraphs -/

theorem laid_paragraph {s : Span} (hstart : Boundary source s.start)
    (hstop : Boundary source s.stop) (hle : s.start ≤ s.stop) :
    Block.Laid source s.start s.stop (paragraph source (some s)) := by
  have hlinks := laid_linkBlocks_slice hstart hstop hle
  exact .singleton rfl rfl hstart hstop hle hlinks
    (Block.innerFits_of_boundaries (Block.not_overhangs nofun nofun) rfl rfl hstart hstop
      (Nat.le_refl _) hle (Nat.le_refl _)) rfl

/-! ## Stages -/

namespace Stage

/-- The span that a stage starts with: the pending paragraph, or the opening line. -/
def opening : Stage → Option Span
  | .lines pending => pending
  | .opener _ l | .list _ _ l | .item _ _ l => some ⟨l.start, l.stop⟩
  | .items _ _ | .inner _ _ => none

/-- Where the blocks of a stage start at the earliest, with lines left from `lo` on. -/
def start (lo : Nat) (stage : Stage) : Nat :=
  (stage.opening.map Span.start).getD lo

/-- What has been read before the lines from `lo` on is as the stage says. -/
def Ready (source : List Char) (lo : Nat) : Stage → Prop
  | .lines none => True
  | .lines (some s) =>
    Boundary source s.start ∧ Boundary source s.stop ∧ s.start < s.stop ∧ s.stop ≤ lo
  | .opener o l => l.Sound source ∧ l.line.stop ≤ lo ∧ o.OpenedBy l
  | .list _ marker l | .item _ marker l =>
    l.Sound source ∧ l.line.stop ≤ lo ∧ l.marker = some marker
  | .items _ _ | .inner _ _ => True

/-- The opening of a stage stops by an offset. -/
def StopsBy (hi : Nat) (stage : Stage) : Prop :=
  ∀ s, stage.opening = some s → s.stop ≤ hi

end Stage

theorem Stage.ready_of_opening_eq_none {stage : Stage} (h : stage.opening = none) (lo : Nat) :
    stage.Ready source lo := by
  cases stage with
  | lines pending =>
    obtain rfl : pending = none := h
    trivial
  | items depth marker => trivial
  | inner depth indent => trivial
  | opener o l => cases h
  | list depth marker l => cases h
  | item depth marker l => cases h

theorem Stage.stopsBy_of_opening_eq {stage : Stage} {s : Span} {hi : Nat}
    (hstage : stage.opening = some s) (h : s.stop ≤ hi) : stage.StopsBy hi := by
  intro s' hs
  rw [hstage] at hs
  obtain rfl := Option.some.inj hs
  exact h

/-- A paragraph that takes one more line is pending after that line. -/
theorem Stage.Ready.extendParagraph {lo : Nat} {pending : Option Span} {l : LineFacts}
    {lines : List LineFacts} (h : (Stage.lines pending).Ready source lo)
    (horder : InOrder source lo (l :: lines)) (hblank : l.isBlank = false) :
    (Stage.lines (some (extendParagraph pending l))).Ready source l.line.stop := by
  have hl := horder.2.1
  have hline := hl.stop_le_line_stop
  have hlt := hl.start_lt_stop hblank
  cases pending with
  | none => exact ⟨hl.boundary_start, hl.boundary_stop, hlt, hline⟩
  | some s =>
    obtain ⟨h1, h2, h3, h4⟩ := h
    exact ⟨h1, hl.boundary_stop, h3.trans ((h4.trans horder.le_start).trans_lt hlt), hline⟩

/-! ## Layouts -/

/-- A property of blocks between two offsets that the builders keep. Nothing has it, wider offsets
keep it, and it joins blocks of which the first ones stop by where the others start. A paragraph, a
row and a block of lines that hold no blocks have it; a zone, an item and a list pass it on from the
blocks inside. -/
structure Layout (source : List Char) (L : Nat → Nat → List Block → Prop) : Prop where
  nil : ∀ lo hi, L lo hi []
  weaken : ∀ {lo hi lo' hi' : Nat} {blocks : List Block}, L lo hi blocks → lo' ≤ lo → hi ≤ hi' →
    L lo' hi' blocks
  append : ∀ {lo mid hi : Nat} {a b : List Block}, L lo hi a → L lo mid a → L mid hi b →
    lo ≤ mid → L lo hi (a ++ b)
  paragraph : ∀ {s : Span}, Boundary source s.start → Boundary source s.stop → s.start < s.stop →
    L s.start s.stop (paragraph source (some s))
  leaf : ∀ {lo : Nat} {opener : Opener} {l : LineFacts} {lines used : List LineFacts}
    {taken : Taken lines}, InOrder source lo (l :: lines) → opener.OpenedBy l →
    leafBlock? source opener l lines = some taken → lines = used ++ taken.rest →
    L l.start (lastLine l used).stop [taken.block]
  zone : ∀ {lo : Nat} {l : LineFacts} {attributes : List Char} {lines : List LineFacts}
    {children : List Block}, InOrder source lo (l :: zoneRun lines) → l.zone? = some attributes →
    L l.line.stop (lastLine l (zoneRun lines)).stop children →
    L l.start (lastLine l (zoneRun lines)).stop [zoneBlock source l attributes lines children]
  row : ∀ {l : LineFacts}, l.Sound source → l.isBlank = false →
    L l.start l.stop [listRow source l]
  item : ∀ {hi : Nat} (depth : Nat) {marker : ListMarker} {l : LineFacts} {inner : List Block},
    l.Sound source → l.marker = some marker → L l.line.stop hi inner → l.stop ≤ hi →
    L l.start hi [itemBlock source depth marker l inner]
  list : ∀ {lo hi : Nat} (depth : Nat) (marker : ListMarker) (start : Nat) {item : Block}
    {items : List Block}, item.kind = .listItem → L lo hi (item :: items) →
    L lo hi [listBlock source depth marker start (item :: items)]

/-- From lines in order that a stage is ready for, the blocks are laid out between where the stage
starts and where its opening and the used lines stop. -/
def Lays (L : Nat → Nat → List Block → Prop) (source : List Char) (stage : Stage)
    (used rest : List LineFacts) (blocks : List Block) : Prop :=
  ∀ {lo hi : Nat}, InOrder source lo (used ++ rest) → stage.Ready source lo → stage.StopsBy hi →
    (∀ u ∈ used, u.stop ≤ hi) → L (stage.start lo) hi blocks

/-- An item is built as a block of that kind. -/
theorem Builds.kind_item {depth : Nat} {marker : ListMarker} {l : LineFacts}
    {used rest : List LineFacts} {block : Block}
    (h : Builds source strict (.item depth marker l) used rest [block]) :
    block.kind = .listItem := by
  cases h with
  | item => rfl

section Layout

variable {L : Nat → Nat → List Block → Prop}

/-- Blocks that stop by an offset, then blocks that start from there on. -/
theorem Layout.join (hL : Layout source L) {lo mid hi : Nat} {a b : List Block} (ha : L lo mid a)
    (hb : L mid hi b) (hlo : lo ≤ mid) (hhi : mid ≤ hi) : L lo hi (a ++ b) :=
  hL.append (hL.weaken ha (Nat.le_refl lo) hhi) ha hb hlo

/-- The pending paragraph in front of later blocks. -/
theorem Layout.paragraph_append (hL : Layout source L) {lo mid hi : Nat} {pending : Option Span}
    {blocks : List Block} (h : L mid hi blocks) (hready : (Stage.lines pending).Ready source lo)
    (hstop : (Stage.lines pending).StopsBy hi) (hle : lo ≤ mid) :
    L ((Stage.lines pending).start lo) hi (Markdown.paragraph source pending ++ blocks) := by
  cases pending with
  | none => exact hL.weaken h hle (Nat.le_refl hi)
  | some s =>
    obtain ⟨h1, h2, h3, h4⟩ := hready
    exact hL.join (hL.paragraph h1 h2 h3) (hL.weaken h (h4.trans hle) (Nat.le_refl hi)) h3.le
      (hstop s rfl)

/-- A block over an opening line and the lines it uses, in front of blocks from the lines after
those. -/
theorem Lays.cons (hL : Layout source L) {first later : Stage} {l : LineFacts}
    {used more rest : List LineFacts} {block : Block} {blocks : List Block}
    (hfirst : Lays L source first used (more ++ rest) [block])
    (hlater : Lays L source later more rest blocks)
    (hopening : first.opening = some ⟨l.start, l.stop⟩)
    (hnone : later.opening = none) {hi : Nat} (hl : l.Sound source)
    (hready : first.Ready source l.line.stop)
    (horder : InOrder source l.line.stop (used ++ more ++ rest))
    (hhi : ∀ u ∈ l :: (used ++ more), u.stop ≤ hi) : L l.start hi (block :: blocks) := by
  rw [List.append_assoc] at horder
  obtain ⟨mid, hmid, hused, hmore⟩ := horder.right
  have hline := hl.stop_le_line_stop
  have hstart : first.start l.line.stop = l.start := by
    simp [Stage.start, hopening]
  have hblock : ∀ hi', (∀ u ∈ l :: used, u.stop ≤ hi') → L l.start hi' [block] := by
    intro hi' h
    rw [← hstart]
    exact hfirst horder hready (Stage.stopsBy_of_opening_eq hopening (h l List.mem_cons_self))
      fun u hu => h u (List.mem_cons_of_mem l hu)
  have hblocks : L mid hi blocks := by
    have hstart' : later.start mid = mid := by
      simp [Stage.start, hnone]
    rw [← hstart']
    refine hlater hmore (Stage.ready_of_opening_eq_none hnone mid) ?_ ?_
    · intro s hs
      rw [hnone] at hs
      cases hs
    · intro u hu
      exact hhi u (by simp [hu])
  -- The used lines end by `mid`, so the block does too.
  have hwithin : L l.start mid [block] := by
    apply hblock
    intro u hu
    rcases List.mem_cons.mp hu with rfl | hu
    · exact hline.trans hmid
    · exact (horder.left.sound_of_mem hu).stop_le_line_stop.trans (hused u hu)
  have hbelow : L l.start hi [block] := hblock hi fun u hu => hhi u (List.mem_append_left more hu)
  exact hL.append hbelow hwithin hblocks (l.start_le_stop.trans (hline.trans hmid))

/-- Lines that were passed over do not matter. -/
theorem Lays.skip (hL : Layout source L) {stage : Stage} {passed used rest : List LineFacts}
    {blocks : List Block} (h : Lays L source stage used rest blocks)
    (hnone : stage.opening = none) : Lays L source stage (passed ++ used) rest blocks := by
  intro lo hi horder hready hopening hhi
  rw [List.append_assoc] at horder
  obtain ⟨mid, hmid, -, hused⟩ := horder.right
  have hblocks := h hused (Stage.ready_of_opening_eq_none hnone mid) hopening
    fun u hu => hhi u (List.mem_append_right passed hu)
  simp only [Stage.start, hnone, Option.map_none, Option.getD_none] at hblocks ⊢
  exact hL.weaken hblocks hmid (Nat.le_refl hi)

/-- Every layout holds of built blocks. -/
theorem Builds.lays (hL : Layout source L) {stage : Stage} {used rest : List LineFacts}
    {blocks : List Block} (h : Builds source strict stage used rest blocks) :
    Lays L source stage used rest blocks := by
  induction h with
  | finish pending =>
    intro lo hi horder hready hopening hhi
    have hnil := hL.nil lo hi
    simpa using hL.paragraph_append hnil hready hopening (Nat.le_refl lo)
  | @blank pending l used blocks _ _ ih =>
    -- The pending paragraph stops before the blank line, and the blocks start after it.
    intro lo hi horder hready hopening hhi
    have hblocks := ih horder.2.2 trivial nofun fun u hu => hhi u (List.mem_cons_of_mem l hu)
    exact hL.paragraph_append hblocks hready hopening
      (horder.1.trans (InOrder.line_start_le_stop horder.2.1))
  | @opened pending l opener used more block blocks _ hopener _ _ ihblock ihblocks =>
    -- The opened block leaves no lines but those the later blocks use.
    intro lo hi horder hready hopening hhi
    have hl := horder.2.1
    rw [← List.append_nil more] at ihblock
    have hlater := Lays.cons hL ihblock ihblocks rfl rfl hl
      ⟨hl, Nat.le_refl _, openedBy_of_openerOf? hopener⟩ horder.2.2 hhi
    exact hL.paragraph_append hlater hready hopening horder.le_start
  | @text pending l used blocks hblank _ _ ih =>
    -- The paragraph stays pending, and keeps its start if it had one.
    intro lo hi horder hready hopening hhi
    have hlstop : l.stop ≤ hi := hhi l List.mem_cons_self
    have hready' := hready.extendParagraph horder hblank
    have hblocks := ih horder.2.2 hready' (Stage.stopsBy_of_opening_eq rfl hlstop)
      fun u hu => hhi u (List.mem_cons_of_mem l hu)
    cases pending with
    | none => exact hL.weaken hblocks horder.le_start (Nat.le_refl hi)
    | some s => exact hblocks
  | @leaf opener l lines used taken hleaf hlines =>
    intro lo hi horder hready hopening hhi
    obtain ⟨hl, hlo, hopener⟩ := hready
    have hall : InOrder source l.line.start (l :: lines) := by
      rw [hlines]
      exact ⟨Nat.le_refl _, hl, horder.weaken hlo⟩
    exact hL.weaken (hL.leaf hall hopener hleaf hlines) (Nat.le_refl _)
      (lastLine_stop_le (hopening _ rfl) hhi)
  | @zone attributes l lines children _ ih =>
    -- The inner lines are a first part of the run of the zone.
    intro lo hi horder hready hopening hhi
    obtain ⟨hl, hlo, hopener⟩ := hready
    have hrun : InOrder source l.line.start (l :: zoneRun lines) :=
      ⟨Nat.le_refl _, hl, (horder.weaken hlo).left⟩
    have hinner : InOrder source l.line.stop (zoneInner lines ++ []) := by
      rw [List.append_nil]
      exact hrun.2.2.left
    have hchildren := ih hinner trivial nofun fun u hu =>
      hrun.stop_le_lastLine (List.mem_cons_of_mem l (List.mem_append_left _ hu))
    exact hL.weaken (hL.zone hrun hopener hchildren) (Nat.le_refl _)
      (lastLine_stop_le (hopening _ rfl) hhi)
  | openedList _ ih => exact ih
  | @list depth marker l used more rest item items hitem _ ihitem ihitems =>
    -- The line that opens the list opens its first item too.
    intro lo hi horder hready hopening hhi
    obtain ⟨hl, hlo, hmarker⟩ := hready
    refine hL.list depth marker l.start hitem.kind_item (Lays.cons hL ihitem ihitems rfl rfl hl
      ⟨hl, Nat.le_refl _, hmarker⟩ (horder.weaken hlo) ?_)
    intro u hu
    rcases List.mem_cons.mp hu with rfl | hu
    · exact hopening _ rfl
    · exact hhi u hu
  | noItem => exact fun _ _ _ _ => hL.nil _ _
  | blankItems _ _ ih => exact ih.skip hL rfl
  | @nextItem depth marker own l used more rest item items _ hown _ _ ihitem ihitems =>
    intro lo hi horder hready hopening hhi
    have hmarker : l.marker = some own := (Option.filter_eq_some_iff.mp hown).1
    have hitems := Lays.cons hL ihitem ihitems rfl rfl horder.2.1
      ⟨horder.2.1, Nat.le_refl _, hmarker⟩ horder.2.2 hhi
    exact hL.weaken hitems horder.le_start (Nat.le_refl hi)
  | item _ ih =>
    intro lo hi horder hready hopening hhi
    obtain ⟨hl, hlo, hmarker⟩ := hready
    exact hL.item _ hl hmarker (ih (horder.weaken hlo) trivial nofun hhi) (hopening _ rfl)
  | noInner => exact fun _ _ _ _ => hL.nil _ _
  | blankInner _ _ ih => exact ih.skip hL rfl
  | innerList _ _ hmarker _ _ ihlist ih =>
    intro lo hi horder hready hopening hhi
    have hblocks := Lays.cons hL ihlist ih rfl rfl horder.2.1
      ⟨horder.2.1, Nat.le_refl _, hmarker⟩ horder.2.2 hhi
    exact hL.weaken hblocks horder.le_start (Nat.le_refl hi)
  | innerFence _ _ _ hf _ _ ihfence ih =>
    intro lo hi horder hready hopening hhi
    have hblocks := Lays.cons hL ihfence ih rfl rfl horder.2.1
      ⟨horder.2.1, Nat.le_refl _, hf⟩ horder.2.2 hhi
    exact hL.weaken hblocks horder.le_start (Nat.le_refl hi)
  | @innerRow depth indent l used rest blocks hblank _ _ _ _ ih =>
    intro lo hi horder hready hopening hhi
    have hl := horder.2.1
    have hblocks := ih horder.2.2 trivial nofun fun u hu => hhi u (List.mem_cons_of_mem l hu)
    have hrow := hL.join (hL.row hl hblank)
      (hL.weaken hblocks hl.stop_le_line_stop (Nat.le_refl hi)) l.start_le_stop
      (hhi l List.mem_cons_self)
    exact hL.weaken hrow horder.le_start (Nat.le_refl hi)

end Layout

/-! ## Sound blocks -/

/-- Blocks that are sound and in order are a layout. -/
theorem layout_laid (source : List Char) : Layout source (Block.Laid source) where
  nil := .nil source
  weaken h := h.weaken
  append ha hwithin hb hlo := ha.append_of_within hwithin.within hb hlo
  paragraph hstart hstop hlt := laid_paragraph hstart hstop hlt.le
  leaf := by
    -- The used lines are the run that the opener takes.
    intro lo opener l lines used taken horder hopener hleaf hlines
    obtain ⟨used', hrun⟩ := exists_takesRun horder hopener hleaf
    obtain rfl : used' = used := List.append_cancel_right (hrun.split.symm.trans hlines)
    exact hrun.laid
  zone horder _ hchildren := laid_zoneBlock _ horder hchildren
  row hl _ := laid_listRow hl
  item depth _ _ _ hl hmarker hinner hstop := laid_itemBlock depth hl hmarker hinner hstop
  list depth marker start _ _ _ h := laid_listBlock depth marker start h

/-- Built blocks are laid out. -/
theorem Builds.laid {stage : Stage} {used rest : List LineFacts} {blocks : List Block}
    (h : Builds source strict stage used rest blocks) :
    Lays (Block.Laid source) source stage used rest blocks :=
  h.lays (layout_laid source)

/-- Every layout holds of the blocks of lines in order, from where the lines start. -/
theorem Layout.blocksOf {L : Nat → Nat → List Block → Prop} (hL : Layout source L) {lo hi : Nat}
    {lines : List LineFacts} (strict : Bool) (h : InOrder source lo lines)
    (hhi : ∀ l ∈ lines, l.stop ≤ hi) : L lo hi (blocksOf source strict lines) :=
  (builds_blocksOf source strict lines).lays hL (by rwa [List.append_nil]) trivial nofun hhi

/-- The blocks of lines in order are laid out from where the lines start. -/
theorem laid_blocksOf {lo hi : Nat} {lines : List LineFacts} (strict : Bool)
    (h : InOrder source lo lines) (hhi : ∀ l ∈ lines, l.stop ≤ hi) :
    Block.Laid source lo hi (blocksOf source strict lines) :=
  (layout_laid source).blocksOf strict h hhi

end ArticleAudit.Markdown
