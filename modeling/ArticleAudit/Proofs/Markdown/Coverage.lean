import ArticleAudit.Proofs.Markdown.Layout
import Mathlib.Data.List.Chain

/-!
# Built blocks cover their lines

No line is lost: every used line that is not blank lies within a built block, and so does the
opening line or the pending paragraph (`Builds.covers`). Since the blocks are laid out in order,
none is covered twice. Paragraphs end at blank lines and at openers only, so a blank line stands
between two of them that follow one another (`separated_blocksOf`).
-/

set_option autoImplicit false

namespace ArticleAudit.Markdown

open ArticleAudit.Text

variable {source : List Char} {strict : Bool}

/-- The span lies within one of the blocks. -/
def Covered (blocks : List Block) (s : Span) : Prop :=
  ∃ b ∈ blocks, b.span.contains s = true

namespace Covered

variable {a b : List Block} {block : Block} {s s' : Span}

theorem mono (h : Covered a s) (hab : ∀ x ∈ a, x ∈ b) : Covered b s := by
  obtain ⟨x, hx, hcontains⟩ := h
  exact ⟨x, hab x hx, hcontains⟩

theorem left (b : List Block) (h : Covered a s) : Covered (a ++ b) s :=
  h.mono fun _ hx => List.mem_append_left b hx

theorem right (a : List Block) (h : Covered b s) : Covered (a ++ b) s :=
  h.mono fun _ hx => List.mem_append_right a hx

theorem narrow (h : Covered a s) (hstart : s.start ≤ s'.start) (hstop : s'.stop ≤ s.stop) :
    Covered a s' := by
  obtain ⟨x, hx, hcontains⟩ := h
  obtain ⟨h1, h2⟩ := Span.contains_iff.mp hcontains
  exact ⟨x, hx, Span.contains_iff.mpr ⟨h1.trans hstart, hstop.trans h2⟩⟩

/-- What a child covers, its parent covers. -/
theorem parent (hfits : block.Fits source) (h : Covered block.children s) :
    Covered [block] s := by
  obtain ⟨x, hx, hcontains⟩ := h
  obtain ⟨h1, h2⟩ := Span.contains_iff.mp hcontains
  obtain ⟨h3, h4⟩ := hfits.within x hx
  exact ⟨block, List.mem_singleton_self block,
    Span.contains_iff.mpr ⟨h3.trans h1, h2.trans h4⟩⟩

theorem of_span (hspan : block.span = s) : Covered [block] s := by
  refine ⟨block, List.mem_singleton_self block, Span.contains_iff.mpr ?_⟩
  rw [hspan]
  exact ⟨Nat.le_refl _, Nat.le_refl _⟩

end Covered

/-- Every line of a run lies between the start of the first and the end of the last. -/
theorem InOrder.within_run {lo : Nat} {l u : LineFacts} {lines : List LineFacts}
    (h : InOrder source lo (l :: lines)) (hu : u ∈ l :: lines) :
    l.start ≤ u.start ∧ u.stop ≤ (lastLine l lines).stop := by
  refine ⟨?_, h.stop_le_lastLine hu⟩
  rcases List.mem_cons.mp hu with rfl | hu
  · exact Nat.le_refl _
  · have h1 := l.start_le_stop
    have h2 := h.2.1.stop_le_line_stop
    have h3 := h.2.2.le_line_start hu
    have h4 := (h.2.2.sound_of_mem hu).line_start_le
    have h5 := u.content_start_le_start
    omega

theorem covered_run {lo : Nat} {l u : LineFacts} {lines : List LineFacts} {block : Block}
    (h : InOrder source lo (l :: lines)) (hspan : block.span = ⟨l.start, (lastLine l lines).stop⟩)
    (hu : u ∈ l :: lines) : Covered [block] ⟨u.start, u.stop⟩ := by
  obtain ⟨h1, h2⟩ := h.within_run hu
  exact (Covered.of_span hspan).narrow h1 h2

theorem Stage.Ready.stopsBy {lo : Nat} {stage : Stage} (h : stage.Ready source lo) :
    stage.StopsBy (byteSize source) := by
  cases stage with
  | lines pending =>
    intro s hs
    obtain rfl : pending = some s := hs
    exact h.2.1.le
  | opener o l => exact Stage.stopsBy_of_opening_eq rfl h.1.boundary_stop.le
  | list depth marker l => exact Stage.stopsBy_of_opening_eq rfl h.1.boundary_stop.le
  | item depth marker l => exact Stage.stopsBy_of_opening_eq rfl h.1.boundary_stop.le
  | items depth marker => exact nofun
  | inner depth indent => exact nofun

/-- A block that is built from lines in order fits its source. -/
theorem Builds.fits {stage : Stage} {used rest : List LineFacts} {block : Block}
    (h : Builds source strict stage used rest [block]) {lo : Nat}
    (horder : InOrder source lo (used ++ rest)) (hready : stage.Ready source lo) :
    block.Fits source := by
  have hlaid := h.laid horder hready hready.stopsBy
    fun u hu => (horder.left.sound_of_mem hu).boundary_stop.le
  exact (hlaid.sound_of_mem (List.mem_singleton_self block)).toFits

/-- The opening and the used lines that are not blank are covered. -/
def Covers (source : List Char) (stage : Stage) (used rest : List LineFacts)
    (blocks : List Block) : Prop :=
  ∀ {lo : Nat}, InOrder source lo (used ++ rest) → stage.Ready source lo →
    (∀ s, stage.opening = some s → Covered blocks s) ∧
    ∀ u ∈ used, u.isBlank = false → Covered blocks ⟨u.start, u.stop⟩

/-- A block over an opening line and the lines it uses, in front of blocks from the lines after
those. -/
theorem Covers.cons {first later : Stage} {l : LineFacts} {used more rest : List LineFacts}
    {block : Block} {blocks : List Block}
    (hfirst : Covers source first used (more ++ rest) [block])
    (hlater : Covers source later more rest blocks)
    (hopening : first.opening = some ⟨l.start, l.stop⟩) (hnone : later.opening = none)
    (hready : first.Ready source l.line.stop)
    (horder : InOrder source l.line.stop (used ++ more ++ rest)) {u : LineFacts}
    (hu : u ∈ l :: (used ++ more)) (hblank : u.isBlank = false) :
    Covered (block :: blocks) ⟨u.start, u.stop⟩ := by
  rw [List.append_assoc] at horder
  obtain ⟨mid, -, -, hmore⟩ := horder.right
  obtain ⟨hline, hused⟩ := hfirst horder hready
  obtain ⟨-, hrest⟩ := hlater hmore (Stage.ready_of_opening_eq_none hnone mid)
  rcases List.mem_cons.mp hu with rfl | hu
  · exact (hline _ hopening).left blocks
  · rcases List.mem_append.mp hu with hu | hu
    · exact (hused u hu hblank).left blocks
    · exact (hrest u hu hblank).right [block]

theorem Covers.skip {stage : Stage} {passed used rest : List LineFacts} {blocks : List Block}
    (h : Covers source stage used rest blocks) (hnone : stage.opening = none)
    (hblank : ∀ l ∈ passed, l.isBlank = true) :
    Covers source stage (passed ++ used) rest blocks := by
  intro lo horder _
  rw [List.append_assoc] at horder
  obtain ⟨mid, -, -, hused⟩ := horder.right
  obtain ⟨-, hlines⟩ := h hused (Stage.ready_of_opening_eq_none hnone mid)
  refine ⟨fun s hs => by simp [hnone] at hs, ?_⟩
  intro u hu hink
  rcases List.mem_append.mp hu with hu | hu
  · simp [hblank u hu] at hink
  · exact hlines u hu hink

theorem covered_paragraph (source : List Char) (s : Span) :
    Covered (paragraph source (some s)) s :=
  Covered.of_span rfl

/-- Built blocks cover the opening and the used lines that are not blank. -/
theorem Builds.covers {stage : Stage} {used rest : List LineFacts} {blocks : List Block}
    (h : Builds source strict stage used rest blocks) : Covers source stage used rest blocks := by
  induction h with
  | finish pending =>
    intro lo horder hready
    refine ⟨?_, nofun⟩
    rintro s hs
    obtain rfl : pending = some s := hs
    exact covered_paragraph source s
  | @blank pending l used blocks hl _ ih =>
    -- Only the blank line itself is not covered.
    intro lo horder hready
    obtain ⟨-, hlines⟩ := ih horder.2.2 trivial
    constructor
    · intro s hs
      obtain rfl : pending = some s := hs
      exact (covered_paragraph source s).left blocks
    · intro u hu hink
      rcases List.mem_cons.mp hu with rfl | hu
      · simp [hl] at hink
      · exact (hlines u hu hink).right _
  | @opened pending l opener used more block blocks _ hopener _ _ ihblock ihblocks =>
    intro lo horder hready
    rw [← List.append_nil more] at ihblock
    constructor
    · intro s hs
      obtain rfl : pending = some s := hs
      exact (covered_paragraph source s).left _
    · intro u hu hink
      exact (ihblock.cons ihblocks rfl rfl
        ⟨horder.2.1, Nat.le_refl _, openedBy_of_openerOf? hopener⟩ horder.2.2 hu hink).right _
  | @text pending l used blocks hblank _ _ ih =>
    -- The longer paragraph covers both what was pending and the line.
    intro lo horder hready
    obtain ⟨hspan, hlines⟩ := ih horder.2.2 (hready.extendParagraph horder hblank)
    have hextended := hspan _ rfl
    have hle := horder.le_start
    have hline := l.start_le_stop
    constructor
    · intro s hs
      obtain rfl : pending = some s := hs
      have hstop := hready.2.2.2
      exact hextended.narrow (Nat.le_refl _) (hstop.trans (hle.trans hline))
    · intro u hu hink
      rcases List.mem_cons.mp hu with rfl | hu
      · refine hextended.narrow ?_ (Nat.le_refl _)
        cases pending with
        | none => exact Nat.le_refl _
        | some s =>
          obtain ⟨-, -, h3, h4⟩ := hready
          exact (h3.le.trans h4).trans hle
      · exact hlines u hu hink
  | @leaf opener l lines used taken hleaf hlines =>
    -- The block is its whole run of lines.
    intro lo horder hready
    obtain ⟨hl, hlo, hopener⟩ := hready
    have hall : InOrder source l.line.start (l :: lines) := by
      rw [hlines]
      exact ⟨Nat.le_refl _, hl, horder.weaken hlo⟩
    obtain ⟨used', hrun⟩ := exists_takesRun hall hopener hleaf
    obtain rfl : used' = used := List.append_cancel_right (hrun.split.symm.trans hlines)
    rw [hlines] at hall
    constructor
    · intro s hs
      obtain rfl := Option.some.inj hs
      exact covered_run hall.left_cons hrun.span List.mem_cons_self
    · intro u hu _
      exact covered_run hall.left_cons hrun.span (List.mem_cons_of_mem l hu)
  | @zone attributes l lines children _ _ =>
    -- So is a zone, whatever its children cover.
    intro lo horder hready
    obtain ⟨hl, hlo, -⟩ := hready
    have hrun : InOrder source l.line.start (l :: zoneRun lines) :=
      ⟨Nat.le_refl _, hl, (horder.weaken hlo).left⟩
    have hspan := span_zoneBlock attributes children hrun
    constructor
    · intro s hs
      obtain rfl := Option.some.inj hs
      exact covered_run hrun hspan List.mem_cons_self
    · intro u hu _
      exact covered_run hrun hspan (List.mem_cons_of_mem l hu)
  | openedList _ ih => exact ih
  | @list depth marker l used more rest item items hitem hitems ihitem ihitems =>
    -- A list covers what its items do.
    intro lo horder hready
    have hfits := (Builds.list hitem hitems).fits horder hready
    obtain ⟨hl, hlo, hmarker⟩ := hready
    have horder' := horder.weaken hlo
    have hline := horder'
    rw [List.append_assoc] at hline
    constructor
    · intro s hs
      have hcovered := (ihitem hline ⟨hl, Nat.le_refl _, hmarker⟩).1 s hs
      exact Covered.parent hfits (hcovered.left items)
    · intro u hu hink
      exact Covered.parent hfits (ihitem.cons ihitems rfl rfl ⟨hl, Nat.le_refl _, hmarker⟩ horder'
        (List.mem_cons_of_mem l hu) hink)
  | noItem => exact fun _ _ => ⟨nofun, nofun⟩
  | blankItems hblanks _ ih => exact ih.skip rfl hblanks
  | nextItem _ hown _ _ ihitem ihitems =>
    intro lo horder hready
    refine ⟨nofun, ?_⟩
    intro u hu hink
    exact ihitem.cons ihitems rfl rfl
      ⟨horder.2.1, Nat.le_refl _, (Option.filter_eq_some_iff.mp hown).1⟩ horder.2.2 hu hink
  | @item depth marker l used rest inner hinner ih =>
    -- An item covers its first line, and what the blocks inside cover.
    intro lo horder hready
    have hfits := (Builds.item hinner).fits horder hready
    obtain ⟨hl, hlo, hmarker⟩ := hready
    have hlaid := hinner.laid (horder.weaken hlo) trivial nofun
      fun u hu => (horder.left.sound_of_mem hu).boundary_stop.le
    obtain ⟨-, hstop, -⟩ := lastStop_spec hlaid hl.boundary_stop hl.stop_le_line_stop
      hl.boundary_stop.le
    constructor
    · intro s hs
      obtain rfl := Option.some.inj hs
      exact ⟨_, List.mem_singleton_self _, Span.contains_iff.mpr ⟨Nat.le_refl _, hstop⟩⟩
    · intro u hu hink
      exact Covered.parent hfits (((ih (horder.weaken hlo) trivial).2 u hu hink).right _)
  | noInner => exact fun _ _ => ⟨nofun, nofun⟩
  | blankInner hblanks _ ih => exact ih.skip rfl hblanks
  | innerList _ _ hmarker _ _ ihlist ih =>
    intro lo horder hready
    refine ⟨nofun, ?_⟩
    intro u hu hink
    exact ihlist.cons ih rfl rfl ⟨horder.2.1, Nat.le_refl _, hmarker⟩ horder.2.2 hu hink
  | innerFence _ _ _ hf _ _ ihfence ih =>
    intro lo horder hready
    refine ⟨nofun, ?_⟩
    intro u hu hink
    exact ihfence.cons ih rfl rfl ⟨horder.2.1, Nat.le_refl _, hf⟩ horder.2.2 hu hink
  | @innerRow depth indent l used rest blocks _ _ _ _ _ ih =>
    intro lo horder hready
    obtain ⟨-, hlines⟩ := ih horder.2.2 trivial
    refine ⟨nofun, ?_⟩
    intro u hu hink
    rcases List.mem_cons.mp hu with rfl | hu
    · have hrow : Covered [listRow source u] ⟨u.start, u.stop⟩ := Covered.of_span rfl
      exact hrow.left blocks
    · exact (hlines u hu hink).right [listRow source l]

/-- Every line that is not blank lies within a block. -/
theorem covered_blocksOf {lo : Nat} {lines : List LineFacts} (strict : Bool)
    (h : InOrder source lo lines) {u : LineFacts} (hu : u ∈ lines) (hink : u.isBlank = false) :
    Covered (blocksOf source strict lines) ⟨u.start, u.stop⟩ := by
  have hcovers : Covers source (.lines none) lines [] (blocksOf source strict lines) :=
    (builds_blocksOf source strict lines).covers
  have hlines : InOrder source lo (lines ++ []) := by rwa [List.append_nil]
  exact (hcovers hlines trivial).2 u hu hink

/-! ## Paragraphs -/

/-- A blank line stands between two paragraphs. -/
def Separated (lines : List LineFacts) (p q : Block) : Prop :=
  p.kind = .paragraph → q.kind = .paragraph →
    ∃ l ∈ lines, l.isBlank = true ∧ 0 < l.line.start ∧ p.span.stop ≤ l.line.start ∧
      l.line.stop ≤ q.span.start

theorem Separated.mono {lines more : List LineFacts} {p q : Block} (h : Separated lines p q)
    (hmore : ∀ l ∈ lines, l ∈ more) : Separated more p q := by
  intro hp hq
  obtain ⟨l, hl, hblank⟩ := h hp hq
  exact ⟨l, hmore l hl, hblank⟩

/-- No opener makes a paragraph. -/
theorem Builds.kind_ne_paragraph {opener : Opener} {l : LineFacts} {used rest : List LineFacts}
    {block : Block} (h : Builds source strict (.opener opener l) used rest [block]) :
    block.kind ≠ .paragraph := by
  cases h with
  | @leaf _ _ lines _ taken hleaf _ =>
    unfold leafBlock? at hleaf
    split at hleaf
    · next f =>
      obtain rfl := Option.some.inj hleaf
      obtain ⟨tag, hblock⟩ := exists_fenceBlock_eq source l f lines
      rw [hblock]
      exact nofun
    · next heading =>
      obtain rfl := Option.some.inj hleaf
      rcases (headingBlock_spec source l heading).2.2.2.2 with hkind | ⟨hkind, -⟩
      · show (headingBlock source l heading).kind ≠ _
        rw [hkind]
        exact nofun
      · show (headingBlock source l heading).kind ≠ _
        rw [hkind]
        exact nofun
    · next name =>
      obtain rfl := Option.some.inj hleaf
      obtain ⟨content, hblock, -⟩ := exists_noteBlock_eq source l name lines
      rw [hblock]
      exact nofun
    · obtain rfl := Option.some.inj hleaf
      exact nofun
    · cases hleaf
  | zone _ => exact nofun
  | @openedList marker _ _ _ _ hlist =>
    cases hlist with
    | list _ _ =>
      show listKind marker ≠ _
      unfold listKind
      split
      · exact nofun
      · exact nofun

/-- A block that is no paragraph may stand before and after any blocks. -/
theorem isChain_append_cons {lines : List LineFacts} {a b : List Block} {block : Block}
    (ha : a.IsChain (Separated lines)) (hb : b.IsChain (Separated lines))
    (hblock : block.kind ≠ .paragraph) : (a ++ block :: b).IsChain (Separated lines) := by
  refine List.isChain_append.mpr ⟨ha, List.isChain_cons.mpr ⟨?_, hb⟩, ?_⟩
  · intro q _ hp
    exact absurd hp hblock
  · intro p _ q hq _ hkind
    obtain rfl : block = q := by simpa using hq
    exact absurd hkind hblock

theorem isChain_paragraph (lines : List LineFacts) (pending : Option Span) :
    (paragraph source pending).IsChain (Separated lines) := by
  cases pending with
  | none => exact List.IsChain.nil
  | some s => exact List.IsChain.singleton _

/-- Among built blocks, a blank line stands between two paragraphs that follow one another. -/
theorem Builds.separated {stage : Stage} {used rest : List LineFacts} {blocks : List Block}
    (h : Builds source strict stage used rest blocks) {pending : Option Span}
    (hstage : stage = .lines pending) {lo : Nat} (horder : InOrder source lo (used ++ rest))
    (hready : stage.Ready source lo) : blocks.IsChain (Separated used) := by
  induction h generalizing pending lo with
  | finish pending' => exact isChain_paragraph [] pending'
  | @blank pending' l used blocks hl hblocks ih =>
    have hchain := ih rfl horder.2.2 trivial
    have hlaid := hblocks.laid horder.2.2 trivial nofun
      fun u hu => (horder.2.2.left.sound_of_mem hu).boundary_stop.le
    refine List.isChain_append.mpr ⟨isChain_paragraph _ _, ?_, ?_⟩
    · exact hchain.imp fun _ _ h => h.mono fun u hu => List.mem_cons_of_mem l hu
    · -- The blank line follows the pending paragraph and precedes all later blocks.
      intro p hp q hq _ _
      cases pending' with
      | none => simp [paragraph] at hp
      | some s =>
        obtain ⟨-, -, h3, h4⟩ := hready
        obtain rfl : _ = p := by simpa [paragraph] using hp
        have hfirst := horder.1
        refine ⟨l, List.mem_cons_self, hl, ?_, ?_, ?_⟩
        · omega
        · show s.stop ≤ l.line.start
          omega
        · exact (hlaid.within q (List.mem_of_mem_head? hq)).1
  | @opened pending' l opener used more block blocks _ hopener hblock _ _ ihblocks =>
    rw [List.append_nil] at horder
    obtain ⟨mid, -, -, hmore⟩ := horder.2.2.right
    have hchain := ihblocks rfl (by rwa [List.append_nil]) trivial
    refine isChain_append_cons (isChain_paragraph _ _) ?_ hblock.kind_ne_paragraph
    exact hchain.imp fun _ _ h => h.mono fun u hu => List.mem_cons_of_mem l
      (List.mem_append_right used hu)
  | @text pending' l used blocks hblank _ _ ih =>
    obtain rfl : pending' = pending := Stage.lines.inj hstage
    have hchain := ih rfl horder.2.2 (hready.extendParagraph horder hblank)
    exact hchain.imp fun _ _ h => h.mono fun u hu => List.mem_cons_of_mem l hu
  | _ => cases hstage

theorem separated_blocksOf {lo : Nat} {lines : List LineFacts} (strict : Bool)
    (h : InOrder source lo lines) :
    (blocksOf source strict lines).IsChain (Separated lines) := by
  have hlines : InOrder source lo (lines ++ []) := by rwa [List.append_nil]
  exact (builds_blocksOf source strict lines).separated rfl hlines trivial

end ArticleAudit.Markdown
