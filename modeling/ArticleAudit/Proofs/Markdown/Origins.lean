import ArticleAudit.Proofs.Markdown.Zones

/-!
# The lines that blocks come from

A paragraph is the text of a span, a tab is made by a heading line, and fenced code by a fence and
the lines after it (`Origin`). A zone is opened by a line and takes the lines after it, and the
blocks in the zone come from its inner lines alone. `ReadFrom` says this of blocks at every depth,
and it holds of the blocks of lines (`readFrom_blocksOf`).

A block that is read from lines stands among the lines of the document or among the inner lines of
the innermost zone around it. `StandsAmong` goes down to the block and finds them: only a zone that
is a block changes the lines, and not a line that merely looks like the opening of one.
-/

set_option autoImplicit false

namespace ArticleAudit.Markdown

open ArticleAudit.Text

variable {source : List Char} {strict : Bool} {lines more : List LineFacts} {blocks : List Block}

/-! ## Origins -/

/-- What a paragraph, a tab and fenced code come from. -/
structure Origin (source : List Char) (lines : List LineFacts) (b : Block) : Prop where
  paragraph : b.kind = .paragraph → ∃ s, b ∈ paragraph source (some s)
  tab : b.kind = .conceptualTab → ∃ l ∈ lines, ∃ h, l.heading = some h ∧ b = headingBlock source l h
  code : b.kind = .codeFence → ∃ before l after f, lines = before ++ l :: after ∧
    l.fence = some f ∧ b = (fenceBlock source l f after).block

/-- A block that is no paragraph, no tab, no code and no zone. -/
def Unsourced (b : Block) : Prop :=
  b.kind ≠ .paragraph ∧ b.kind ≠ .conceptualTab ∧ b.kind ≠ .codeFence ∧ b.kind ≠ .zonePivot

theorem Unsourced.origin {b : Block} (h : Unsourced b) : Origin source lines b :=
  ⟨fun hkind => absurd hkind h.1, fun hkind => absurd hkind h.2.1,
    fun hkind => absurd hkind h.2.2.1⟩

theorem unsourced_of_part {b : Block} (h : Part b) : Unsourced b := by
  unfold Part at h
  unfold Unsourced
  revert h
  cases b.kind <;> decide

theorem Origin.of_suffix {b : Block} (h : Origin source lines b) (hsuffix : lines <:+ more) :
    Origin source more b := by
  refine ⟨h.paragraph, fun hkind => ?_, fun hkind => ?_⟩
  · obtain ⟨l, hl, hheading⟩ := h.tab hkind
    exact ⟨l, hsuffix.subset hl, hheading⟩
  · obtain ⟨before, l, after, f, rfl, hcode⟩ := h.code hkind
    obtain ⟨front, rfl⟩ := hsuffix
    exact ⟨front ++ before, l, after, f, (List.append_assoc ..).symm, hcode⟩

/-- Blocks are read from lines: each block comes from the lines, and so do those in it, except that
the blocks in a zone are read from the inner lines of the zone. -/
inductive ReadFrom (source : List Char) : List LineFacts → List Block → Prop
  | nil {lines : List LineFacts} : ReadFrom source lines []
  | block {lines : List LineFacts} {b : Block} {rest : List Block} :
    b.kind ≠ .zonePivot → Origin source lines b → ReadFrom source lines b.children →
    ReadFrom source lines rest → ReadFrom source lines (b :: rest)
  | zone {lines before after : List LineFacts} {l : LineFacts} {attributes : List Char} {z : Block}
      {rest : List Block} :
    lines = before ++ l :: after → l.zone? = some attributes → z.kind = .zonePivot →
    IsZone l attributes after z → ReadFrom source (zoneInner after) z.children →
    ReadFrom source lines rest → ReadFrom source lines (z :: rest)

namespace ReadFrom

variable {b : Block} {rest : List Block}

theorem append (h : ReadFrom source lines blocks) (hrest : ReadFrom source lines rest) :
    ReadFrom source lines (blocks ++ rest) := by
  induction h with
  | nil => exact hrest
  | block hkind horigin hchildren _ _ ih => exact .block hkind horigin hchildren (ih hrest)
  | zone hlines hzone hkind hblock hchildren _ _ ih =>
    exact .zone hlines hzone hkind hblock hchildren (ih hrest)

theorem cons (hb : ReadFrom source lines [b]) (hrest : ReadFrom source lines rest) :
    ReadFrom source lines (b :: rest) :=
  hb.append hrest

/-- What is read from lines is read from more lines that end with them. -/
theorem of_suffix (h : ReadFrom source lines blocks) (hsuffix : lines <:+ more) :
    ReadFrom source more blocks := by
  induction h with
  | nil => exact .nil
  | block hkind horigin _ _ ihchildren ihrest =>
    exact .block hkind (horigin.of_suffix hsuffix) (ihchildren hsuffix) (ihrest hsuffix)
  | zone hlines hzone hkind hblock hchildren _ _ ihrest =>
    -- The lines of the zone stay, and only those before it get more.
    obtain ⟨front, rfl⟩ := hsuffix
    rw [hlines, ← List.append_assoc]
    refine .zone rfl hzone hkind hblock hchildren ?_
    rw [List.append_assoc, ← hlines]
    exact ihrest (List.suffix_append front _)

/-- A block, and the blocks of the lines after those it takes. -/
theorem cons_later {used left : List LineFacts} (hb : ReadFrom source (used ++ (more ++ left)) [b])
    (h : ReadFrom source (more ++ left) blocks) :
    ReadFrom source (used ++ more ++ left) (b :: blocks) := by
  rw [List.append_assoc]
  exact hb.cons (h.of_suffix (List.suffix_append _ _))

/-- Blocks of other kinds are read from any lines. -/
theorem of_unsourced (h : Block.Throughout Unsourced blocks) : ReadFrom source lines blocks := by
  induction blocks using Block.forest_induction with
  | nil => exact .nil
  | cons b rest ihchildren ihrest =>
    obtain ⟨hb, hchildren, hrest⟩ := Block.throughout_cons.mp h
    exact .block hb.2.2.2 hb.origin (ihchildren hchildren) (ihrest hrest)

theorem of_parts (h : Block.Throughout Part blocks) : ReadFrom source lines blocks :=
  of_unsourced (h.mono fun _ => unsourced_of_part)

/-- A block of another kind around blocks that are read from the lines. -/
theorem around (hb : Unsourced b) (h : ReadFrom source lines b.children) :
    ReadFrom source lines [b] :=
  .block hb.2.2.2 hb.origin h .nil

end ReadFrom

theorem readFrom_links (base : Nat) (cs : List Char) :
    ReadFrom source lines (linkBlocks base cs) :=
  .of_parts (part_linkBlocks base cs)

theorem readFrom_paragraph (pending : Option Span) :
    ReadFrom source lines (paragraph source pending) := by
  cases pending with
  | none => exact .nil
  | some s =>
    obtain ⟨-, hparts⟩ := @parts_paragraph source (some s) _ List.mem_cons_self
    exact .block nofun ⟨fun _ => ⟨s, List.mem_cons_self⟩, nofun, nofun⟩ (.of_parts hparts) .nil

/-- A block that holds no other lines' blocks comes from its line. -/
theorem readFrom_leaf {opener : Opener} {l : LineFacts} {taken : Taken lines}
    (hopened : opener.OpenedBy l) (h : leafBlock? source opener l lines = some taken) :
    ReadFrom source (l :: lines) [taken.block] := by
  obtain ⟨hleaf, hparts⟩ := parts_leaf h
  have hzone : taken.block.kind ≠ .zonePivot := by
    intro hkind
    rw [hkind] at hleaf
    cases hleaf
  refine .block hzone ?_ (.of_parts hparts) .nil
  unfold leafBlock? at h
  split at h
  · next f =>
    obtain rfl := Option.some.inj h
    have hkind := (parts_fenceBlock source l f lines).1
    exact ⟨by rw [hkind]; nofun, by rw [hkind]; nofun,
      fun _ => ⟨[], l, lines, f, rfl, hopened, rfl⟩⟩
  · next heading =>
    obtain rfl := Option.some.inj h
    refine ⟨?_, fun _ => ⟨l, List.mem_cons_self, heading, hopened, rfl⟩, ?_⟩ <;>
    · rcases (parts_headingBlock source l heading).1 with hkind | hkind <;>
      · rw [hkind]
        nofun
  · next name =>
    obtain rfl := Option.some.inj h
    have hkind := (parts_noteBlock source l name lines).1
    exact Unsourced.origin (by simp [Unsourced, hkind])
  · obtain rfl := Option.some.inj h
    exact Unsourced.origin ⟨nofun, nofun, nofun, nofun⟩
  · cases h

/-! ## Built blocks

The induction is on how the blocks are built. It carries all lines from the one that is read to the
end, those that a stage leaves to the next one included, since code that nothing closes takes all
lines after its fence.
-/

/-- The line of a stage opens what the stage says. -/
def Stage.Opened : Stage → Prop
  | .opener o l => o.OpenedBy l
  | _ => True

/-- The blocks of a stage are read from its line and the lines after it, those that it leaves
included. -/
theorem Builds.readFrom {stage : Stage} {used rest : List LineFacts}
    (h : Builds source strict stage used rest blocks) (hopened : stage.Opened) :
    ReadFrom source (stage.opens ++ (used ++ rest)) blocks := by
  induction h with
  | finish pending => exact readFrom_paragraph pending
  | blank _ _ ih =>
    exact (readFrom_paragraph _).append ((ih trivial).of_suffix (List.suffix_cons _ _))
  | @opened pending l opener used more block blocks _ hopener _ _ ihblock ihblocks =>
    have hblock : ReadFrom source (l :: (used ++ more)) [block] :=
      ihblock (openedBy_of_openerOf? hopener)
    have hblocks : ReadFrom source more blocks := by
      have hmore := ihblocks trivial
      rwa [List.append_nil] at hmore
    have hsuffix : more <:+ l :: (used ++ more) :=
      (List.suffix_append used more).trans (List.suffix_cons l _)
    refine (readFrom_paragraph _).append ?_
    rw [List.append_nil]
    exact hblock.cons (hblocks.of_suffix hsuffix)
  | text _ _ _ ih => exact (ih trivial).of_suffix (List.suffix_cons _ _)
  | leaf hleaf hlines =>
    rw [← hlines]
    exact readFrom_leaf hopened hleaf
  | @zone attributes l lines children hinner ih =>
    have hchildren : ReadFrom source (zoneInner lines) children := by
      have hread := ih trivial
      rwa [List.append_nil] at hread
    have hall : zoneRun lines ++ (zoneOuter lines).tail = lines := closedRun_append _ lines
    rw [hall]
    exact .zone (List.nil_append _).symm hopened rfl (isZone_zoneBlock hinner) hchildren .nil
  | openedList _ ih => exact (ih trivial).of_suffix (List.suffix_cons _ _)
  | @list depth marker l used more rest item items _ _ ihitem ihitems =>
    have hitem : ReadFrom source (used ++ (more ++ rest)) [item] := ihitem trivial
    have hkind : (listBlock source depth marker l.start (item :: items)).kind = listKind marker :=
      rfl
    refine .around ?_ (hitem.cons_later (ihitems trivial))
    rw [Unsourced, hkind, listKind]
    split <;> simp
  | noItem => exact .nil
  | blankItems _ _ ih =>
    rw [List.append_assoc]
    exact (ih trivial).of_suffix (List.suffix_append _ _)
  | @nextItem depth marker own l used more rest item items _ _ _ _ ihitem ihitems =>
    have hitem : ReadFrom source (used ++ (more ++ rest)) [item] := ihitem trivial
    exact (hitem.cons_later (ihitems trivial)).of_suffix (List.suffix_cons _ _)
  | item _ ih =>
    exact .around ⟨nofun, nofun, nofun, nofun⟩ ((readFrom_links _ _).append (ih trivial))
  | noInner => exact .nil
  | blankInner _ _ ih =>
    rw [List.append_assoc]
    exact (ih trivial).of_suffix (List.suffix_append _ _)
  | @innerList depth indent own l used more rest list blocks _ _ _ _ _ ihlist ih =>
    have hlist : ReadFrom source (used ++ (more ++ rest)) [list] := ihlist trivial
    exact (hlist.cons_later (ih trivial)).of_suffix (List.suffix_cons _ _)
  | @innerFence depth indent f l used more rest fence blocks _ _ _ hfence _ _ ihfence ih =>
    -- The fence is opened by the line of the item, which the stage of its lines does not name.
    have hcode : ReadFrom source (l :: used ++ (more ++ rest)) [fence] := ihfence hfence
    exact hcode.cons_later (ih trivial)
  | innerRow _ _ _ _ _ ih =>
    refine ReadFrom.cons (.around ⟨nofun, nofun, nofun, nofun⟩ (readFrom_links _ _)) ?_
    exact (ih trivial).of_suffix (List.suffix_cons _ _)

/-- The blocks of lines are read from the lines. -/
theorem readFrom_blocksOf (source : List Char) (strict : Bool) (lines : List LineFacts) :
    ReadFrom source lines (blocksOf source strict lines) := by
  have hread := (builds_blocksOf source strict lines).readFrom trivial
  rwa [List.append_nil] at hread

/-! ## The lines around a block -/

/-- Below a forest that is read from given lines, the block stands among the lines: siblings stand
among the same lines, and so do the blocks in a block, except that the blocks in a zone stand among
its inner lines. -/
inductive StandsAmong (lines : List LineFacts) (blocks : List Block) :
    Block → List LineFacts → Prop
  | top {b : Block} : b ∈ blocks → StandsAmong lines blocks b lines
  | child {b c : Block} {around : List LineFacts} : StandsAmong lines blocks b around →
    b.kind ≠ .zonePivot → c ∈ b.children → StandsAmong lines blocks c around
  | inZone {z c : Block} {around before after : List LineFacts} {l : LineFacts} :
    StandsAmong lines blocks z around → z.kind = .zonePivot → around = before ++ l :: after →
    l.zone?.isSome = true → l.start = z.span.start → c ∈ z.children →
    StandsAmong lines blocks c (zoneInner after)

theorem InOrder.start_lt_of_later {lo : Nat} {e w : LineFacts} (h : InOrder source lo (e :: lines))
    (hink : e.isBlank = false) (hw : w ∈ lines) : e.start < w.start := by
  have h1 := h.2.1.start_lt_stop hink
  have h2 := h.2.1.stop_le_line_stop
  have h3 := h.2.2.le_line_start hw
  have h4 := (h.2.2.sound_of_mem hw).line_start_le
  have h5 := w.content_start_le_start
  omega

/-- Of lines in order, those after a line that opens a zone are found by where that line starts. -/
theorem InOrder.after_unique {lo : Nat} {l l' : LineFacts}
    {before after before' after' : List LineFacts} (h : InOrder source lo lines)
    (hlines : lines = before ++ l :: after) (hlines' : lines = before' ++ l' :: after')
    (hl : l.zone?.isSome = true) (hl' : l'.zone?.isSome = true) (hstart : l.start = l'.start) :
    after = after' := by
  have hink : ∀ u ∈ lines, u.zone?.isSome = true → u.isBlank = false := by
    intro u hu hzone
    obtain ⟨attributes, hzone⟩ := Option.isSome_iff_exists.mp hzone
    exact LineFacts.isBlank_of_ink (h.sound_of_mem hu).described (LineFacts.ink_of_zone hzone)
  -- If they were two lines, one would stand after the other and start later.
  have hlater : ∀ {front mid back : List LineFacts} {u v : LineFacts},
      lines = front ++ u :: (mid ++ v :: back) → u.zone?.isSome = true → u.start < v.start := by
    rintro front mid back u v rfl hu
    obtain ⟨lo', -, -, hrest⟩ := h.right
    exact hrest.start_lt_of_later (hink u (by simp) hu) (by simp)
  rcases List.append_eq_append_iff.mp (hlines.symm.trans hlines') with
    ⟨mid, hbefore, hmid⟩ | ⟨mid, hbefore, hmid⟩
  · cases mid with
    | nil => exact (List.cons.inj hmid).2
    | cons u mid =>
      obtain ⟨rfl, rfl⟩ := List.cons.inj hmid
      exact absurd hstart (Nat.ne_of_lt (hlater hlines hl))
  · cases mid with
    | nil => exact (List.cons.inj hmid).2.symm
    | cons u mid =>
      obtain ⟨rfl, rfl⟩ := List.cons.inj hmid
      exact absurd hstart.symm (Nat.ne_of_lt (hlater hlines' hl'))

/-- A block that is read from lines comes from one of them, or it is a zone that one of them
opens, and the blocks in it are read from the lines that this says. -/
theorem ReadFrom.of_mem {b : Block} (h : ReadFrom source lines blocks) (hb : b ∈ blocks) :
    b.kind ≠ .zonePivot ∧ Origin source lines b ∧ ReadFrom source lines b.children ∨
      b.kind = .zonePivot ∧ ∃ before l after attributes, lines = before ++ l :: after ∧
        l.zone? = some attributes ∧ IsZone l attributes after b ∧
        ReadFrom source (zoneInner after) b.children := by
  induction h with
  | nil => cases hb
  | block hkind horigin hchildren _ _ ih =>
    rcases List.mem_cons.mp hb with rfl | hb
    · exact .inl ⟨hkind, horigin, hchildren⟩
    · exact ih hb
  | zone hlines hzone hkind hblock hchildren _ _ ih =>
    rcases List.mem_cons.mp hb with rfl | hb
    · exact .inr ⟨hkind, _, _, _, _, hlines, hzone, hblock, hchildren⟩
    · exact ih hb

theorem InOrder.zoneInner {lo : Nat} {l : LineFacts} {before after : List LineFacts}
    (h : InOrder source lo (before ++ l :: after)) :
    ∃ lo', InOrder source lo' (Markdown.zoneInner after) := by
  obtain ⟨lo', -, -, hrest⟩ := h.right
  have hafter := hrest.2.2
  rw [← zoneInner_append_zoneOuter after] at hafter
  exact ⟨_, hafter.left⟩

/-- The lines that a block stands among are in order, and the block and its siblings are read from
them. -/
theorem StandsAmong.readFrom {lo : Nat} {b : Block} {around : List LineFacts}
    (h : StandsAmong lines blocks b around) (hread : ReadFrom source lines blocks)
    (horder : InOrder source lo lines) :
    (∃ lo', InOrder source lo' around) ∧
      ∃ siblings, b ∈ siblings ∧ ReadFrom source around siblings := by
  -- Going down the blocks, siblings are carried along with the lines that they are read from.
  induction h with
  | top hb => exact ⟨⟨lo, horder⟩, blocks, hb, hread⟩
  | child _ hkind hc ih =>
    obtain ⟨haround, siblings, hb, hsiblings⟩ := ih
    rcases hsiblings.of_mem hb with ⟨-, -, hchildren⟩ | ⟨hzone, -⟩
    · exact ⟨haround, _, hc, hchildren⟩
    · exact absurd hzone hkind
  | inZone _ hkind hlines hzone hstart hc ih =>
    obtain ⟨⟨lo', haround⟩, siblings, hb, hsiblings⟩ := ih
    rcases hsiblings.of_mem hb with ⟨hno, -⟩ | ⟨-, before', l', after', attributes, hlines', hzone',
      hblock, hchildren⟩
    · exact absurd hkind hno
    · -- Both lines open the zone, so they are the same one.
      have hstart' := hstart.trans (congrArg Span.start hblock.span)
      obtain rfl := haround.after_unique hlines hlines' hzone (by rw [hzone']; rfl) hstart'
      rw [hlines] at haround
      exact ⟨haround.zoneInner, _, hc, hchildren⟩

/-- Every block stands among some lines. -/
theorem ReadFrom.exists_standsAmong {around : List LineFacts} {siblings : List Block}
    (h : ReadFrom source around siblings)
    (hstands : ∀ b ∈ siblings, StandsAmong lines blocks b around) :
    Block.Throughout (fun b => ∃ around', StandsAmong lines blocks b around') siblings := by
  induction h with
  | nil => exact Block.throughout_nil
  | block hkind _ _ _ ihchildren ihrest =>
    obtain ⟨hb, hrest⟩ := List.forall_mem_cons.mp hstands
    exact Block.throughout_cons.mpr
      ⟨⟨_, hb⟩, ihchildren fun c hc => .child hb hkind hc, ihrest hrest⟩
  | zone hlines hzone hkind hblock _ _ ihchildren ihrest =>
    obtain ⟨hz, hrest⟩ := List.forall_mem_cons.mp hstands
    have hstart := (congrArg Span.start hblock.span).symm
    have hchildren := ihchildren fun c hc =>
      .inZone hz hkind hlines (by rw [hzone]; rfl) hstart hc
    exact Block.throughout_cons.mpr ⟨⟨_, hz⟩, hchildren, ihrest hrest⟩

end ArticleAudit.Markdown
