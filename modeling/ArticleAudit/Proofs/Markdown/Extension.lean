import ArticleAudit.Proofs.Markdown.Marks
import ArticleAudit.Proofs.Markdown.Strictness
import Mathlib

/-!
# Reading lines part by part

Lines may be read in parts where the first part ends with a blank line and its last block is closed
there (`blocksOf_append`). Every builder looks ahead, so each one is shown to stop within the first
part where it stopped before its end: with more lines after them the same block is built and the
same lines are left in front of the later ones (`Taken.Extends`). A fence and a zone stop where a
line is left, a list stops where a line is left that is not blank (`extends_take`). Blocks that end
at a blank line always stop there.
-/

set_option autoImplicit false

namespace ArticleAudit.Markdown

open ArticleAudit.Text

variable {source : List Char} {strict : Bool}

/-- With more lines after them the same block is built, and the same lines are left before the later
ones. -/
structure Taken.Extends {lines more : List LineFacts} (taken : Taken lines)
    (taken' : Taken (lines ++ more)) : Prop where
  block : taken'.block = taken.block
  rest : taken'.rest = taken.rest ++ more

/-- With more lines after them the same blocks are built, and the same lines are left before the
later ones. -/
structure TakenAll.Extends {lines more : List LineFacts} (taken : TakenAll lines)
    (taken' : TakenAll (lines ++ more)) : Prop where
  blocks : taken'.blocks = taken.blocks
  rest : taken'.rest = taken.rest ++ more

/-- Some line is not blank. -/
def HasText (lines : List LineFacts) : Prop :=
  ∃ l ∈ lines, l.isBlank = false

theorem HasText.of_suffix {lines later : List LineFacts} (h : HasText later)
    (hsuffix : later <:+ lines) : HasText lines := by
  obtain ⟨l, hl, htext⟩ := h
  exact ⟨l, hsuffix.mem hl, htext⟩

theorem HasText.ne_nil {lines : List LineFacts} (h : HasText lines) : lines ≠ [] := by
  rintro rfl
  obtain ⟨l, hl, -⟩ := h
  cases hl

/-! ## Runs that stop -/

/-- A run that stops before the end is the same with more lines after it. -/
theorem run_append {p : LineFacts → Bool} {lines : List LineFacts} (more : List LineFacts)
    (h : lines.dropWhile p ≠ []) :
    (lines ++ more).takeWhile p = lines.takeWhile p ∧
      (lines ++ more).dropWhile p = lines.dropWhile p ++ more := by
  have hlength : (lines.takeWhile p).length ≠ lines.length := by
    intro hlength
    have hsplit := congrArg List.length (List.takeWhile_append_dropWhile (p := p) (l := lines))
    rw [List.length_append, hlength] at hsplit
    exact h (List.length_eq_zero_iff.mp (by omega))
  rw [List.takeWhile_append, List.dropWhile_append, if_neg hlength, if_neg (by simpa using h)]
  exact ⟨rfl, rfl⟩

theorem dropWhile_ne_nil {p : LineFacts → Bool} {lines : List LineFacts} {l : LineFacts}
    (hl : l ∈ lines) (hp : p l = false) : lines.dropWhile p ≠ [] := by
  intro h
  have := List.dropWhile_eq_nil_iff.mp h l hl
  rw [hp] at this
  cases this

theorem ne_nil_of_tail {lines : List LineFacts} (h : lines.tail ≠ []) : lines ≠ [] := by
  rintro rfl
  exact h rfl

theorem extends_fenceBlock (l : LineFacts) (f : Fence) {lines : List LineFacts}
    (more : List LineFacts) (h : (fenceBlock source l f lines).rest ≠ []) :
    (fenceBlock source l f lines).Extends (fenceBlock source l f (lines ++ more)) := by
  have hdrop : (lines.dropWhile fun c => !f.isClosedBy c.fence) ≠ [] := ne_nil_of_tail h
  obtain ⟨hbody, hrest⟩ := run_append more hdrop
  constructor
  · simp only [fenceBlock, hbody, hrest, List.head?_append_of_ne_nil _ hdrop]
  · simp only [fenceBlock, hrest, List.tail_append_of_ne_nil hdrop]

theorem extends_noteBlock (l : LineFacts) (name : List Char) {lines : List LineFacts}
    (more : List LineFacts) (h : (noteBlock source l name lines).rest ≠ []) :
    (noteBlock source l name lines).Extends (noteBlock source l name (lines ++ more)) := by
  obtain ⟨hbody, hrest⟩ := run_append more h
  constructor
  · simp only [noteBlock, hbody]
  · simp only [noteBlock, hrest]

theorem extends_tableBlock (l : LineFacts) {lines : List LineFacts} (more : List LineFacts)
    (h : (tableBlock source l lines).rest ≠ []) :
    (tableBlock source l lines).Extends (tableBlock source l (lines ++ more)) := by
  obtain ⟨hbody, hrest⟩ := run_append more h
  constructor
  · simp only [tableBlock, hbody]
  · simp only [tableBlock, hrest]

theorem extends_zone (l : LineFacts) (attributes : List Char) {lines : List LineFacts}
    (more : List LineFacts) (h : (zoneOuter lines).tail ≠ []) :
    (openBlock source strict (.zone attributes) l lines).Extends
      (openBlock source strict (.zone attributes) l (lines ++ more)) := by
  have houter : zoneOuter lines ≠ [] := ne_nil_of_tail h
  obtain ⟨hinner', houter'⟩ := run_append more houter
  have hinner : zoneInner (lines ++ more) = zoneInner lines := hinner'
  have houter : zoneOuter (lines ++ more) = zoneOuter lines ++ more := houter'
  constructor
  · simp only [openBlock, zoneBlock, hinner, houter,
      List.head?_append_of_ne_nil _ (ne_nil_of_tail h)]
  · simp only [openBlock, houter, List.tail_append_of_ne_nil (ne_nil_of_tail h)]

/-! ## Lists -/

/-- A block, and what is taken of the lines after it. -/
theorem Taken.Extends.andThen {l : LineFacts} {lines more : List LineFacts} {first : Taken lines}
    {first' : Taken (lines ++ more)} (hfirst : first.Extends first')
    {take : ∀ lines, TakenAll lines}
    (hlater : (take first.rest).Extends (take (first.rest ++ more))) :
    (first.andThen l (take first.rest)).Extends (first'.andThen l (take first'.rest)) := by
  constructor
  · show first'.block :: (take first'.rest).blocks = first.block :: (take first.rest).blocks
    rw [hfirst.block, hfirst.rest, hlater.blocks]
  · show (take first'.rest).rest = _
    rw [hfirst.rest]
    exact hlater.rest

/-- What a block leaves has text if something of it is left in the end. -/
theorem HasText.of_andThen {l : LineFacts} {lines : List LineFacts} {first : Taken lines}
    {later : TakenAll first.rest} (h : HasText (first.andThen l later).rest) : HasText first.rest :=
  h.of_suffix later.isSuffix

theorem TakenAll.Extends.nothing (lines more : List LineFacts) :
    (TakenAll.nothing lines).Extends (TakenAll.nothing (lines ++ more)) :=
  ⟨rfl, rfl⟩

/-- What follows blank lines, with more lines after it. -/
theorem dropWhile_isBlank_append {lines later : List LineFacts} {next : LineFacts}
    (more : List LineFacts) (h : lines.dropWhile LineFacts.isBlank = next :: later) :
    (lines ++ more).dropWhile LineFacts.isBlank = next :: (later ++ more) := by
  rw [(run_append more (by simp [h])).2, h]
  rfl

/-- The next line that is not blank is the same with more lines after it. -/
theorem nextInk?_append {lines : List LineFacts} (more : List LineFacts) (h : HasText lines) :
    nextInk? (lines ++ more) = nextInk? lines := by
  obtain ⟨l, hl, htext⟩ := h
  have hdrop := dropWhile_ne_nil hl htext
  rw [nextInk?, (run_append more hdrop).2, List.head?_append_of_ne_nil _ hdrop]
  rfl

theorem EndsItem.append {indent : Nat} {lines : List LineFacts} (h : EndsItem indent lines)
    (more : List LineFacts) (htext : HasText lines) : EndsItem indent (lines ++ more) := by
  rw [EndsItem, nextInk?_append more htext]
  exact h

theorem StopsItems.append {marker : ListMarker} {lines : List LineFacts}
    (h : StopsItems marker lines) (more : List LineFacts) (htext : HasText lines) :
    StopsItems marker (lines ++ more) := by
  cases lines with
  | nil => exact absurd rfl htext.ne_nil
  | cons l lines =>
    show StopsItems marker (l :: (lines ++ more))
    by_cases hl : l.isBlank = true
    · rw [StopsItems, if_pos hl, ← nextInk?_cons_of_blank lines hl] at h
      refine stopsItems_of_blank hl ?_
      rw [← nextInk?_cons_of_blank (lines ++ more) hl, ← List.cons_append,
        nextInk?_append more htext]
      exact h
    · rw [StopsItems, if_neg hl] at h
      exact stopsItems_of_no_item hl h

/-- A list, or a part of one, stops before a line that is not blank. -/
theorem extends_take (source : List Char) (more : List LineFacts) :
    (∀ depth marker l lines, HasText (takeList source depth marker l lines).rest →
      (takeList source depth marker l lines).Extends
        (takeList source depth marker l (lines ++ more))) ∧
    (∀ depth marker lines, HasText (takeItems source depth marker lines).rest →
      (takeItems source depth marker lines).Extends
        (takeItems source depth marker (lines ++ more))) ∧
    (∀ depth marker l lines, HasText (takeItem source depth marker l lines).rest →
      (takeItem source depth marker l lines).Extends
        (takeItem source depth marker l (lines ++ more))) ∧
    (∀ depth indent lines, HasText (takeInner source depth indent lines).rest →
      (takeInner source depth indent lines).Extends
        (takeInner source depth indent (lines ++ more))) := by
  apply take_induction source
  case list =>
    intro depth marker l lines hitem hitems htext
    rw [takeList] at htext
    have hitem := hitem (htext.of_suffix (takeItems source depth marker _).isSuffix)
    have hitems := hitems htext
    rw [takeList, takeList]
    constructor
    · show listBlock source depth marker l.start (_ :: (takeItems source depth marker _).blocks) = _
      rw [hitem.block, hitem.rest]
      exact congrArg (fun blocks => listBlock source depth marker l.start (_ :: blocks))
        hitems.blocks
    · show (takeItems source depth marker _).rest = _
      rw [hitem.rest]
      exact hitems.rest
  case noItem =>
    intro depth marker lines hstop htext
    rw [takeItems_of_stops hstop] at htext ⊢
    rw [takeItems_of_stops (hstop.append more htext)]
    exact .nothing lines more
  case blankItems =>
    intro depth marker l lines next later hl hdrop hnext ih htext
    obtain ⟨hblocks, hrest⟩ := @takeItems_of_blanks source depth _ _ _ _ _ hl hdrop hnext
    obtain ⟨hblocks', hrest'⟩ := @takeItems_of_blanks source depth _ _ _ _ _ hl
      (dropWhile_isBlank_append more hdrop) hnext
    rw [hrest] at htext
    have ih := ih htext
    constructor
    · exact hblocks'.trans (ih.blocks.trans hblocks.symm)
    · rw [hrest]
      exact hrest'.trans ih.rest
  case nextItem =>
    intro depth marker own l lines hl hown hitem hitems htext
    rw [takeItems_of_item hl hown] at htext
    have hitem := hitem htext.of_andThen
    have hitems := hitems htext
    show (takeItems source depth marker (l :: lines)).Extends
      (takeItems source depth marker (l :: (lines ++ more)))
    rw [takeItems_of_item hl hown, takeItems_of_item hl hown]
    exact hitem.andThen hitems
  case item =>
    intro depth marker l lines ih htext
    rw [takeItem] at htext
    have ih := ih htext
    rw [takeItem, takeItem]
    constructor
    · show itemBlock source depth marker l _ = _
      rw [ih.blocks]
    · exact ih.rest
  case noInner =>
    intro depth indent lines hends htext
    rw [takeInner_of_ends hends] at htext ⊢
    rw [takeInner_of_ends (hends.append more htext)]
    exact .nothing lines more
  case blankInner =>
    intro depth indent l lines next later hl hdrop hnext ih htext
    obtain ⟨hblocks, hrest⟩ := @takeInner_of_blanks source depth _ _ _ _ _ hl hdrop hnext
    obtain ⟨hblocks', hrest'⟩ := @takeInner_of_blanks source depth _ _ _ _ _ hl
      (dropWhile_isBlank_append more hdrop) hnext
    rw [hrest] at htext
    have ih := ih htext
    constructor
    · exact hblocks'.trans (ih.blocks.trans hblocks.symm)
    · rw [hrest]
      exact hrest'.trans ih.rest
  case innerList =>
    intro depth indent own l lines hl hindent hown hlist hinner htext
    rw [takeInner_of_marker hl hindent hown] at htext
    have hlist := hlist htext.of_andThen
    have hinner := hinner htext
    show (takeInner source depth indent (l :: lines)).Extends
      (takeInner source depth indent (l :: (lines ++ more)))
    rw [takeInner_of_marker hl hindent hown, takeInner_of_marker hl hindent hown]
    exact hlist.andThen hinner
  case innerFence =>
    -- The fence is closed, for a line is left after it.
    intro depth indent f l lines hl hindent hmarker hf hinner htext
    rw [takeInner_of_fence hl hindent hmarker hf] at htext
    have hfence := extends_fenceBlock l f more htext.of_andThen.ne_nil
    have hinner := hinner htext
    show (takeInner source depth indent (l :: lines)).Extends
      (takeInner source depth indent (l :: (lines ++ more)))
    rw [takeInner_of_fence hl hindent hmarker hf, takeInner_of_fence hl hindent hmarker hf]
    exact hfence.andThen hinner
  case innerRow =>
    intro depth indent l lines hl hindent hmarker hf hinner htext
    rw [takeInner_of_row hl hindent hmarker hf] at htext
    have hinner := hinner htext
    have hrow : (⟨listRow source l, lines, List.suffix_rfl⟩ : Taken lines).Extends
        ⟨listRow source l, lines ++ more, List.suffix_rfl⟩ := ⟨rfl, rfl⟩
    show (takeInner source depth indent (l :: lines)).Extends
      (takeInner source depth indent (l :: (lines ++ more)))
    rw [takeInner_of_row hl hindent hmarker hf, takeInner_of_row hl hindent hmarker hf]
    exact hrow.andThen hinner

/-! ## Blocks that end at a blank line -/

/-- A block of the kind never goes on after a blank line. -/
def endsAtBlank : BlockKind → Bool
  | .paragraph | .header | .conceptualTab | .table | .note => true
  | _ => false

/-- A blank line is not quoted. -/
theorem LineFacts.depth_of_isBlank {l : LineFacts} (h : l.Described) (hblank : l.isBlank = true) :
    l.quote.depth = 0 := by
  obtain ⟨strict, raw, rfl⟩ := h
  have hall : ∀ c ∈ (ofLine strict raw).text, Text.isBlank c = true :=
    List.all_eq_true.mp hblank
  have hcount : (quoteMarks (ofLine strict raw).text).count '>' = 0 := by
    refine List.count_eq_zero.mpr fun hmem => ?_
    cases hall '>' ((List.takeWhile_prefix _).subset hmem)
  show (quoteOf (ofLine strict raw).text).depth = 0
  unfold quoteOf
  rw [if_pos (beq_iff_eq.mpr hcount)]

/-- Lines read off a text whose last one, if there is one, is blank. -/
structure EndsBlank (lines : List LineFacts) : Prop where
  described : ∀ l ∈ lines, l.Described
  blank : ∀ l ∈ lines.getLast?, l.isBlank = true

namespace EndsBlank

variable {lines : List LineFacts}

theorem of_suffix {later : List LineFacts} (h : EndsBlank lines) (hsuffix : later <:+ lines) :
    EndsBlank later := by
  obtain ⟨front, rfl⟩ := hsuffix
  constructor
  · intro l hl
    exact h.described l (List.mem_append_right front hl)
  · intro l hl
    refine h.blank l ?_
    rw [List.getLast?_append, hl]
    rfl

theorem exists_blank (h : EndsBlank lines) (hne : lines ≠ []) :
    ∃ l ∈ lines, l.Described ∧ l.isBlank = true := by
  have hlast := List.getLast?_eq_some_getLast hne
  have hmem := List.getLast_mem hne
  exact ⟨_, hmem, h.described _ hmem, h.blank _ hlast⟩

end EndsBlank

/-- A block either stops within the lines, or it is of a kind that may go on after them. -/
theorem extends_openBlock (opener : Opener) (l : LineFacts) {lines : List LineFacts}
    (more : List LineFacts) (h : EndsBlank lines) (hne : lines ≠ []) :
    (openBlock source strict opener l lines).Extends
        (openBlock source strict opener l (lines ++ more)) ∨
      ¬ HasText (openBlock source strict opener l lines).rest ∧
        endsAtBlank (openBlock source strict opener l lines).block.kind = false := by
  obtain ⟨c, hc, hdescribed, hblank⟩ := h.exists_blank hne
  cases opener with
  | fence f =>
    simp only [openBlock]
    by_cases hrest : (fenceBlock source l f lines).rest = []
    · refine Or.inr ⟨fun htext => htext.ne_nil hrest, ?_⟩
      obtain ⟨tag, hblock⟩ := exists_fenceBlock_eq source l f lines
      rw [hblock]
      rfl
    · exact Or.inl (extends_fenceBlock l f more hrest)
  | zone attributes =>
    by_cases hrest : (zoneOuter lines).tail = []
    · refine Or.inr ⟨fun htext => htext.ne_nil ?_, ?_⟩
      · simp only [openBlock]
        exact hrest
      · simp only [openBlock]
        rfl
    · exact Or.inl (extends_zone l attributes more hrest)
  | heading h =>
    simp only [openBlock]
    exact Or.inl ⟨rfl, rfl⟩
  | note name =>
    simp only [openBlock]
    refine Or.inl (extends_noteBlock l name more (dropWhile_ne_nil hc ?_))
    simp [LineFacts.depth_of_isBlank hdescribed hblank]
  | table =>
    simp only [openBlock]
    refine Or.inl (extends_tableBlock l more (dropWhile_ne_nil hc ?_))
    exact LineFacts.isRow_eq_false hdescribed (by simp [LineFacts.ink_of_isBlank hdescribed hblank])
  | list marker =>
    simp only [openBlock]
    by_cases htext : HasText (takeList source 0 marker l lines).rest
    · exact Or.inl ((extends_take source more).1 0 marker l lines htext)
    · refine Or.inr ⟨htext, ?_⟩
      rw [takeList]
      show endsAtBlank (listKind marker) = false
      unfold listKind
      split <;> rfl

/-! ## Lines -/

theorem openerOf?_append {l : LineFacts} {lines : List LineFacts} (more : List LineFacts)
    (h : lines ≠ []) : openerOf? strict l (lines ++ more) = openerOf? strict l lines := by
  unfold openerOf? startsTable
  rw [List.head?_append_of_ne_nil _ h]

/-- Blank lines hold no blocks. -/
theorem readLines_of_not_hasText {lines : List LineFacts} (h : ¬ HasText lines) :
    readLines source strict none lines = [] := by
  induction lines with
  | nil =>
    rw [readLines]
    rfl
  | cons l lines ih =>
    cases hblank : l.isBlank with
    | true =>
      rw [readLines_of_blank none lines hblank,
        ih fun htext => h (htext.of_suffix (List.suffix_cons l lines))]
      rfl
    | false => exact absurd ⟨l, List.mem_cons_self, hblank⟩ h

/-- The last of later blocks is the last of all. -/
theorem mem_getLast?_append {front later : List Block} {b : Block} (h : b ∈ later.getLast?) :
    b ∈ (front ++ later).getLast? := by
  rw [List.getLast?_append, h]
  rfl

/-- Nothing that was read of lines reaches over the blank line at their end, unless their last block
may go on there. -/
theorem readLines_append {lines : List LineFacts} (more : List LineFacts) {pending : Option Span}
    (h : EndsBlank lines) (hpending : lines = [] → pending = none)
    (hclosed : ∀ b ∈ (readLines source strict pending lines).getLast?,
      endsAtBlank b.kind = true) :
    readLines source strict pending (lines ++ more) =
      readLines source strict pending lines ++ readLines source strict none more := by
  -- The induction is on the number of lines, as an opener leaves fewer.
  induction hlength : lines.length using Nat.strongRecOn generalizing lines pending with
  | ind n ih =>
  cases lines with
  | nil =>
    rw [hpending rfl, List.nil_append, readLines]
    rfl
  | cons l lines =>
    have hlater : ∀ later, later <:+ lines → ∀ {pending}, (later = [] → pending = none) →
        (∀ b ∈ (readLines source strict pending later).getLast?, endsAtBlank b.kind = true) →
        readLines source strict pending (later ++ more) =
          readLines source strict pending later ++ readLines source strict none more := by
      intro later hsuffix pending hpending' hclosed'
      have hlt : later.length < n := by
        rw [← hlength]
        exact Nat.lt_succ_of_le hsuffix.length_le
      exact ih later.length hlt (h.of_suffix (hsuffix.trans (List.suffix_cons l lines)))
        hpending' hclosed' rfl
    rw [List.cons_append]
    cases hblank : l.isBlank with
    | true =>
      rw [readLines_of_blank _ _ hblank] at hclosed
      rw [readLines_of_blank _ _ hblank, readLines_of_blank _ _ hblank, List.append_assoc,
        hlater lines List.suffix_rfl (fun _ => rfl) fun b hb => hclosed b (mem_getLast?_append hb)]
    | false =>
      have hne : lines ≠ [] := by
        rintro rfl
        rw [h.blank l rfl] at hblank
        cases hblank
      cases hopener : openerOf? strict l lines with
      | none =>
        have hopener' := (openerOf?_append more hne).trans hopener
        rw [readLines_of_text _ hblank hopener] at hclosed
        rw [readLines_of_text _ hblank hopener, readLines_of_text _ hblank hopener',
          hlater lines List.suffix_rfl (fun hnil => absurd hnil hne) hclosed]
      | some opener =>
        have hopener' := (openerOf?_append more hne).trans hopener
        rw [readLines_of_opener _ hblank hopener] at hclosed
        have hlast : ∀ b ∈ (readLines source strict none
            (openBlock source strict opener l lines).rest).getLast?, endsAtBlank b.kind = true := by
          intro b hb
          rw [List.append_cons] at hclosed
          exact hclosed b (mem_getLast?_append hb)
        have hextends : (openBlock source strict opener l lines).Extends
            (openBlock source strict opener l (lines ++ more)) := by
          refine (extends_openBlock opener l more (h.of_suffix (List.suffix_cons l lines))
            hne).resolve_right ?_
          rintro ⟨hblanks, hkind⟩
          -- The block would be the last one.
          rw [readLines_of_not_hasText hblanks] at hclosed
          have hkind' := hclosed (openBlock source strict opener l lines).block
            (mem_getLast?_append rfl)
          rw [hkind] at hkind'
          cases hkind'
        rw [readLines_of_opener _ hblank hopener, readLines_of_opener _ hblank hopener',
          hextends.block, hextends.rest, List.append_assoc, List.cons_append,
          hlater _ (Taken.isSuffix _) (fun _ => rfl) hlast]

/-- A document's lines may be read in two parts where the first part is empty or ends with a blank
line, and has no blocks or ends with one that goes on after no blank line. -/
theorem blocksOf_append {before after : List LineFacts}
    (hlines : LineFacts.ofText strict source = before ++ after)
    (hblank : ∀ l ∈ before.getLast?, l.isBlank = true)
    (hclosed : ∀ b ∈ (blocksOf source strict before).getLast?, endsAtBlank b.kind = true) :
    blocksOf source strict (before ++ after) =
      blocksOf source strict before ++ blocksOf source strict after := by
  have hdescribed : ∀ l ∈ before, l.Described := by
    intro l hl
    have hmem : l ∈ LineFacts.ofText strict source := by
      rw [hlines]
      exact List.mem_append_left after hl
    obtain ⟨raw, -, rfl⟩ := List.mem_map.mp hmem
    exact ⟨strict, raw, rfl⟩
  exact readLines_append after ⟨hdescribed, hblank⟩ (fun _ => rfl) hclosed

/-- A table and a paragraph before a list. -/
theorem blocksOf_append_table :
    (blocksOf "|a|\n\nb\n\n- c\n".toList false
        ((LineFacts.ofText false "|a|\n\nb\n\n- c\n".toList).take 4)).map (·.kind) =
          [.table, .paragraph] ∧
      blocksOf "|a|\n\nb\n\n- c\n".toList false
          (LineFacts.ofText false "|a|\n\nb\n\n- c\n".toList) =
        blocksOf "|a|\n\nb\n\n- c\n".toList false
            ((LineFacts.ofText false "|a|\n\nb\n\n- c\n".toList).take 4) ++
          blocksOf "|a|\n\nb\n\n- c\n".toList false
            ((LineFacts.ofText false "|a|\n\nb\n\n- c\n".toList).drop 4) := by
  have hkinds : (blocksOf "|a|\n\nb\n\n- c\n".toList false
      ((LineFacts.ofText false "|a|\n\nb\n\n- c\n".toList).take 4)).map (·.kind) =
        [.table, .paragraph] := by
    cbv
  refine ⟨hkinds, ?_⟩
  have hsplit := List.take_append_drop 4 (LineFacts.ofText false "|a|\n\nb\n\n- c\n".toList)
  have happend := blocksOf_append hsplit.symm (by decide) ?_
  · rwa [hsplit] at happend
  · intro b hb
    have hlast := congrArg List.getLast? hkinds
    rw [List.getLast?_map, hb] at hlast
    have hkind : b.kind = .paragraph := Option.some.inj hlast
    rw [hkind]
    rfl

end ArticleAudit.Markdown
