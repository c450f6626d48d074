import ArticleAudit.Markdown.Blocks
import ArticleAudit.Proofs.Markdown.ListSteps

/-!
# Builders on mapped lines

A map of lines that changes nothing the builders branch on, and a map of blocks that agrees with it
where a line becomes a block, commute with building lists: from the images of the lines the images
of the blocks are built, and the images of the lines are left (`maps_take`). The maps are taken
together with the two sources they lead from and to (`MapsLists`).
-/

set_option autoImplicit false

namespace ArticleAudit.Markdown

open ArticleAudit.Text

variable {source source' : List Char} {p : LineFacts → Prop} {g : LineFacts → LineFacts}
  {f : Block → Block}

/-- From the images of the lines the image of the block is built, and the images of the lines are
left. -/
structure Taken.Maps (g : LineFacts → LineFacts) (f : Block → Block) {lines : List LineFacts}
    (taken : Taken lines) (taken' : Taken (lines.map g)) : Prop where
  block : taken'.block = f taken.block
  rest : taken'.rest = taken.rest.map g

/-- From the images of the lines the images of the blocks are built, and the images of the lines
are left. -/
structure TakenAll.Maps (g : LineFacts → LineFacts) (f : Block → Block) {lines : List LineFacts}
    (taken : TakenAll lines) (taken' : TakenAll (lines.map g)) : Prop where
  blocks : taken'.blocks = taken.blocks.map f
  rest : taken'.rest = taken.rest.map g

/-- The maps keep what lists branch on, and agree where lines become blocks. The lines are those of
which `p` holds. -/
structure MapsLists (source source' : List Char) (p : LineFacts → Prop)
    (g : LineFacts → LineFacts) (f : Block → Block) : Prop where
  isBlank : ∀ l, (g l).isBlank = l.isBlank
  indent : ∀ l, (g l).indent = l.indent
  marker : ∀ l, (g l).marker = l.marker
  fence : ∀ l, (g l).fence = l.fence
  row : ∀ l, p l → listRow source' (g l) = f (listRow source l)
  item : ∀ depth marker l inner, p l →
    itemBlock source' depth marker (g l) (inner.map f) = f (itemBlock source depth marker l inner)
  list : ∀ depth marker l items, p l →
    listBlock source' depth marker (g l).start (items.map f) =
      f (listBlock source depth marker l.start items)
  code : ∀ l fence lines, p l → (∀ c ∈ lines, p c) →
    (fenceBlock source l fence lines).Maps g f (fenceBlock source' (g l) fence (lines.map g))

/-! ## Runs of lines -/

theorem takeWhile_map_lines {q : LineFacts → Bool} (hq : ∀ l, q (g l) = q l)
    (lines : List LineFacts) : (lines.map g).takeWhile q = (lines.takeWhile q).map g := by
  rw [List.takeWhile_map]
  congr 2
  exact funext hq

theorem dropWhile_map_lines {q : LineFacts → Bool} (hq : ∀ l, q (g l) = q l)
    (lines : List LineFacts) : (lines.map g).dropWhile q = (lines.dropWhile q).map g := by
  rw [List.dropWhile_map]
  congr 2
  exact funext hq

theorem lastLine_map (g : LineFacts → LineFacts) (l : LineFacts) (lines : List LineFacts) :
    lastLine (g l) (lines.map g) = g (lastLine l lines) := by
  rw [lastLine, lastLine, List.getLast?_map]
  cases lines.getLast? <;> rfl

/-! ## Lists -/

/-- A block, and what is taken of the lines after it. -/
theorem Taken.Maps.andThen {l : LineFacts} {lines : List LineFacts} {first : Taken lines}
    {first' : Taken (lines.map g)} (hfirst : first.Maps g f first')
    {take take' : ∀ lines, TakenAll lines}
    (hlater : (take first.rest).Maps g f (take' (first.rest.map g))) :
    (first.andThen l (take first.rest)).Maps g f (first'.andThen (g l) (take' first'.rest)) := by
  constructor
  · show first'.block :: (take' first'.rest).blocks =
      f first.block :: (take first.rest).blocks.map f
    rw [hfirst.block, hfirst.rest, hlater.blocks]
  · show (take' first'.rest).rest = _
    rw [hfirst.rest]
    exact hlater.rest

theorem TakenAll.Maps.nothing (lines : List LineFacts) :
    (TakenAll.nothing lines).Maps g f (TakenAll.nothing (lines.map g)) :=
  ⟨rfl, rfl⟩

namespace MapsLists

variable (h : MapsLists source source' p g f)

include h

/-- What follows blank lines follows their images. -/
theorem dropWhile_isBlank (lines : List LineFacts) :
    (lines.map g).dropWhile LineFacts.isBlank = (lines.dropWhile LineFacts.isBlank).map g :=
  dropWhile_map_lines h.isBlank lines

theorem itemMarker?_eq (marker : ListMarker) (l : LineFacts) :
    itemMarker? marker (g l) = itemMarker? marker l := by
  unfold itemMarker?
  rw [h.marker]

theorem continuesList_eq (marker : ListMarker) (l : LineFacts) :
    continuesList marker (g l) = continuesList marker l := by
  unfold continuesList
  rw [h.indent, h.itemMarker?_eq]

theorem nextInk?_eq (lines : List LineFacts) :
    nextInk? (lines.map g) = (nextInk? lines).map g := by
  rw [nextInk?, h.dropWhile_isBlank, List.head?_map]
  rfl

theorem endsItem {indent : Nat} {lines : List LineFacts} (hends : EndsItem indent lines) :
    EndsItem indent (lines.map g) := by
  intro m hm
  rw [h.nextInk?_eq] at hm
  obtain ⟨next, hnext, rfl⟩ := Option.map_eq_some_iff.mp hm
  rw [h.indent]
  exact hends next hnext

theorem stopsItems {marker : ListMarker} {lines : List LineFacts}
    (hstop : StopsItems marker lines) : StopsItems marker (lines.map g) := by
  cases lines with
  | nil => exact trivial
  | cons l lines =>
    by_cases hl : l.isBlank = true
    · rw [StopsItems, if_pos hl] at hstop
      refine stopsItems_of_blank ((h.isBlank l).trans hl) ?_
      intro m hm
      rw [h.nextInk?_eq] at hm
      obtain ⟨next, hnext, rfl⟩ := Option.map_eq_some_iff.mp hm
      rw [h.continuesList_eq]
      exact hstop next hnext
    · rw [StopsItems, if_neg hl] at hstop
      exact stopsItems_of_no_item (by rwa [h.isBlank]) ((h.itemMarker?_eq marker l).trans hstop)

/-- Lists are built from the images of lines as from the lines. -/
theorem maps_take :
    (∀ depth marker l lines, p l → (∀ c ∈ lines, p c) →
      (takeList source depth marker l lines).Maps g f
        (takeList source' depth marker (g l) (lines.map g))) ∧
    (∀ depth marker lines, (∀ c ∈ lines, p c) → (takeItems source depth marker lines).Maps g f
      (takeItems source' depth marker (lines.map g))) ∧
    (∀ depth marker l lines, p l → (∀ c ∈ lines, p c) →
      (takeItem source depth marker l lines).Maps g f
        (takeItem source' depth marker (g l) (lines.map g))) ∧
    (∀ depth indent lines, (∀ c ∈ lines, p c) → (takeInner source depth indent lines).Maps g f
      (takeInner source' depth indent (lines.map g))) := by
  -- What holds of the lines holds of those that are left.
  have hsuffix : ∀ {lines later : List LineFacts}, (∀ c ∈ lines, p c) → later <:+ lines →
      ∀ c ∈ later, p c := fun hp hlater c hc => hp c (hlater.mem hc)
  apply take_induction source
  case list =>
    intro depth marker l lines hitem hitems hl hlines
    have hitem := hitem hl hlines
    have hitems := hitems (hsuffix hlines (takeItem source depth marker l lines).isSuffix)
    rw [takeList, takeList]
    constructor
    · show listBlock source' depth marker (g l).start
        (_ :: (takeItems source' depth marker _).blocks) = _
      rw [hitem.block, hitem.rest, hitems.blocks, ← List.map_cons, h.list _ _ _ _ hl]
    · show (takeItems source' depth marker _).rest = _
      rw [hitem.rest]
      exact hitems.rest
  case noItem =>
    intro depth marker lines hstop _
    rw [takeItems_of_stops hstop, takeItems_of_stops (h.stopsItems hstop)]
    exact .nothing lines
  case blankItems =>
    intro depth marker l lines next later hblank hdrop hnext ih hlines
    have hdrop' := h.dropWhile_isBlank lines
    rw [hdrop, List.map_cons] at hdrop'
    have ih := ih (hdrop ▸ hsuffix hlines (dropWhile_isBlank_suffix hblank))
    obtain ⟨hblocks, hrest⟩ := @takeItems_of_blanks source depth _ _ _ _ _ hblank hdrop hnext
    obtain ⟨hblocks', hrest'⟩ := @takeItems_of_blanks source' depth _ _ _ _ _
      ((h.isBlank l).trans hblank) hdrop' ((h.continuesList_eq marker next).trans hnext)
    exact ⟨hblocks'.trans (ih.blocks.trans (congrArg (List.map f) hblocks.symm)),
      hrest'.trans (ih.rest.trans (congrArg (List.map g) hrest.symm))⟩
  case nextItem =>
    intro depth marker own l lines hblank hown hitem hitems hlines
    have hblank' : ¬ (g l).isBlank = true := by rwa [h.isBlank]
    have hown' := (h.itemMarker?_eq marker l).trans hown
    have hlater := hsuffix hlines (List.suffix_cons l lines)
    have hitem := hitem (hlines l List.mem_cons_self) hlater
    have hitems := hitems (hsuffix hlater (takeItem source depth own l lines).isSuffix)
    show (takeItems source depth marker (l :: lines)).Maps g f
      (takeItems source' depth marker (g l :: lines.map g))
    rw [takeItems_of_item hblank hown, takeItems_of_item hblank' hown']
    exact hitem.andThen hitems
  case item =>
    intro depth marker l lines ih hl hlines
    have ih := ih hlines
    rw [takeItem, takeItem]
    constructor
    · show itemBlock source' depth marker (g l) _ = _
      rw [ih.blocks, h.item _ _ _ _ hl]
    · exact ih.rest
  case noInner =>
    intro depth indent lines hends _
    rw [takeInner_of_ends hends, takeInner_of_ends (h.endsItem hends)]
    exact .nothing lines
  case blankInner =>
    intro depth indent l lines next later hblank hdrop hnext ih hlines
    have hdrop' := h.dropWhile_isBlank lines
    rw [hdrop, List.map_cons] at hdrop'
    have hnext' : indent < (g next).indent := by rwa [h.indent]
    have ih := ih (hdrop ▸ hsuffix hlines (dropWhile_isBlank_suffix hblank))
    obtain ⟨hblocks, hrest⟩ := @takeInner_of_blanks source depth _ _ _ _ _ hblank hdrop hnext
    obtain ⟨hblocks', hrest'⟩ := @takeInner_of_blanks source' depth _ _ _ _ _
      ((h.isBlank l).trans hblank) hdrop' hnext'
    exact ⟨hblocks'.trans (ih.blocks.trans (congrArg (List.map f) hblocks.symm)),
      hrest'.trans (ih.rest.trans (congrArg (List.map g) hrest.symm))⟩
  case innerList =>
    intro depth indent own l lines hblank hindent hown hlist hinner hlines
    have hblank' : ¬ (g l).isBlank = true := by rwa [h.isBlank]
    have hindent' : indent < (g l).indent := by rwa [h.indent]
    have hlater := hsuffix hlines (List.suffix_cons l lines)
    have hlist := hlist (hlines l List.mem_cons_self) hlater
    have hinner := hinner (hsuffix hlater (takeList source (deeper depth) own l lines).isSuffix)
    show (takeInner source depth indent (l :: lines)).Maps g f
      (takeInner source' depth indent (g l :: lines.map g))
    rw [takeInner_of_marker hblank hindent hown,
      takeInner_of_marker hblank' hindent' ((h.marker l).trans hown)]
    exact hlist.andThen hinner
  case innerFence =>
    intro depth indent fence l lines hblank hindent hmarker hfence hinner hlines
    have hblank' : ¬ (g l).isBlank = true := by rwa [h.isBlank]
    have hindent' : indent < (g l).indent := by rwa [h.indent]
    have hlater := hsuffix hlines (List.suffix_cons l lines)
    have hblock := h.code l fence lines (hlines l List.mem_cons_self) hlater
    have hinner := hinner (hsuffix hlater (fenceBlock source l fence lines).isSuffix)
    show (takeInner source depth indent (l :: lines)).Maps g f
      (takeInner source' depth indent (g l :: lines.map g))
    rw [takeInner_of_fence hblank hindent hmarker hfence, takeInner_of_fence hblank' hindent'
      ((h.marker l).trans hmarker) ((h.fence l).trans hfence)]
    exact hblock.andThen hinner
  case innerRow =>
    intro depth indent l lines hblank hindent hmarker hfence hinner hlines
    have hblank' : ¬ (g l).isBlank = true := by rwa [h.isBlank]
    have hindent' : indent < (g l).indent := by rwa [h.indent]
    have hinner := hinner (hsuffix hlines (List.suffix_cons l lines))
    have hrow : (⟨listRow source l, lines, List.suffix_rfl⟩ : Taken lines).Maps g f
        ⟨listRow source' (g l), lines.map g, List.suffix_rfl⟩ :=
      ⟨h.row l (hlines l List.mem_cons_self), rfl⟩
    show (takeInner source depth indent (l :: lines)).Maps g f
      (takeInner source' depth indent (g l :: lines.map g))
    rw [takeInner_of_row hblank hindent hmarker hfence, takeInner_of_row hblank' hindent'
      ((h.marker l).trans hmarker) ((h.fence l).trans hfence)]
    exact hrow.andThen hinner

end MapsLists

end ArticleAudit.Markdown
