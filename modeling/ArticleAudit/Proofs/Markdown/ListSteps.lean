import ArticleAudit.Markdown.ListBlock

/-!
# Steps of lists

The functions that take the items of a list and the deeper lines of an item look at the first line,
or past blank lines at the next one (`nextInk?`). They stop where no further item is next
(`StopsItems`), or no deeper line (`EndsItem`); else there is one equation for each branch. What
holds of a list, its items, an item and its deeper lines is shown by `take_induction`, with one case
for each of these steps. What a list or an item leaves starts, blank lines apart, with a line that
is not deeper, and for a list that is none of its items either (`ends_take`).
-/

set_option autoImplicit false

namespace ArticleAudit.Markdown

open ArticleAudit.Text

variable {source : List Char}

/-! ## The next line -/

/-- The first line that is not blank. -/
def nextInk? (lines : List LineFacts) : Option LineFacts :=
  (lines.dropWhile LineFacts.isBlank).head?

theorem nextInk?_cons_of_blank {l : LineFacts} (lines : List LineFacts) (h : l.isBlank = true) :
    nextInk? (l :: lines) = nextInk? lines := by
  rw [nextInk?, List.dropWhile_cons_of_pos h]
  rfl

theorem nextInk?_cons_of_ink {l : LineFacts} (lines : List LineFacts) (h : ¬ l.isBlank = true) :
    nextInk? (l :: lines) = some l := by
  rw [nextInk?, List.dropWhile_cons_of_neg h]
  rfl

/-- The first line after blank ones is not blank. -/
theorem not_isBlank_of_dropWhile {lines later : List LineFacts} {next : LineFacts}
    (h : lines.dropWhile LineFacts.isBlank = next :: later) : ¬ next.isBlank = true := by
  have hhead := List.head?_dropWhile_not LineFacts.isBlank lines
  rw [h] at hhead
  simpa using hhead

section Blanks

variable {l next : LineFacts} {lines later : List LineFacts}

theorem nextInk?_of_blanks (hl : l.isBlank = true) (h : lines.dropWhile LineFacts.isBlank = []) :
    nextInk? (l :: lines) = none := by
  rw [nextInk?_cons_of_blank lines hl, nextInk?, h]
  rfl

theorem nextInk?_of_dropWhile (hl : l.isBlank = true)
    (h : lines.dropWhile LineFacts.isBlank = next :: later) :
    nextInk? (l :: lines) = some next := by
  rw [nextInk?_cons_of_blank lines hl, nextInk?, h]
  rfl

theorem nextInk?_cons_dropWhile (hl : l.isBlank = true)
    (h : lines.dropWhile LineFacts.isBlank = next :: later) :
    nextInk? (l :: lines) = nextInk? (next :: later) := by
  rw [nextInk?_of_dropWhile hl h, nextInk?_cons_of_ink later (not_isBlank_of_dropWhile h)]

end Blanks

theorem mem_of_nextInk? {lines : List LineFacts} {m : LineFacts} (h : nextInk? lines = some m) :
    m ∈ lines ∧ m.isBlank = false := by
  have hhead := List.head?_dropWhile_not LineFacts.isBlank lines
  rw [show (lines.dropWhile LineFacts.isBlank).head? = some m from h] at hhead
  exact ⟨(List.dropWhile_sublist _).subset (List.mem_of_head? h), hhead⟩

/-! ## Where items and deeper lines stop -/

/-- The next line that is not blank is not deeper than a column. -/
def EndsItem (indent : Nat) (lines : List LineFacts) : Prop :=
  ∀ m ∈ nextInk? lines, m.indent ≤ indent

/-- No further item of a list is next, and after blank lines no line that goes on with it. -/
def StopsItems (marker : ListMarker) : List LineFacts → Prop
  | [] => True
  | l :: lines =>
    if l.isBlank then ∀ m ∈ nextInk? lines, continuesList marker m = false
    else itemMarker? marker l = none

theorem EndsItem.nil (indent : Nat) : EndsItem indent [] :=
  nofun

theorem endsItem_of_blanks {indent : Nat} {l : LineFacts} {lines : List LineFacts}
    (hl : l.isBlank = true) (hdrop : lines.dropWhile LineFacts.isBlank = []) :
    EndsItem indent (l :: lines) := by
  simp [EndsItem, nextInk?_of_blanks hl hdrop]

theorem endsItem_of_dropWhile {indent : Nat} {l next : LineFacts} {lines later : List LineFacts}
    (hl : l.isBlank = true) (hdrop : lines.dropWhile LineFacts.isBlank = next :: later)
    (hnext : next.indent ≤ indent) : EndsItem indent (l :: lines) := by
  intro m hm
  obtain rfl := Option.some.inj ((nextInk?_of_dropWhile hl hdrop).symm.trans hm)
  exact hnext

theorem endsItem_of_le {indent : Nat} {l : LineFacts} {lines : List LineFacts}
    (hl : ¬ l.isBlank = true) (hindent : l.indent ≤ indent) : EndsItem indent (l :: lines) := by
  intro m hm
  obtain rfl := Option.some.inj ((nextInk?_cons_of_ink lines hl).symm.trans hm)
  exact hindent

theorem stopsItems_of_blank {marker : ListMarker} {l : LineFacts} {lines : List LineFacts}
    (hl : l.isBlank = true) (hstop : ∀ m ∈ nextInk? lines, continuesList marker m = false) :
    StopsItems marker (l :: lines) := by
  rw [StopsItems, if_pos hl]
  exact hstop

theorem stopsItems_of_no_item {marker : ListMarker} {l : LineFacts} {lines : List LineFacts}
    (hl : ¬ l.isBlank = true) (hown : itemMarker? marker l = none) :
    StopsItems marker (l :: lines) := by
  rw [StopsItems, if_neg hl]
  exact hown

theorem not_continuesList {marker : ListMarker} {m : LineFacts}
    (h : continuesList marker m = false) :
    m.indent ≤ marker.indent ∧ itemMarker? marker m = none := by
  simpa [continuesList] using h

/-- Where the items stop the next line that is not blank is none of them. -/
theorem StopsItems.itemMarker?_eq {marker : ListMarker} {lines : List LineFacts}
    (h : StopsItems marker lines) : ∀ m ∈ nextInk? lines, itemMarker? marker m = none := by
  intro m hm
  cases lines with
  | nil => cases hm
  | cons l lines =>
    by_cases hl : l.isBlank = true
    · rw [StopsItems, if_pos hl] at h
      rw [nextInk?_cons_of_blank lines hl] at hm
      exact (not_continuesList (h m hm)).2
    · rw [StopsItems, if_neg hl] at h
      obtain rfl := Option.some.inj ((nextInk?_cons_of_ink lines hl).symm.trans hm)
      exact h

theorem takeItems_of_stops {depth : Nat} {marker : ListMarker} {lines : List LineFacts}
    (h : StopsItems marker lines) : takeItems source depth marker lines = .nothing lines := by
  cases lines with
  | nil => rw [takeItems]
  | cons l lines =>
    by_cases hl : l.isBlank = true
    · rw [StopsItems, if_pos hl] at h
      rw [takeItems, dif_pos hl]
      split
      · rfl
      · next next later hdrop =>
        have hstop := h next (congrArg List.head? hdrop)
        rw [if_neg (by simp [hstop])]
    · rw [StopsItems, if_neg hl] at h
      rw [takeItems, dif_neg hl, h]

theorem takeInner_of_ends {depth indent : Nat} {lines : List LineFacts}
    (h : EndsItem indent lines) : takeInner source depth indent lines = .nothing lines := by
  cases lines with
  | nil => rw [takeInner]
  | cons l lines =>
    by_cases hl : l.isBlank = true
    · rw [EndsItem, nextInk?_cons_of_blank lines hl] at h
      rw [takeInner, dif_pos hl]
      split
      · rfl
      · next next later hdrop =>
        have hstop := h next (congrArg List.head? hdrop)
        rw [if_neg (Nat.not_lt.mpr hstop)]
    · have hstop := h l (nextInk?_cons_of_ink lines hl)
      rw [takeInner, dif_neg hl, if_pos hstop]

/-! ## Where they go on -/

/-- Blank lines in a list, or among the lines of an item. -/
theorem takeItems_of_blanks {depth : Nat} {marker : ListMarker} {l next : LineFacts}
    {lines later : List LineFacts} (hl : l.isBlank = true)
    (hdrop : lines.dropWhile LineFacts.isBlank = next :: later)
    (hnext : continuesList marker next = true) :
    (takeItems source depth marker (l :: lines)).blocks =
        (takeItems source depth marker (next :: later)).blocks ∧
      (takeItems source depth marker (l :: lines)).rest =
        (takeItems source depth marker (next :: later)).rest := by
  rw [takeItems, dif_pos hl]
  split
  · next h => cases hdrop.symm.trans h
  · next next' later' h =>
    cases hdrop.symm.trans h
    rw [if_pos hnext]
    exact ⟨rfl, rfl⟩

theorem takeInner_of_blanks {depth indent : Nat} {l next : LineFacts}
    {lines later : List LineFacts} (hl : l.isBlank = true)
    (hdrop : lines.dropWhile LineFacts.isBlank = next :: later) (hnext : indent < next.indent) :
    (takeInner source depth indent (l :: lines)).blocks =
        (takeInner source depth indent (next :: later)).blocks ∧
      (takeInner source depth indent (l :: lines)).rest =
        (takeInner source depth indent (next :: later)).rest := by
  rw [takeInner, dif_pos hl]
  split
  · next h => cases hdrop.symm.trans h
  · next next' later' h =>
    cases hdrop.symm.trans h
    rw [if_pos hnext]
    exact ⟨rfl, rfl⟩

theorem takeItems_of_item {depth : Nat} {marker own : ListMarker} {l : LineFacts}
    {lines : List LineFacts} (hl : ¬ l.isBlank = true) (hown : itemMarker? marker l = some own) :
    takeItems source depth marker (l :: lines) =
      (takeItem source depth own l lines).andThen l
        (takeItems source depth marker (takeItem source depth own l lines).rest) := by
  rw [takeItems, dif_neg hl, hown]

theorem takeInner_of_marker {depth indent : Nat} {own : ListMarker} {l : LineFacts}
    {lines : List LineFacts} (hl : ¬ l.isBlank = true) (hindent : indent < l.indent)
    (hown : l.marker = some own) :
    takeInner source depth indent (l :: lines) =
      (takeList source (deeper depth) own l lines).andThen l
        (takeInner source depth indent (takeList source (deeper depth) own l lines).rest) := by
  rw [takeInner, dif_neg hl, if_neg (Nat.not_le.mpr hindent), hown]

theorem takeInner_of_fence {depth indent : Nat} {f : Fence} {l : LineFacts}
    {lines : List LineFacts} (hl : ¬ l.isBlank = true) (hindent : indent < l.indent)
    (hmarker : l.marker = none) (hf : l.fence = some f) :
    takeInner source depth indent (l :: lines) =
      (fenceBlock source l f lines).andThen l
        (takeInner source depth indent (fenceBlock source l f lines).rest) := by
  rw [takeInner, dif_neg hl, if_neg (Nat.not_le.mpr hindent), hmarker, hf]

theorem takeInner_of_row {depth indent : Nat} {l : LineFacts} {lines : List LineFacts}
    (hl : ¬ l.isBlank = true) (hindent : indent < l.indent) (hmarker : l.marker = none)
    (hf : l.fence = none) :
    takeInner source depth indent (l :: lines) =
      (⟨listRow source l, lines, List.suffix_rfl⟩ : Taken lines).andThen l
        (takeInner source depth indent lines) := by
  rw [takeInner, dif_neg hl, if_neg (Nat.not_le.mpr hindent), hmarker, hf]

/-! ## Induction -/

/-- What holds of lists, of their items, of an item and of its deeper lines is shown along the steps
of the functions that take them: each step but the last ones leaves lines of which it is known. -/
theorem take_induction (source : List Char)
    {onList : Nat → ListMarker → LineFacts → List LineFacts → Prop}
    {onItems : Nat → ListMarker → List LineFacts → Prop}
    {onItem : Nat → ListMarker → LineFacts → List LineFacts → Prop}
    {onInner : Nat → Nat → List LineFacts → Prop}
    (list : ∀ depth marker l lines, onItem depth marker l lines →
      onItems depth marker (takeItem source depth marker l lines).rest →
      onList depth marker l lines)
    (noItem : ∀ depth marker lines, StopsItems marker lines → onItems depth marker lines)
    (blankItems : ∀ depth marker l lines next later, l.isBlank = true →
      lines.dropWhile LineFacts.isBlank = next :: later → continuesList marker next = true →
      onItems depth marker (next :: later) → onItems depth marker (l :: lines))
    (nextItem : ∀ depth marker own l lines, ¬ l.isBlank = true →
      itemMarker? marker l = some own → onItem depth own l lines →
      onItems depth marker (takeItem source depth own l lines).rest →
      onItems depth marker (l :: lines))
    (item : ∀ depth marker l lines, onInner depth marker.indent lines →
      onItem depth marker l lines)
    (noInner : ∀ depth indent lines, EndsItem indent lines → onInner depth indent lines)
    (blankInner : ∀ depth indent l lines next later, l.isBlank = true →
      lines.dropWhile LineFacts.isBlank = next :: later → indent < next.indent →
      onInner depth indent (next :: later) → onInner depth indent (l :: lines))
    (innerList : ∀ depth indent own l lines, ¬ l.isBlank = true → indent < l.indent →
      l.marker = some own → onList (deeper depth) own l lines →
      onInner depth indent (takeList source (deeper depth) own l lines).rest →
      onInner depth indent (l :: lines))
    (innerFence : ∀ depth indent f l lines, ¬ l.isBlank = true → indent < l.indent →
      l.marker = none → l.fence = some f →
      onInner depth indent (fenceBlock source l f lines).rest →
      onInner depth indent (l :: lines))
    (innerRow : ∀ depth indent l lines, ¬ l.isBlank = true → indent < l.indent →
      l.marker = none → l.fence = none → onInner depth indent lines →
      onInner depth indent (l :: lines)) :
    (∀ depth marker l lines, onList depth marker l lines) ∧
    (∀ depth marker lines, onItems depth marker lines) ∧
    (∀ depth marker l lines, onItem depth marker l lines) ∧
    ∀ depth indent lines, onInner depth indent lines := by
  apply takeList.mutual_induct source
  case case1 =>
    intro depth marker l lines first hfirst hlater _
    exact list _ _ _ _ hfirst hlater
  case case2 =>
    intro depth marker
    exact noItem _ _ _ trivial
  case case3 =>
    intro depth marker l lines hl hdrop
    exact noItem _ _ _ (stopsItems_of_blank hl (by simp [nextInk?, hdrop]))
  case case4 =>
    intro depth marker l lines hl next later hdrop hnext hlater
    exact blankItems _ _ _ _ _ _ hl hdrop hnext hlater
  case case5 =>
    intro depth marker l lines hl next later hdrop hnext
    exact noItem _ _ _ (stopsItems_of_blank hl (by simpa [nextInk?, hdrop] using hnext))
  case case6 =>
    intro depth marker l lines hl hown
    exact noItem _ _ _ (stopsItems_of_no_item hl hown)
  case case7 =>
    intro depth marker l lines hl own hown first hfirst hlater
    exact nextItem _ _ _ _ _ hl hown hfirst hlater
  case case8 => exact item
  case case9 =>
    intro depth indent
    exact noInner _ _ _ (EndsItem.nil indent)
  case case10 =>
    intro depth indent l lines hl hdrop
    exact noInner _ _ _ (endsItem_of_blanks hl hdrop)
  case case11 =>
    intro depth indent l lines hl next later hdrop hnext hlater
    exact blankInner _ _ _ _ _ _ hl hdrop hnext hlater
  case case12 =>
    intro depth indent l lines hl next later hdrop hnext
    exact noInner _ _ _ (endsItem_of_dropWhile hl hdrop (Nat.le_of_not_lt hnext))
  case case13 =>
    intro depth indent l lines hl hindent
    exact noInner _ _ _ (endsItem_of_le hl hindent)
  case case14 =>
    intro depth indent l lines hl hindent own hown first hfirst hlater
    exact innerList _ _ _ _ _ hl (Nat.lt_of_not_le hindent) hown hfirst hlater
  case case15 =>
    intro depth indent l lines hl hindent hmarker f hf first hlater
    exact innerFence _ _ _ _ _ hl (Nat.lt_of_not_le hindent) hmarker hf hlater
  case case16 =>
    intro depth indent l lines hl hindent hmarker hf hlater
    exact innerRow _ _ _ _ hl (Nat.lt_of_not_le hindent) hmarker hf hlater

/-! ## Where lists end -/

/-- The next line that is not blank is neither deeper than a list nor one of its items. -/
def EndsList (marker : ListMarker) (lines : List LineFacts) : Prop :=
  ∀ m ∈ nextInk? lines, m.indent ≤ marker.indent ∧ itemMarker? marker m = none

theorem itemMarker?_eq_some {marker own : ListMarker} {l : LineFacts}
    (h : itemMarker? marker l = some own) :
    l.marker = some own ∧ own.indent = marker.indent ∧ own.ordered = marker.ordered := by
  simpa [itemMarker?, ListMarker.joins, Option.filter_eq_some_iff] using h

/-- Where a list, its items, an item and the deeper lines of an item stop. -/
theorem ends_take (source : List Char) :
    (∀ depth marker l lines, EndsList marker (takeList source depth marker l lines).rest) ∧
    (∀ depth marker lines, EndsItem marker.indent lines →
      EndsList marker (takeItems source depth marker lines).rest) ∧
    (∀ depth marker l lines,
      EndsItem marker.indent (takeItem source depth marker l lines).rest) ∧
    ∀ depth indent lines, EndsItem indent (takeInner source depth indent lines).rest := by
  apply take_induction source
  case list =>
    intro depth marker l lines hitem hitems
    rw [takeList]
    exact hitems hitem
  case noItem =>
    intro depth marker lines hstop hends m hm
    rw [takeItems_of_stops hstop] at hm
    exact ⟨hends m hm, hstop.itemMarker?_eq m hm⟩
  case blankItems =>
    intro depth marker l lines next later hl hdrop hnext ih hends
    rw [(takeItems_of_blanks hl hdrop hnext).2]
    refine ih ?_
    rwa [EndsItem, ← nextInk?_cons_dropWhile hl hdrop]
  case nextItem =>
    -- The item ends at the column of the list, which is its own.
    intro depth marker own l lines hl hown hitem hitems _
    rw [(itemMarker?_eq_some hown).2.1] at hitem
    rw [takeItems_of_item hl hown]
    exact hitems hitem
  case item =>
    intro depth marker l lines ih
    rw [takeItem]
    exact ih
  case noInner =>
    intro depth indent lines hends
    rw [takeInner_of_ends hends]
    exact hends
  case blankInner =>
    intro depth indent l lines next later hl hdrop hnext ih
    rw [(takeInner_of_blanks hl hdrop hnext).2]
    exact ih
  case innerList =>
    intro depth indent own l lines hl hindent hown _ hinner
    rw [takeInner_of_marker hl hindent hown]
    exact hinner
  case innerFence =>
    intro depth indent f l lines hl hindent hmarker hf hinner
    rw [takeInner_of_fence hl hindent hmarker hf]
    exact hinner
  case innerRow =>
    intro depth indent l lines hl hindent hmarker hf hinner
    rw [takeInner_of_row hl hindent hmarker hf]
    exact hinner

end ArticleAudit.Markdown
