import ArticleAudit.Proofs.Markdown.Layout
import ArticleAudit.Proofs.Markdown.Marks

/-!
# Building blocks by line numbers

Here the lines stay where they are, and the builders pass on the numbers of lines: a builder starts
at a line and answers the number of the line after its block. A number that a loop is handed has to
be that of a later line before the next round, a list within an item has to start after the item's
first line, and the lines inside a zone have to be fewer than those around it. Where one of these
does not hold there is no result. The functions end as these checks have each call decrease the
number of lines left, or leave it as it is and pass to the next function of the list, the item and
their loops.

No check ever fails: wherever the builders start they have a result, and it is that of the functions
that take lines off the front. `Stands` relates a number to the lines from there on, and `Answers` a
result to the block and the lines left.
-/

set_option autoImplicit false

namespace ArticleAudit.Markdown

open ArticleAudit.Text

variable {source : List Char} {strict : Bool} {lines : List LineFacts}

/-! ## Runs of lines -/

/-- The number of the line after a run of lines with a property, from line `k` on. -/
def runEnd (p : LineFacts → Bool) (lines : List LineFacts) (k : Nat) : Nat :=
  k + ((lines.drop k).takeWhile p).length

/-- The number of the first line without the property, from line `k` on. -/
def firstWithout? (p : LineFacts → Bool) (lines : List LineFacts) (k : Nat) : Option Nat :=
  if runEnd p lines k < lines.length then some (runEnd p lines k) else none

/-- The number of the line after the one that closes a block, which is the last one if none does. -/
def afterClosing (p : LineFacts → Bool) (lines : List LineFacts) (k : Nat) : Nat :=
  (firstWithout? p lines k).getD (lines.length - 1) + 1

/-- The lines from line `k` on that stand before the end of a zone. -/
def zoneLines (lines : List LineFacts) (k : Nat) : List LineFacts :=
  (lines.take ((firstWithout? (fun c => !isZoneEnd c.text) lines k).getD lines.length)).drop k

/-! ## Builders -/

mutual

/-- The list whose first item is on line `i`. -/
def listAt (source : List Char) (lines : List LineFacts) (depth : Nat) (marker : ListMarker)
    (i : Nat) : Option (Block × Nat) := do
  let l ← lines[i]?
  let (items, next) ← itemsAt source lines depth marker i
  return (listBlock source depth marker l.start items, next)
termination_by (lines.length - i, 2)

/-- The items of a list from line `j` on, by a loop that passes over blank lines. -/
def itemsAt (source : List Char) (lines : List LineFacts) (depth : Nat) (marker : ListMarker)
    (j : Nat) : Option (List Block × Nat) :=
  if hj : j < lines.length then
    if lines[j].isBlank then
      match firstWithout? LineFacts.isBlank lines j with
      | none => some ([], j)
      | some k =>
        if lines[k]?.any (continuesList marker) then
          if j < k then itemsAt source lines depth marker k else none
        else some ([], j)
    else
      match itemMarker? marker lines[j] with
      | none => some ([], j)
      | some own => do
        let (item, next) ← itemAt source lines depth own lines[j] j
        if j < next then
          let (items, stop) ← itemsAt source lines depth marker next
          return (item :: items, stop)
        else none
  else some ([], j)
termination_by (lines.length - j, 1)

/-- The item on line `i`, which is `l`. -/
def itemAt (source : List Char) (lines : List LineFacts) (depth : Nat) (marker : ListMarker)
    (l : LineFacts) (i : Nat) : Option (Block × Nat) :=
  if i < lines.length then do
    let (inner, next) ← innerAt source lines depth marker.indent i (i + 1)
    return (itemBlock source depth marker l inner, next)
  else none
termination_by (lines.length - i, 0)

/-- The deeper lines of the item on line `first`, from line `k` on, by a loop that passes over blank
lines. -/
def innerAt (source : List Char) (lines : List LineFacts) (depth indent first k : Nat) :
    Option (List Block × Nat) :=
  if hk : k < lines.length then
    if lines[k].isBlank then
      match firstWithout? LineFacts.isBlank lines k with
      | none => some ([], k)
      | some later =>
        if lines[later]?.any fun next => indent < next.indent then
          if k < later then innerAt source lines depth indent first later else none
        else some ([], k)
    else if lines[k].indent ≤ indent then some ([], k)
    else do
      let (block, next) ←
        match lines[k].marker with
        | some own => if first < k then listAt source lines (deeper depth) own k else none
        | none =>
          match lines[k].fence with
          | some f =>
            some ((fenceBlock source lines[k] f (lines.drop (k + 1))).block,
              afterClosing (fun c => !f.isClosedBy c.fence) lines (k + 1))
          | none => some (listRow source lines[k], k + 1)
      if k < next then
        let (blocks, stop) ← innerAt source lines depth indent first next
        return (block :: blocks, stop)
      else none
  else some ([], k)
termination_by (lines.length - k, 3)

end

mutual

/-- The block that line `i`, which is `l`, opens. -/
def openAt (source : List Char) (strict : Bool) (lines : List LineFacts) (opener : Opener)
    (l : LineFacts) (i : Nat) : Option (Block × Nat) :=
  let later := lines.drop (i + 1)
  match opener with
  | .fence f =>
    some ((fenceBlock source l f later).block,
      afterClosing (fun c => !f.isClosedBy c.fence) lines (i + 1))
  | .zone attributes =>
    if (zoneLines lines (i + 1)).length < lines.length then do
      let children ← buildAt source strict (zoneLines lines (i + 1)) none 0
      return (zoneBlock source l attributes later children,
        afterClosing (fun c => !isZoneEnd c.text) lines (i + 1))
    else none
  | .heading h => some (headingBlock source l h, i + 1)
  | .note name =>
    some ((noteBlock source l name later).block,
      runEnd (fun c => c.quote.depth > 0) lines (i + 1))
  | .table => some ((tableBlock source l later).block, runEnd LineFacts.isRow lines i)
  | .list marker => listAt source lines 0 marker i
termination_by (lines.length, lines.length - i, 0)

/-- The blocks of the lines from line `i` on, with a paragraph pending. -/
def buildAt (source : List Char) (strict : Bool) (lines : List LineFacts) (pending : Option Span)
    (i : Nat) : Option (List Block) :=
  if hi : i < lines.length then
    if lines[i].isBlank then do
      let blocks ← buildAt source strict lines none (i + 1)
      return paragraph source pending ++ blocks
    else
      match openerOf? strict lines[i] (lines.drop (i + 1)) with
      | some opener => do
        let (block, next) ← openAt source strict lines opener lines[i] i
        if i < next then
          let blocks ← buildAt source strict lines none next
          return paragraph source pending ++ block :: blocks
        else none
      | none => buildAt source strict lines (some (extendParagraph pending lines[i])) (i + 1)
  else some (paragraph source pending)
termination_by (lines.length, lines.length - i, 1)

end

/-! ## Lines and their numbers -/

/-- From line `i` on there are these lines. -/
structure Stands (lines : List LineFacts) (i : Nat) (later : List LineFacts) : Prop where
  drop_eq : lines.drop i = later
  le : i ≤ lines.length

section Stands

variable {i k next : Nat} {l : LineFacts} {later rest : List LineFacts}

theorem Stands.add_length (h : Stands lines i later) : i + later.length = lines.length := by
  rw [← h.drop_eq, List.length_drop]
  have := h.le
  omega

theorem Stands.not_lt_length (h : Stands lines i []) : ¬ i < lines.length :=
  Nat.not_lt.mpr (Nat.le_of_eq h.add_length.symm)

theorem Stands.getElem? (h : Stands lines i (l :: later)) : lines[i]? = some l := by
  have hhead := congrArg List.head? h.drop_eq
  rwa [List.head?_drop] at hhead

theorem Stands.lt_length (h : Stands lines i (l :: later)) : i < lines.length :=
  (List.getElem?_eq_some_iff.mp h.getElem?).1

theorem Stands.getElem (h : Stands lines i (l :: later)) (hi : i < lines.length) : lines[i] = l :=
  (List.getElem_eq_iff hi).mpr h.getElem?

theorem Stands.tail (h : Stands lines i (l :: later)) : Stands lines (i + 1) later := by
  refine ⟨?_, ?_⟩
  · rw [← List.tail_drop, h.drop_eq, List.tail_cons]
  · have := h.add_length
    rw [List.length_cons] at this
    omega

theorem stands_of_getElem? (h : lines[i]? = some l) :
    Stands lines i (l :: lines.drop (i + 1)) := by
  obtain ⟨hi, rfl⟩ := List.getElem?_eq_some_iff.mp h
  exact ⟨List.drop_eq_getElem_cons hi, Nat.le_of_lt hi⟩

/-- Lines that a block after line `i` leaves stand later than that line. -/
theorem Stands.lt (h : Stands lines i (l :: later)) (hnext : Stands lines next rest)
    (hrest : rest <:+ later) : i < next := by
  have hi := h.add_length
  have hj := hnext.add_length
  have hle := hrest.length_le
  rw [List.length_cons] at hi
  omega

variable (p : LineFacts → Bool)

theorem Stands.runEnd (h : Stands lines k later) :
    Stands lines (runEnd p lines k) (later.dropWhile p) := by
  have hlength := h.add_length
  have hsplit := List.takeWhile_append_dropWhile (p := p) (l := later)
  have hle := (List.takeWhile_prefix (l := later) p).length_le
  rw [Markdown.runEnd, h.drop_eq]
  refine ⟨?_, by omega⟩
  calc lines.drop (k + (later.takeWhile p).length)
      = later.drop (later.takeWhile p).length := by rw [← List.drop_drop, h.drop_eq]
    _ = (later.takeWhile p ++ later.dropWhile p).drop (later.takeWhile p).length := by rw [hsplit]
    _ = later.dropWhile p := List.drop_left

theorem Stands.firstWithout?_none (h : Stands lines k later) (hdrop : later.dropWhile p = []) :
    firstWithout? p lines k = none := by
  have hlength := (h.runEnd p).add_length
  rw [hdrop, List.length_nil] at hlength
  exact if_neg (by omega)

theorem Stands.firstWithout?_some (h : Stands lines k later)
    (hdrop : later.dropWhile p = l :: rest) :
    ∃ j, firstWithout? p lines k = some j ∧ Stands lines j (l :: rest) := by
  have hrun := h.runEnd p
  rw [hdrop] at hrun
  have hlength := hrun.add_length
  rw [List.length_cons] at hlength
  exact ⟨_, if_pos (by omega), hrun⟩

theorem Stands.afterClosing (h : Stands lines (i + 1) later) :
    Stands lines (afterClosing p lines (i + 1)) (later.dropWhile p).tail := by
  cases hdrop : later.dropWhile p with
  | nil =>
    have hle := h.le
    rw [Markdown.afterClosing, h.firstWithout?_none p hdrop, Option.getD_none,
      Nat.sub_add_cancel (by omega)]
    exact ⟨List.drop_length, Nat.le_refl _⟩
  | cons closing rest =>
    obtain ⟨j, hj, hstands⟩ := h.firstWithout?_some p hdrop
    rw [Markdown.afterClosing, hj]
    exact hstands.tail

theorem Stands.zoneLines (h : Stands lines k later) : zoneLines lines k = zoneInner later := by
  have hstop : (firstWithout? (fun c => !isZoneEnd c.text) lines k).getD lines.length =
      Markdown.runEnd (fun c => !isZoneEnd c.text) lines k := by
    have hle := (h.runEnd fun c => !isZoneEnd c.text).le
    unfold firstWithout?
    split
    · rfl
    · rw [Option.getD_none]
      omega
  rw [Markdown.zoneLines, hstop, List.drop_take, h.drop_eq, Markdown.runEnd, h.drop_eq,
    Nat.add_sub_cancel_left]
  exact (List.prefix_iff_eq_take.mp (List.takeWhile_prefix _)).symm

theorem Stands.no_jump (h : Stands lines i (l :: later)) (hl : l.isBlank = true)
    (hdrop : later.dropWhile LineFacts.isBlank = []) :
    firstWithout? LineFacts.isBlank lines i = none :=
  h.firstWithout?_none _ ((List.dropWhile_cons_of_pos hl).trans hdrop)

/-- Over blank lines the loops jump to a later line, if there is one. -/
theorem Stands.jump {next : LineFacts} {more : List LineFacts} (h : Stands lines i (l :: later))
    (hl : l.isBlank = true) (hdrop : later.dropWhile LineFacts.isBlank = next :: more) :
    ∃ k, firstWithout? LineFacts.isBlank lines i = some k ∧ i < k ∧
      Stands lines k (next :: more) := by
  obtain ⟨k, hk, hstands⟩ :=
    h.firstWithout?_some _ ((List.dropWhile_cons_of_pos hl).trans hdrop)
  have hsuffix : next :: more <:+ later := hdrop ▸ List.dropWhile_suffix _
  exact ⟨k, hk, h.lt hstands hsuffix, hstands⟩

end Stands

/-! ## Builders by line numbers and by the lines left -/

/-- The answer is this value and the number of the line at which these lines are left. -/
def Answers {α : Type} (lines rest : List LineFacts) (value : α) (answer : Option (α × Nat)) :
    Prop :=
  ∃ next, answer = some (value, next) ∧ Stands lines next rest

/-- The builder that starts on line `i` ends with this block, and leaves these lines, which start
after line `i`. -/
def Advances (lines : List LineFacts) (i : Nat) (taken : Taken (lines.drop (i + 1)))
    (answer : Option (Block × Nat)) : Prop :=
  ∃ next, answer = some (taken.block, next) ∧ i < next ∧ next ≤ lines.length ∧
    lines.drop next = taken.rest

theorem Answers.advances {i : Nat} {l : LineFacts} {taken : Taken (lines.drop (i + 1))}
    {answer : Option (Block × Nat)} (hl : lines[i]? = some l)
    (h : Answers lines taken.rest taken.block answer) : Advances lines i taken answer := by
  obtain ⟨next, hanswer, hnext⟩ := h
  exact ⟨next, hanswer, (stands_of_getElem? hl).lt hnext taken.isSuffix, hnext.le, hnext.drop_eq⟩

section Answers

variable {depth indent first i : Nat} {marker own : ListMarker} {l next : LineFacts}
  {later more rest : List LineFacts} {blocks : List Block}

/-- The loop over items stops where no item follows. -/
theorem Answers.noItem (h : Stands lines i later) (hstop : StopsItems marker later) :
    Answers lines later [] (itemsAt source lines depth marker i) := by
  refine ⟨i, ?_, h⟩
  cases later with
  | nil => rw [itemsAt, dif_neg h.not_lt_length]
  | cons l later =>
    rw [itemsAt, dif_pos h.lt_length, h.getElem]
    by_cases hl : l.isBlank = true
    · rw [StopsItems, if_pos hl] at hstop
      cases hdrop : later.dropWhile LineFacts.isBlank with
      | nil => simp [hl, h.no_jump hl hdrop]
      | cons next more =>
        obtain ⟨k, hk, -, hstands⟩ := h.jump hl hdrop
        have hnext := hstop next (congrArg List.head? hdrop)
        simp [hl, hk, hstands.getElem?, hnext]
    · rw [StopsItems, if_neg hl] at hstop
      simp [hl, hstop]

/-- Over blank lines the loop over items gets to the next line of the list. -/
theorem Answers.blankItems (h : Stands lines i (l :: later)) (hl : l.isBlank = true)
    (hdrop : later.dropWhile LineFacts.isBlank = next :: more)
    (hnext : continuesList marker next = true)
    (hitems : ∀ k, Stands lines k (next :: more) →
      Answers lines rest blocks (itemsAt source lines depth marker k)) :
    Answers lines rest blocks (itemsAt source lines depth marker i) := by
  obtain ⟨k, hk, hlt, hstands⟩ := h.jump hl hdrop
  have hround : itemsAt source lines depth marker i = itemsAt source lines depth marker k := by
    rw [itemsAt, dif_pos h.lt_length, h.getElem]
    simp [hl, hk, hstands.getElem?, hnext, hlt]
  rw [hround]
  exact hitems k hstands

/-- One round of the loop over items. -/
theorem Answers.nextItem {item : Taken later} {items : TakenAll item.rest}
    (h : Stands lines i (l :: later)) (hl : ¬ l.isBlank = true)
    (hown : itemMarker? marker l = some own)
    (hitem : Answers lines item.rest item.block (itemAt source lines depth own l i))
    (hitems : ∀ j, Stands lines j item.rest →
      Answers lines items.rest items.blocks (itemsAt source lines depth marker j)) :
    Answers lines items.rest (item.block :: items.blocks)
      (itemsAt source lines depth marker i) := by
  obtain ⟨j, hitem, hj⟩ := hitem
  obtain ⟨stop, hitems, hstop⟩ := hitems j hj
  refine ⟨stop, ?_, hstop⟩
  rw [itemsAt, dif_pos h.lt_length, h.getElem]
  simp [hl, hown, hitem, hitems, h.lt hj item.isSuffix]

/-- The loop over the deeper lines of an item stops where none follows. -/
theorem Answers.noInner (h : Stands lines i later) (hends : EndsItem indent later) :
    Answers lines later [] (innerAt source lines depth indent first i) := by
  refine ⟨i, ?_, h⟩
  cases later with
  | nil => rw [innerAt, dif_neg h.not_lt_length]
  | cons l later =>
    rw [innerAt, dif_pos h.lt_length, h.getElem]
    by_cases hl : l.isBlank = true
    · cases hdrop : later.dropWhile LineFacts.isBlank with
      | nil => simp [hl, h.no_jump hl hdrop]
      | cons next more =>
        obtain ⟨k, hk, -, hstands⟩ := h.jump hl hdrop
        have hnext := hends next (nextInk?_of_dropWhile hl hdrop)
        simp [hl, hk, hstands.getElem?, Nat.not_lt.mpr hnext]
    · have hindent := hends l (nextInk?_cons_of_ink later hl)
      simp [hl, hindent]

/-- Over blank lines the loop over the deeper lines of an item gets to the next one. -/
theorem Answers.blankInner (h : Stands lines i (l :: later)) (hl : l.isBlank = true)
    (hdrop : later.dropWhile LineFacts.isBlank = next :: more) (hnext : indent < next.indent)
    (hfirst : first < i)
    (hinner : ∀ k, first < k → Stands lines k (next :: more) →
      Answers lines rest blocks (innerAt source lines depth indent first k)) :
    Answers lines rest blocks (innerAt source lines depth indent first i) := by
  obtain ⟨k, hk, hlt, hstands⟩ := h.jump hl hdrop
  have hround : innerAt source lines depth indent first i =
      innerAt source lines depth indent first k := by
    rw [innerAt, dif_pos h.lt_length, h.getElem]
    simp [hl, hk, hstands.getElem?, hnext, hlt]
  rw [hround]
  exact hinner k (hfirst.trans hlt) hstands

/-- One round of the loop over the deeper lines of an item. -/
theorem Answers.nextInner {taken : Taken later} {inner : TakenAll taken.rest}
    {answer : Option (Block × Nat)}
    (h : Stands lines i (l :: later))
    (htaken : Answers lines taken.rest taken.block answer)
    (hinner : ∀ j, first < j → Stands lines j taken.rest →
      Answers lines inner.rest inner.blocks (innerAt source lines depth indent first j))
    (hfirst : first < i)
    (hround : innerAt source lines depth indent first i = do
      let (block, next) ← answer
      if i < next then
        let (blocks, stop) ← innerAt source lines depth indent first next
        return (block :: blocks, stop)
      else none) :
    Answers lines inner.rest (taken.block :: inner.blocks)
      (innerAt source lines depth indent first i) := by
  obtain ⟨j, rfl, hj⟩ := htaken
  have hlt := h.lt hj taken.isSuffix
  obtain ⟨stop, hinner, hstop⟩ := hinner j (hfirst.trans hlt) hj
  refine ⟨stop, ?_, hstop⟩
  rw [hround]
  simp [hinner, hlt]

end Answers

/-- Lists, their items, an item and its deeper lines. -/
theorem answers_listStages (source : List Char) (lines : List LineFacts) :
    (∀ depth marker l later i, Stands lines i (l :: later) → l.isBlank = false →
      l.marker = some marker →
      Answers lines (takeList source depth marker l later).rest
        (takeList source depth marker l later).block (listAt source lines depth marker i)) ∧
    (∀ depth marker later i, Stands lines i later →
      Answers lines (takeItems source depth marker later).rest
        (takeItems source depth marker later).blocks (itemsAt source lines depth marker i)) ∧
    (∀ depth marker l later i, Stands lines i (l :: later) →
      Answers lines (takeItem source depth marker l later).rest
        (takeItem source depth marker l later).block (itemAt source lines depth marker l i)) ∧
    ∀ depth indent later first i, first < i → Stands lines i later →
      Answers lines (takeInner source depth indent later).rest
        (takeInner source depth indent later).blocks
        (innerAt source lines depth indent first i) := by
  -- The induction follows the calls of the builders that take lines off the front. That an item
  -- starts before its deeper lines is passed on from one of these lines to the next.
  apply @take_induction source
    (fun depth marker l later => ∀ i, Stands lines i (l :: later) → l.isBlank = false →
      l.marker = some marker →
      Answers lines (takeList source depth marker l later).rest
        (takeList source depth marker l later).block (listAt source lines depth marker i))
  case list =>
    intro depth marker l later hitem hitems i h hl hmarker
    have hown : itemMarker? marker l = some marker := by
      simp [itemMarker?, hmarker, ListMarker.joins]
    obtain ⟨stop, hall, hstop⟩ :=
      Answers.nextItem h (by simpa using hl) hown (hitem i h) hitems
    rw [takeList]
    refine ⟨stop, ?_, hstop⟩
    rw [listAt, h.getElem?]
    simp [hall]
  case noItem =>
    intro depth marker later hstop i h
    rw [takeItems_of_stops hstop]
    exact .noItem h hstop
  case blankItems =>
    intro depth marker l later next more hl hdrop hnext ih i h
    obtain ⟨hblocks, hrest⟩ := @takeItems_of_blanks source depth _ _ _ _ _ hl hdrop hnext
    rw [hblocks, hrest]
    exact .blankItems h hl hdrop hnext ih
  case nextItem =>
    intro depth marker own l later hl hown hitem hitems i h
    rw [takeItems_of_item hl hown]
    exact .nextItem h hl hown (hitem i h) hitems
  case item =>
    intro depth marker l later ih i h
    obtain ⟨stop, hinner, hstop⟩ := ih i (i + 1) (Nat.lt_succ_self i) h.tail
    rw [takeItem]
    refine ⟨stop, ?_, hstop⟩
    rw [itemAt, if_pos h.lt_length, hinner]
    rfl
  case noInner =>
    intro depth indent later hends first i hfirst h
    rw [takeInner_of_ends hends]
    exact .noInner h hends
  case blankInner =>
    intro depth indent l later next more hl hdrop hnext ih first i hfirst h
    obtain ⟨hblocks, hrest⟩ := @takeInner_of_blanks source depth _ _ _ _ _ hl hdrop hnext
    rw [hblocks, hrest]
    exact .blankInner h hl hdrop hnext hfirst (ih first)
  case innerList =>
    intro depth indent own l later hl hindent hown hlist hinner first i hfirst h
    rw [takeInner_of_marker hl hindent hown]
    refine .nextInner h (hlist i h (by simpa using hl) hown) (hinner first) hfirst ?_
    rw [innerAt, dif_pos h.lt_length, h.getElem]
    simp [hl, Nat.not_le.mpr hindent, hown, hfirst]
  case innerFence =>
    intro depth indent f l later hl hindent hmarker hf hinner first i hfirst h
    obtain rfl := h.tail.drop_eq
    rw [takeInner_of_fence hl hindent hmarker hf]
    have hfence : Answers lines (fenceBlock source l f (lines.drop (i + 1))).rest
        (fenceBlock source l f (lines.drop (i + 1))).block
        (some ((fenceBlock source l f (lines.drop (i + 1))).block,
          afterClosing (fun c => !f.isClosedBy c.fence) lines (i + 1))) :=
      ⟨_, rfl, h.tail.afterClosing _⟩
    refine .nextInner h hfence (hinner first) hfirst ?_
    rw [innerAt, dif_pos h.lt_length, h.getElem]
    simp [hl, Nat.not_le.mpr hindent, hmarker, hf]
  case innerRow =>
    intro depth indent l later hl hindent hmarker hf hinner first i hfirst h
    rw [takeInner_of_row hl hindent hmarker hf]
    have hrow : Answers lines (Taken.mk (listRow source l) later List.suffix_rfl).rest
        (Taken.mk (listRow source l) later List.suffix_rfl).block
        (some (listRow source l, i + 1)) :=
      ⟨_, rfl, h.tail⟩
    refine .nextInner h hrow (hinner first) hfirst ?_
    rw [innerAt, dif_pos h.lt_length, h.getElem]
    simp [hl, Nat.not_le.mpr hindent, hmarker, hf]

/-- Blocks that lines open, and the blocks of all lines from a line on. -/
theorem answers_documentStages (source : List Char) (strict : Bool) :
    (∀ opener l later lines i, Stands lines i (l :: later) → opener.OpenedBy l →
      (∀ marker, opener = .list marker → l.isBlank = false) →
      Answers lines (openBlock source strict opener l later).rest
        (openBlock source strict opener l later).block
        (openAt source strict lines opener l i)) ∧
    (∀ pending later lines i, Stands lines i later →
      buildAt source strict lines pending i = some (readLines source strict pending later)) := by
  apply openBlock.mutual_induct source strict
    (fun opener l later => ∀ lines i, Stands lines i (l :: later) → opener.OpenedBy l →
      (∀ marker, opener = .list marker → l.isBlank = false) →
      Answers lines (openBlock source strict opener l later).rest
        (openBlock source strict opener l later).block
        (openAt source strict lines opener l i))
    (fun pending later => ∀ lines i, Stands lines i later →
      buildAt source strict lines pending i = some (readLines source strict pending later))
  case case1 =>
    intro l later f lines i h _ _
    obtain rfl := h.tail.drop_eq
    rw [openBlock, openAt]
    exact ⟨_, rfl, h.tail.afterClosing _⟩
  case case2 =>
    intro l later attributes hinner lines i h _ _
    -- The inner lines are counted from zero, as lines of their own.
    have hlt : (zoneInner later).length < lines.length := by
      have hlength := h.add_length
      have hle := length_zoneInner_le later
      rw [List.length_cons] at hlength
      omega
    have hchildren := hinner (zoneInner later) 0 ⟨rfl, Nat.zero_le _⟩
    rw [openBlock, openAt]
    refine ⟨_, ?_, h.tail.afterClosing _⟩
    simp [h.tail.zoneLines, h.tail.drop_eq, hlt, hchildren]
  case case3 =>
    intro l later heading lines i h _ _
    rw [openBlock, openAt]
    exact ⟨_, rfl, h.tail⟩
  case case4 =>
    intro l later name lines i h _ _
    obtain rfl := h.tail.drop_eq
    rw [openBlock, openAt]
    exact ⟨_, rfl, h.tail.runEnd _⟩
  case case5 =>
    -- The run of rows starts with the first row itself.
    intro l later lines i h hrow _
    obtain rfl := h.tail.drop_eq
    have hrun := h.runEnd LineFacts.isRow
    rw [List.dropWhile_cons_of_pos hrow] at hrun
    rw [openBlock, openAt]
    exact ⟨_, rfl, hrun⟩
  case case6 =>
    intro l later marker lines i h hmarker hblank
    rw [openBlock, openAt]
    exact (answers_listStages source lines).1 0 marker l later i h (hblank marker rfl) hmarker
  case case7 =>
    intro pending lines i h
    rw [buildAt, dif_neg h.not_lt_length, readLines]
  case case8 =>
    intro pending l later hl ih lines i h
    rw [buildAt, dif_pos h.lt_length, h.getElem, readLines, if_pos hl]
    simp [hl, ih lines (i + 1) h.tail]
  case case9 =>
    intro pending l later hl opener hopener taken hopened ih lines i h
    have hblank : ∀ marker, opener = .list marker → l.isBlank = false :=
      fun _ _ => by simpa using hl
    obtain ⟨next, htaken, hnext⟩ :=
      hopened lines i h (openedBy_of_openerOf? hopener) hblank
    have hlt := h.lt hnext taken.isSuffix
    rw [buildAt, dif_pos h.lt_length, h.getElem, readLines, if_neg hl, hopener]
    simp [hl, h.tail.drop_eq, hopener, htaken, hlt, ih lines next hnext, taken]
  case case10 =>
    intro pending l later hl hopener ih lines i h
    rw [buildAt, dif_pos h.lt_length, h.getElem, readLines, if_neg hl, hopener]
    simp [hl, h.tail.drop_eq, hopener, ih lines (i + 1) h.tail]

end ArticleAudit.Markdown
