import ArticleAudit.Proofs.Markdown.Progress
import ArticleAudit.Proofs.Toc.Steps

/-!
# Building items by line numbers

The builders of a table of contents pass on the numbers of lines as those of Markdown do. Here too
there is a result only if each round of a loop gets on to a later line, and the items within an item
start after its first line. `building_gets_on` is the result for both.
-/

set_option autoImplicit false

namespace ArticleAudit.Toc

open ArticleAudit.Text ArticleAudit.Markdown

variable {source : List Char} {lines : List LineFacts}

/-! ## Builders -/

mutual

/-- The items at column `indent` from line `i` on. -/
def itemsAt (source : List Char) (lines : List LineFacts) (depth indent i : Nat) :
    Option (List Block × Nat) :=
  if hi : i < lines.length then
    if lines[i].isBlank || isComment lines[i] then itemsAt source lines depth indent (i + 1)
    else if lines[i].indent < indent then some ([], i)
    else if lines[i].indent = indent then
      if isItem lines[i] then do
        let (item, next) ← itemAt source lines depth lines[i] i
        if i < next then
          let (items, stop) ← itemsAt source lines depth indent next
          return (item :: items, stop)
        else none
      else some ([], i)
    else itemsAt source lines depth indent (i + 1)
  else some ([], i)
termination_by (lines.length - i, 1)

/-- The item on line `i`, which is `l`. -/
def itemAt (source : List Char) (lines : List LineFacts) (depth : Nat) (l : LineFacts) (i : Nat) :
    Option (Block × Nat) :=
  if i < lines.length then do
    let (parts, next) ← partsAt source lines depth l.indent i (i + 1)
    return (itemBlock source depth l ((firstProperty source l).append parts), next)
  else none
termination_by (lines.length - i, 0)

/-- What the deeper lines of the item on line `first` say about it, from line `k` on. -/
def partsAt (source : List Char) (lines : List LineFacts) (depth indent first k : Nat) :
    Option (Parts × Nat) :=
  if hk : k < lines.length then
    if lines[k].isBlank || isComment lines[k] then
      partsAt source lines depth indent first (k + 1)
    else if lines[k].indent ≤ indent then some (.empty, k)
    else if isItem lines[k] then
      if first < k then do
        let (items, next) ← itemsAt source lines (deeper depth) lines[k].indent k
        if k < next then
          let (parts, stop) ← partsAt source lines depth indent first next
          return ((Parts.ofItems items).append parts, stop)
        else none
      else none
    else do
      let (parts, stop) ← partsAt source lines depth indent first (k + 1)
      let own := Parts.ofProperty (property? source lines[k] lines[k].indentBytes)
      return ({ own with stop := some lines[k].stop }.append parts, stop)
  else some (.empty, k)
termination_by (lines.length - k, 2)

end

/-! ## Builders by line numbers and by the lines left -/

/-- Nothing said before makes no difference. -/
theorem Parts.empty_append (parts : Parts) : Parts.empty.append parts = parts := by
  cases parts with
  | mk children name hasItems stop => cases name <;> cases stop <;> simp [Parts.append, Parts.empty]

/-- A nested item leaves later lines than its own. -/
theorem rest_takeItems_of_item {depth : Nat} {l : LineFacts} {later : List LineFacts}
    (hpassed : isPassed l = false) (hitem : isItem l = true) :
    (takeItems source depth l.indent (l :: later)).rest <:+ later := by
  rw [takeItems_of_item hpassed hitem rfl]
  exact (takeItems source depth l.indent (takeItem source depth l later).rest).isSuffix.trans
    (takeItem source depth l later).isSuffix

section Rounds

variable {depth indent first i : Nat} {l : LineFacts} {later : List LineFacts}

theorem itemsAt_of_stops (h : Stands lines i later)
    (hstop : ∀ l ∈ later.head?, isAmong indent l = false) :
    itemsAt source lines depth indent i = some ([], i) := by
  cases later with
  | nil => rw [itemsAt, dif_neg h.not_lt_length]
  | cons l later =>
    obtain ⟨hinner, hitem⟩ := isAmong_eq_false (hstop l rfl)
    obtain ⟨hpassed, hle⟩ := isInner_eq_false hinner
    have hpassed : ¬ (l.isBlank || isComment l) = true := Bool.eq_false_iff.mp hpassed
    rw [itemsAt, dif_pos h.lt_length, h.getElem, if_neg hpassed]
    rcases Nat.lt_or_eq_of_le hle with hlt | heq
    · rw [if_pos hlt]
    · rw [if_neg (by omega), if_pos heq, if_neg (Bool.eq_false_iff.mp (hitem heq))]

theorem itemsAt_of_inner (h : Stands lines i (l :: later)) (hinner : isInner indent l = true) :
    itemsAt source lines depth indent i = itemsAt source lines depth indent (i + 1) := by
  rw [itemsAt, dif_pos h.lt_length, h.getElem]
  by_cases hpassed : (l.isBlank || isComment l) = true
  · rw [if_pos hpassed]
  · have hlt : indent < l.indent := by simpa [isInner, isPassed, hpassed] using hinner
    rw [if_neg hpassed, if_neg (Nat.lt_asymm hlt), if_neg (Nat.ne_of_gt hlt)]

/-- One round of the loop over items. -/
theorem answers_nextItem {item : Taken later} {items : TakenAll item.rest}
    (h : Stands lines i (l :: later)) (hpassed : isPassed l = false) (hl : isItem l = true)
    (hitem : Answers lines item.rest item.block (itemAt source lines depth l i))
    (hitems : ∀ j, Stands lines j item.rest →
      Answers lines items.rest items.blocks (itemsAt source lines depth l.indent j)) :
    Answers lines items.rest (item.block :: items.blocks)
      (itemsAt source lines depth l.indent i) := by
  obtain ⟨j, hitem, hj⟩ := hitem
  obtain ⟨stop, hitems, hstop⟩ := hitems j hj
  have hpassed : ¬ (l.isBlank || isComment l) = true := Bool.eq_false_iff.mp hpassed
  refine ⟨stop, ?_, hstop⟩
  rw [itemsAt, dif_pos h.lt_length, h.getElem, if_neg hpassed, if_neg (Nat.lt_irrefl _),
    if_pos rfl, if_pos hl]
  simp [hitem, h.lt hj item.isSuffix, hitems]

theorem partsAt_of_stops (h : Stands lines i later)
    (hstop : ∀ l ∈ later.head?, isInner indent l = false) :
    partsAt source lines depth indent first i = some (.empty, i) := by
  cases later with
  | nil => rw [partsAt, dif_neg h.not_lt_length]
  | cons l later =>
    obtain ⟨hpassed, hle⟩ := isInner_eq_false (hstop l rfl)
    have hpassed : ¬ (l.isBlank || isComment l) = true := Bool.eq_false_iff.mp hpassed
    rw [partsAt, dif_pos h.lt_length, h.getElem, if_neg hpassed, if_pos hle]

theorem partsAt_of_passed (h : Stands lines i (l :: later)) (hpassed : isPassed l = true) :
    partsAt source lines depth indent first i =
      partsAt source lines depth indent first (i + 1) := by
  have hpassed : (l.isBlank || isComment l) = true := hpassed
  rw [partsAt, dif_pos h.lt_length, h.getElem, if_pos hpassed]

/-- One round of the loop over the lines of an item, where items are nested. -/
theorem answers_nested {items : TakenAll (l :: later)} {parts : TakenParts items.rest}
    (h : Stands lines i (l :: later)) (hpassed : isPassed l = false) (hlt : indent < l.indent)
    (hl : isItem l = true) (hrest : items.rest <:+ later) (hfirst : first < i)
    (hitems : Answers lines items.rest items.blocks
      (itemsAt source lines (deeper depth) l.indent i))
    (hparts : ∀ j, first < j → Stands lines j items.rest →
      Answers lines parts.rest parts.parts (partsAt source lines depth indent first j)) :
    Answers lines parts.rest ((Parts.ofItems items.blocks).append parts.parts)
      (partsAt source lines depth indent first i) := by
  obtain ⟨j, hitems, hj⟩ := hitems
  have hij := h.lt hj hrest
  obtain ⟨stop, hparts, hstop⟩ := hparts j (hfirst.trans hij) hj
  have hpassed : ¬ (l.isBlank || isComment l) = true := Bool.eq_false_iff.mp hpassed
  refine ⟨stop, ?_, hstop⟩
  rw [partsAt, dif_pos h.lt_length, h.getElem, if_neg hpassed, if_neg (Nat.not_le.mpr hlt),
    if_pos hl]
  simp [hfirst, hitems, hij, hparts]

end Rounds

/-- Items, one item and its lines. -/
theorem answers_stages (source : List Char) (lines : List LineFacts) :
    (∀ depth indent later i, Stands lines i later →
      Answers lines (takeItems source depth indent later).rest
        (takeItems source depth indent later).blocks (itemsAt source lines depth indent i)) ∧
    (∀ depth l later i, Stands lines i (l :: later) →
      Answers lines (takeItem source depth l later).rest
        (takeItem source depth l later).block (itemAt source lines depth l i)) ∧
    ∀ depth indent later first i, first < i → Stands lines i later →
      Answers lines (takeParts source depth indent later).rest
        (takeParts source depth indent later).parts
        (partsAt source lines depth indent first i) := by
  apply @take_induction source
    (fun depth indent later => ∀ i, Stands lines i later →
      Answers lines (takeItems source depth indent later).rest
        (takeItems source depth indent later).blocks (itemsAt source lines depth indent i))
  case noItem =>
    intro depth indent later hstop i h
    rw [takeItems_of_stops hstop]
    exact ⟨i, itemsAt_of_stops h hstop, h⟩
  case skip =>
    intro depth indent l later hinner ih i h
    rw [takeItems_of_inner hinner, itemsAt_of_inner h hinner]
    exact ih (i + 1) h.tail
  case nextItem =>
    intro depth l later hpassed hitem hfirst hlater i h
    rw [takeItems_of_item hpassed hitem rfl]
    exact answers_nextItem h hpassed hitem (hfirst i h) hlater
  case item =>
    intro depth l later ih i h
    obtain ⟨stop, hparts, hstop⟩ := ih i (i + 1) (Nat.lt_succ_self i) h.tail
    rw [takeItem]
    refine ⟨stop, ?_, hstop⟩
    rw [itemAt, if_pos h.lt_length, hparts]
    rfl
  case noPart =>
    intro depth indent later hstop first i hfirst h
    rw [takeParts_of_stops hstop]
    exact ⟨i, partsAt_of_stops h hstop, h⟩
  case passed =>
    intro depth indent l later hpassed ih first i hfirst h
    rw [takeParts_of_passed hpassed, partsAt_of_passed h hpassed, TakenParts.after,
      Parts.empty_append]
    exact ih first (i + 1) (hfirst.trans (Nat.lt_succ_self i)) h.tail
  case nested =>
    intro depth indent l later hpassed hlt hitem hitems ih first i hfirst h
    rw [takeParts_of_item hpassed hlt hitem]
    exact answers_nested h hpassed hlt hitem (rest_takeItems_of_item hpassed hitem) hfirst
      (hitems i h) (ih first)
  case property =>
    intro depth indent l later hpassed hlt hitem ih first i hfirst h
    obtain ⟨stop, hparts, hstop⟩ := ih first (i + 1) (hfirst.trans (Nat.lt_succ_self i)) h.tail
    have hpassed' : ¬ (l.isBlank || isComment l) = true := Bool.eq_false_iff.mp hpassed
    rw [takeParts_of_property hpassed hlt hitem]
    refine ⟨stop, ?_, hstop⟩
    rw [partsAt, dif_pos h.lt_length, h.getElem, if_neg hpassed', if_neg (Nat.not_le.mpr hlt),
      if_neg (Bool.eq_false_iff.mp hitem), hparts]
    rfl

end ArticleAudit.Toc

namespace ArticleAudit

open ArticleAudit.Text ArticleAudit.Markdown

/-! ## All builders get on -/

/-- Where a line opens a block its builder ends and leaves lines from a later one on. So the blocks
of the lines, a list and an item and the items of a table of contents are built from wherever they
start, with every builder that is called within starting at a later line than the one around it, or
on fewer lines. The results are those of the functions that take lines off the front. -/
theorem building_gets_on (source : List Char) (strict : Bool) {lines : List LineFacts}
    (h : ∀ l ∈ lines, l.Described) :
    (∀ i l opener, lines[i]? = some l → openerOf? strict l (lines.drop (i + 1)) = some opener →
      Advances lines i (openBlock source strict opener l (lines.drop (i + 1)))
        (openAt source strict lines opener l i)) ∧
    (∀ pending i, i ≤ lines.length →
      buildAt source strict lines pending i =
        some (readLines source strict pending (lines.drop i))) ∧
    (∀ depth marker i l, lines[i]? = some l → l.marker = some marker →
      Advances lines i (takeList source depth marker l (lines.drop (i + 1)))
          (listAt source lines depth marker i) ∧
        Advances lines i (takeItem source depth marker l (lines.drop (i + 1)))
          (itemAt source lines depth marker l i)) ∧
    (∀ depth i l, lines[i]? = some l →
      Advances lines i (Toc.takeItem source depth l (lines.drop (i + 1)))
        (Toc.itemAt source lines depth l i)) ∧
    ∀ depth indent i, i ≤ lines.length →
      ∃ next, Toc.itemsAt source lines depth indent i =
          some ((Toc.takeItems source depth indent (lines.drop i)).blocks, next) ∧
        i ≤ next ∧ next ≤ lines.length ∧
        lines.drop next = (Toc.takeItems source depth indent (lines.drop i)).rest := by
  have hblank : ∀ (i : Nat) (l : LineFacts) marker, lines[i]? = some l →
      l.marker = some marker → l.isBlank = false := by
    intro i l marker hl hmarker
    have hdescribed := h l (List.mem_of_getElem? hl)
    obtain ⟨c, hink, -⟩ := LineFacts.ink_of_marker hdescribed hmarker
    exact LineFacts.isBlank_of_ink hdescribed hink
  obtain ⟨hopen, hbuild⟩ := answers_documentStages source strict
  obtain ⟨hlist, -, hitem, -⟩ := answers_listStages source lines
  obtain ⟨htocItems, htocItem, -⟩ := Toc.answers_stages source lines
  refine ⟨?_, ?_, ?_, ?_, ?_⟩
  · intro i l opener hl hopener
    have hopened := openedBy_of_openerOf? hopener
    refine (hopen opener l _ lines i (stands_of_getElem? hl) hopened ?_).advances hl
    rintro marker rfl
    exact hblank i l marker hl hopened
  · intro pending i hi
    exact hbuild pending _ lines i ⟨rfl, hi⟩
  · intro depth marker i l hl hmarker
    have hstands := stands_of_getElem? hl
    exact ⟨(hlist depth marker l _ i hstands (hblank i l marker hl hmarker) hmarker).advances hl,
      (hitem depth marker l _ i hstands).advances hl⟩
  · intro depth i l hl
    exact (htocItem depth l _ i (stands_of_getElem? hl)).advances hl
  · intro depth indent i hi
    have hstands : Stands lines i (lines.drop i) := ⟨rfl, hi⟩
    obtain ⟨next, hanswer, hnext⟩ := htocItems depth indent _ i hstands
    have hle := (Toc.takeItems source depth indent (lines.drop i)).isSuffix.length_le
    have hlength := hstands.add_length
    have hrest := hnext.add_length
    exact ⟨next, hanswer, by omega, hnext.le, hnext.drop_eq⟩

/-- A list with an item in it, after a blank line. -/
def nestedList : List Char :=
  "- a\n\n  - b\n".toList

theorem building_gets_on_nestedList :
    ∃ l, (linesOf nestedList).map (LineFacts.ofLine false) = l :: (linesOf nestedList).tail.map
        (LineFacts.ofLine false) ∧
      Advances ((linesOf nestedList).map (LineFacts.ofLine false)) 0
        (openBlock nestedList false (.list ⟨false, 0, 2⟩) l _)
        (openAt nestedList false ((linesOf nestedList).map (LineFacts.ofLine false))
          (.list ⟨false, 0, 2⟩) l 0) := by
  have hdescribed : ∀ l ∈ (linesOf nestedList).map (LineFacts.ofLine false), l.Described := by
    intro l hl
    obtain ⟨raw, -, rfl⟩ := List.mem_map.mp hl
    exact ⟨false, raw, rfl⟩
  exact ⟨_, rfl, (building_gets_on nestedList false hdescribed).1 0 _ _ rfl rfl⟩

end ArticleAudit
