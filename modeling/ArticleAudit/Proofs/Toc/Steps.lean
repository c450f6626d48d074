import ArticleAudit.Toc.Items

/-!
# Steps of items

The functions that read a table of contents look at the next line: it is passed over, it belongs to
the items (`isAmong`) or to one item (`isInner`), or it ends them. One equation for each branch;
what holds of items, of one item and of its lines is shown by `take_induction`, with one case for
each of these steps.
-/

set_option autoImplicit false

namespace ArticleAudit.Toc

open ArticleAudit.Text ArticleAudit.Markdown

variable {source : List Char}

/-! ## Which lines belong to an item -/

/-- The line is passed over: it is blank or a comment. -/
def isPassed (l : LineFacts) : Bool :=
  l.isBlank || isComment l

/-- The line is passed over or deeper than a column. -/
def isInner (indent : Nat) (l : LineFacts) : Bool :=
  isPassed l || indent < l.indent

/-- The line is one of an item at a column. -/
def isAmong (indent : Nat) (l : LineFacts) : Bool :=
  isInner indent l || (l.indent == indent && isItem l)

theorem isBlank_of_isPassed_eq_false {l : LineFacts} (h : isPassed l = false) :
    l.isBlank = false :=
  (Bool.or_eq_false_iff.mp h).1

theorem isInner_of_isPassed {l : LineFacts} (indent : Nat) (h : isPassed l = true) :
    isInner indent l = true := by
  simp [isInner, h]

theorem isInner_of_lt {indent : Nat} {l : LineFacts} (h : indent < l.indent) :
    isInner indent l = true := by
  simp [isInner, h]

theorem isInner_eq_false {indent : Nat} {l : LineFacts} (h : isInner indent l = false) :
    isPassed l = false ∧ l.indent ≤ indent := by
  simpa [isInner] using h

theorem isAmong_of_isInner {indent : Nat} {l : LineFacts} (h : isInner indent l = true) :
    isAmong indent l = true := by
  simp [isAmong, h]

theorem isAmong_eq_false {indent : Nat} {l : LineFacts} (h : isAmong indent l = false) :
    isInner indent l = false ∧ (l.indent = indent → isItem l = false) := by
  simpa [isAmong] using h

/-- The lines of an item at a deeper column are inner lines. -/
theorem isInner_of_isAmong {indent deeper : Nat} (hlt : indent < deeper) {l : LineFacts}
    (h : isAmong deeper l = true) : isInner indent l = true := by
  simp only [isAmong, isInner, Bool.or_eq_true, Bool.and_eq_true, decide_eq_true_eq,
    beq_iff_eq] at h ⊢
  rcases h with (h | h) | h
  · exact Or.inl h
  · exact Or.inr (Nat.lt_trans hlt h)
  · exact Or.inr (h.1 ▸ hlt)

/-! ## One equation for each step -/

/-- Items stop at a line that is not one of theirs. -/
theorem takeItems_of_stops {depth indent : Nat} {lines : List LineFacts}
    (h : ∀ l ∈ lines.head?, isAmong indent l = false) :
    takeItems source depth indent lines = .nothing lines := by
  cases lines with
  | nil => rw [takeItems]
  | cons l lines =>
    obtain ⟨hinner, hitem⟩ := isAmong_eq_false (h l rfl)
    obtain ⟨hpassed, hle⟩ := isInner_eq_false hinner
    have hpassed : ¬ (l.isBlank || isComment l) = true := Bool.eq_false_iff.mp hpassed
    rw [takeItems, if_neg hpassed]
    by_cases hlt : l.indent < indent
    · rw [if_pos hlt]
    · have heq : l.indent = indent := Nat.le_antisymm hle (Nat.le_of_not_lt hlt)
      rw [if_neg hlt, if_pos heq, if_neg (Bool.eq_false_iff.mp (hitem heq))]

/-- Between items a line that is passed over, or a deeper one, says nothing. -/
theorem takeItems_of_inner {depth indent : Nat} {l : LineFacts} {lines : List LineFacts}
    (h : isInner indent l = true) :
    takeItems source depth indent (l :: lines) =
      (takeItems source depth indent lines).skipping (List.suffix_cons l lines) := by
  by_cases hpassed : (l.isBlank || isComment l) = true
  · rw [takeItems, if_pos hpassed]
  · have hlt : indent < l.indent := by simpa [isInner, isPassed, hpassed] using h
    rw [takeItems, if_neg hpassed, if_neg (Nat.lt_asymm hlt), if_neg (Nat.ne_of_gt hlt)]

theorem takeItems_of_item {depth indent : Nat} {l : LineFacts} {lines : List LineFacts}
    (hpassed : isPassed l = false) (hitem : isItem l = true) (hindent : l.indent = indent) :
    takeItems source depth indent (l :: lines) =
      (takeItem source depth l lines).andThen l
        (takeItems source depth indent (takeItem source depth l lines).rest) := by
  have hpassed : ¬ (l.isBlank || isComment l) = true := Bool.eq_false_iff.mp hpassed
  rw [takeItems, if_neg hpassed, if_neg (by omega), if_pos hindent, if_pos hitem]

/-- What later lines say of an item stops at a line that is not deeper. -/
theorem takeParts_of_stops {depth indent : Nat} {lines : List LineFacts}
    (h : ∀ l ∈ lines.head?, isInner indent l = false) :
    takeParts source depth indent lines = ⟨.empty, lines, List.suffix_rfl⟩ := by
  cases lines with
  | nil => rw [takeParts]
  | cons l lines =>
    obtain ⟨hpassed, hle⟩ := isInner_eq_false (h l rfl)
    have hpassed : ¬ (l.isBlank || isComment l) = true := Bool.eq_false_iff.mp hpassed
    rw [takeParts, if_neg hpassed, if_pos hle]

theorem takeParts_of_passed {depth indent : Nat} {l : LineFacts} {lines : List LineFacts}
    (hpassed : isPassed l = true) :
    takeParts source depth indent (l :: lines) =
      (takeParts source depth indent lines).after .empty (List.suffix_cons l lines) := by
  have hpassed : (l.isBlank || isComment l) = true := hpassed
  rw [takeParts, if_pos hpassed]

/-- The nested items of an item are those that are read at the column of the first one. -/
theorem takeParts_of_item {depth indent : Nat} {l : LineFacts} {lines : List LineFacts}
    (hpassed : isPassed l = false) (hlt : indent < l.indent) (hitem : isItem l = true) :
    takeParts source depth indent (l :: lines) =
      (takeParts source depth indent
        (takeItems source (deeper depth) l.indent (l :: lines)).rest).after
        (Parts.ofItems (takeItems source (deeper depth) l.indent (l :: lines)).blocks)
        (takeItems source (deeper depth) l.indent (l :: lines)).isSuffix := by
  have hnot : ¬ (l.isBlank || isComment l) = true := Bool.eq_false_iff.mp hpassed
  rw [takeItems_of_item hpassed hitem rfl]
  rw [takeParts, if_neg hnot, if_neg (Nat.not_le.mpr hlt), if_pos hitem]
  rfl

theorem takeParts_of_property {depth indent : Nat} {l : LineFacts} {lines : List LineFacts}
    (hpassed : isPassed l = false) (hlt : indent < l.indent) (hitem : isItem l = false) :
    takeParts source depth indent (l :: lines) =
      (takeParts source depth indent lines).after
        { Parts.ofProperty (property? source l l.indentBytes) with stop := some l.stop }
        (List.suffix_cons l lines) := by
  have hpassed : ¬ (l.isBlank || isComment l) = true := Bool.eq_false_iff.mp hpassed
  rw [takeParts, if_neg hpassed, if_neg (Nat.not_le.mpr hlt), if_neg (Bool.eq_false_iff.mp hitem)]

/-! ## Induction -/

/-- What holds of items, of one item and of its lines is shown along the steps of the functions that
read them: each step but the last ones leaves lines of which it is known. -/
theorem take_induction (source : List Char)
    {onItems : Nat → Nat → List LineFacts → Prop}
    {onItem : Nat → LineFacts → List LineFacts → Prop}
    {onParts : Nat → Nat → List LineFacts → Prop}
    (noItem : ∀ depth indent lines, (∀ l ∈ lines.head?, isAmong indent l = false) →
      onItems depth indent lines)
    (skip : ∀ depth indent l lines, isInner indent l = true → onItems depth indent lines →
      onItems depth indent (l :: lines))
    (nextItem : ∀ depth l lines, isPassed l = false → isItem l = true → onItem depth l lines →
      onItems depth l.indent (takeItem source depth l lines).rest →
      onItems depth l.indent (l :: lines))
    (item : ∀ depth l lines, onParts depth l.indent lines → onItem depth l lines)
    (noPart : ∀ depth indent lines, (∀ l ∈ lines.head?, isInner indent l = false) →
      onParts depth indent lines)
    (passed : ∀ depth indent l lines, isPassed l = true → onParts depth indent lines →
      onParts depth indent (l :: lines))
    (nested : ∀ depth indent l lines, isPassed l = false → indent < l.indent → isItem l = true →
      onItems (deeper depth) l.indent (l :: lines) →
      onParts depth indent (takeItems source (deeper depth) l.indent (l :: lines)).rest →
      onParts depth indent (l :: lines))
    (property : ∀ depth indent l lines, isPassed l = false → indent < l.indent →
      isItem l = false → onParts depth indent lines → onParts depth indent (l :: lines)) :
    (∀ depth indent lines, onItems depth indent lines) ∧
    (∀ depth l lines, onItem depth l lines) ∧
    ∀ depth indent lines, onParts depth indent lines := by
  have hnot : ∀ {l : LineFacts}, ¬ (l.isBlank || isComment l) = true → isPassed l = false :=
    Bool.eq_false_iff.mpr
  have hstop : ∀ {p : LineFacts → Bool} {l : LineFacts} {lines : List LineFacts}, p l = false →
      ∀ m ∈ (l :: lines).head?, p m = false := by
    rintro p l lines hl m ⟨⟩
    exact hl
  apply takeItems.mutual_induct source
  case case1 =>
    intro depth indent
    exact noItem _ _ _ (by simp)
  case case2 =>
    intro depth indent l lines hpassed ih
    exact skip _ _ _ _ (isInner_of_isPassed indent hpassed) ih
  case case3 =>
    intro depth indent l lines hpassed hlt
    refine noItem _ _ _ (hstop ?_)
    simp [isAmong, isInner, hnot hpassed, Nat.le_of_lt hlt, Nat.ne_of_lt hlt]
  case case4 =>
    intro depth l lines hpassed hitem first _ hfirst hlater
    exact nextItem _ _ _ (hnot hpassed) hitem hfirst hlater
  case case5 =>
    intro depth l lines hpassed hitem _
    refine noItem _ _ _ (hstop ?_)
    simp [isAmong, isInner, hnot hpassed, hitem]
  case case6 =>
    intro depth indent l lines _ hlt hne ih
    exact skip _ _ _ _ (isInner_of_lt (by omega)) ih
  case case7 => exact item
  case case8 =>
    intro depth indent
    exact noPart _ _ _ (by simp)
  case case9 =>
    intro depth indent l lines hpassed ih
    exact passed _ _ _ _ hpassed ih
  case case10 =>
    intro depth indent l lines hpassed hle
    refine noPart _ _ _ (hstop ?_)
    simp [isInner, hnot hpassed, hle]
  case case11 =>
    -- The first nested item and those after it are items at its column.
    intro depth indent l lines hpassed hle hitem first more hfirst hlater _ ih
    refine nested _ _ _ _ (hnot hpassed) (Nat.lt_of_not_le hle) hitem
      (nextItem _ _ _ (hnot hpassed) hitem hfirst hlater) ?_
    rw [takeItems_of_item (hnot hpassed) hitem rfl]
    exact ih
  case case12 =>
    intro depth indent l lines hpassed hle hitem ih
    exact property _ _ _ _ (hnot hpassed) (Nat.lt_of_not_le hle) (by simpa using hitem) ih

end ArticleAudit.Toc
