import ArticleAudit.Proofs.Markdown.Items
import ArticleAudit.Proofs.Toc.Steps

/-!
# Outlines by indentation

An item line encloses a later line when every line after it, up to that one, is deeper; blank lines
and comments do not count (`Encloses`). Scanning the lines with a stack of the item lines that are
still open lists every item line with the lines that enclose it (`outline`). The stack is what
the definition says: scanned from an empty one, a line is listed with exactly the earlier lines that
enclose it, the latest first (`outline_append_item`, `enclosing_eq_cons`).
-/

set_option autoImplicit false

namespace ArticleAudit.Toc

open ArticleAudit.Text ArticleAudit.Markdown

variable {source : List Char}

/-! ## Item lines -/

/-- The offset of the first character of a line that is not blank. -/
def inkStart (l : LineFacts) : Nat :=
  l.content.start + byteSize (l.text.takeWhile Text.isBlank)

/-- A marker starts with a character that is not blank. -/
theorem exists_of_markerLength?_ink {text : List Char} {ordered : Bool} {length : Nat}
    (h : markerLength? text = some (ordered, length)) :
    ∃ c rest, text = c :: rest ∧ Text.isBlank c = false := by
  unfold markerLength? at h
  split at h
  · simp at h
  · next c rest =>
    refine ⟨c, rest, rfl, ?_⟩
    split at h
    · next hbullet =>
      rcases (by simpa [isBullet, or_assoc] using hbullet : c = '-' ∨ c = '*' ∨ c = '+') with
        rfl | rfl | rfl <;> rfl
    · have hdigit : c.isDigit = true := by
        by_contra hdigit
        simp [hdigit] at h
      exact isBlank_of_isAlphanum (by simp [Char.isAlphanum, hdigit])

/-- A line with a marker has its first character right after the indentation. -/
theorem exists_ink_of_marker {line : List Char} {marker : ListMarker}
    (h : ListMarker.ofLine? line = some marker) :
    ∃ c rest, line = leadingIndent line ++ c :: rest ∧ Text.isBlank c = false := by
  unfold ListMarker.ofLine? at h
  simp only at h
  split at h
  · simp at h
  · next hlength =>
    obtain ⟨c, rest, htext, hc⟩ := exists_of_markerLength?_ink hlength
    refine ⟨c, rest, ?_, hc⟩
    rw [← htext]
    exact List.takeWhile_append_dropWhile.symm

theorem exists_marker_of_isItem {l : LineFacts} (h : isItem l = true) :
    ∃ marker, l.marker = some marker := by
  simp only [isItem, Bool.and_eq_true, Option.any_eq_true] at h
  obtain ⟨⟨marker, hmarker, -⟩, -⟩ := h
  exact ⟨marker, hmarker⟩

theorem head?_trimStart_of_isItem {l : LineFacts} (h : isItem l = true) :
    (trimStart l.text).head? = some '-' := by
  simp only [isItem, Bool.and_eq_true, beq_iff_eq] at h
  exact h.2

/-- An item line is not passed over. -/
theorem isPassed_of_isItem {l : LineFacts} (hl : l.Sound source) (h : isItem l = true) :
    isPassed l = false := by
  have hhead := head?_trimStart_of_isItem h
  have hblank : l.isBlank = false := by
    obtain ⟨marker, hmarker⟩ := exists_marker_of_isItem h
    obtain ⟨c, rest, htext, hc⟩ := exists_ink_of_marker (hl.marker_eq hmarker)
    rw [hl.isBlank_eq, htext]
    simp [hc]
  have hcomment : isComment l = false := by
    unfold isComment
    rw [hhead]
    decide
  unfold isPassed
  rw [hblank, hcomment]
  rfl

/-- The block of an item line starts at its first character that is not blank. -/
theorem start_eq_inkStart {l : LineFacts} (hl : l.Sound source) (h : isItem l = true) :
    l.start = inkStart l := by
  have hpassed := isPassed_of_isItem hl h
  simp only [isPassed, Bool.or_eq_false_iff] at hpassed
  obtain ⟨marker, hmarker⟩ := exists_marker_of_isItem h
  obtain ⟨c, rest, htext, hc⟩ := exists_ink_of_marker (hl.marker_eq hmarker)
  have hblanks : l.text.takeWhile Text.isBlank = leadingIndent l.text := by
    have hindent : ∀ x ∈ leadingIndent l.text, Text.isBlank x = true :=
      fun x hx => isBlank_of_isIndent (isIndent_of_mem_takeWhile hx)
    conv_lhs => rw [htext]
    rw [List.takeWhile_append_of_pos hindent]
    simp [hc]
  rw [(hl.start_eq hpassed.1).1, hl.indentBytes_eq, inkStart, hblanks,
    LineFacts.Sound.byteSize_leadingIndent]

/-! ## Lines that enclose others -/

/-- The line `p` starts an item, and all lines after it up to `l` are deeper than it. -/
def Encloses (p : LineFacts) (between : List LineFacts) (l : LineFacts) : Prop :=
  isItem p = true ∧ ∀ m ∈ between ++ [l], isPassed m = false → p.indent < m.indent

/-- Of the earlier lines those that enclose a line, the latest first. -/
def enclosing (l : LineFacts) : List LineFacts → List LineFacts
  | [] => []
  | p :: between =>
    enclosing l between ++
      if isItem p && (between ++ [l]).all fun m => isPassed m || p.indent < m.indent then [p]
      else []

theorem encloses_iff {p l : LineFacts} {between : List LineFacts} :
    Encloses p between l ↔
      (isItem p && (between ++ [l]).all fun m => isPassed m || p.indent < m.indent) = true := by
  simp only [Encloses, Bool.and_eq_true, List.all_eq_true, Bool.or_eq_true, decide_eq_true_eq,
    ← Bool.not_eq_true, or_iff_not_imp_left]

theorem enclosing_cons_of_encloses {p l : LineFacts} {between : List LineFacts}
    (h : Encloses p between l) : enclosing l (p :: between) = enclosing l between ++ [p] := by
  rw [enclosing, if_pos (encloses_iff.mp h)]

theorem enclosing_cons_of_not_encloses {p l : LineFacts} {between : List LineFacts}
    (h : ¬ Encloses p between l) : enclosing l (p :: between) = enclosing l between := by
  rw [enclosing, if_neg (mt encloses_iff.mpr h), List.append_nil]

/-- No line encloses `l` exactly when none of the earlier lines does. -/
theorem enclosing_eq_nil_iff {l : LineFacts} {earlier : List LineFacts} :
    enclosing l earlier = [] ↔
      ∀ before p between, earlier = before ++ p :: between → ¬ Encloses p between l := by
  induction earlier with
  | nil => simp [enclosing]
  | cons first rest ih =>
    by_cases hfirst : Encloses first rest l
    · rw [enclosing_cons_of_encloses hfirst]
      refine iff_of_false (by simp) ?_
      intro h
      exact h [] first rest rfl hfirst
    · rw [enclosing_cons_of_not_encloses hfirst, ih]
      constructor
      · rintro h (_ | ⟨x, before⟩) p between hsplit
        · obtain ⟨rfl, rfl⟩ := List.cons.inj hsplit
          exact hfirst
        · exact h before p between (List.cons.inj hsplit).2
      · intro h before p between hsplit
        exact h (first :: before) p between (by rw [hsplit]; rfl)

/-- The lines around `p` that enclose `l` through `p` are those that enclose `p`. -/
theorem encloses_append_iff {q p l : LineFacts} {before between : List LineFacts}
    (hp : isPassed p = false) (h : Encloses p between l) :
    Encloses q (before ++ p :: between) l ↔ Encloses q before p := by
  unfold Encloses
  refine and_congr_right fun _ => ⟨?_, ?_⟩
  · intro hq m hm
    refine hq m ?_
    rw [List.append_assoc, List.cons_append, List.append_cons]
    exact List.mem_append_left _ hm
  · intro hq m hm hpassed
    have hqp := hq p (by simp) hp
    simp only [List.append_assoc, List.cons_append, List.mem_append, List.mem_cons] at hm
    rcases hm with hm | rfl | hm
    · exact hq m (List.mem_append_left _ hm) hpassed
    · exact hqp
    · exact hqp.trans (h.2 m (List.mem_append.mpr (by simpa using hm)) hpassed)

/-- The latest line that encloses `l` is followed by the lines that enclose it in turn. -/
theorem enclosing_eq_cons {p l : LineFacts} {before between : List LineFacts}
    (hp : isPassed p = false) (h : Encloses p between l) (hlatest : enclosing l between = []) :
    enclosing l (before ++ p :: between) = p :: enclosing p before := by
  induction before with
  | nil =>
    rw [List.nil_append, enclosing_cons_of_encloses h, hlatest]
    rfl
  | cons q before ih =>
    rw [List.cons_append]
    by_cases hq : Encloses q before p
    · rw [enclosing_cons_of_encloses hq,
        enclosing_cons_of_encloses ((encloses_append_iff hp h).mpr hq), ih]
      rfl
    · rw [enclosing_cons_of_not_encloses hq,
        enclosing_cons_of_not_encloses (mt (encloses_append_iff hp h).mp hq), ih]

/-! ## The scan -/

/-- Of the open item lines those that a line is deeper than. -/
def outer (around : List LineFacts) (l : LineFacts) : List LineFacts :=
  around.filter (·.indent < l.indent)

/-- The item lines that are open after a line. -/
def openAfter (around : List LineFacts) (l : LineFacts) : List LineFacts :=
  if isPassed l then around
  else if isItem l then l :: outer around l
  else outer around l

/-- The item lines, each with the open item lines that it is deeper than, the latest first. -/
def outline (around : List LineFacts) : List LineFacts → List (LineFacts × List LineFacts)
  | [] => []
  | l :: lines =>
    if isPassed l then outline around lines
    else if isItem l then (l, outer around l) :: outline (l :: outer around l) lines
    else outline (outer around l) lines

section Steps

variable {l : LineFacts} (around lines : List LineFacts)

theorem outline_cons_of_passed (h : isPassed l = true) :
    outline around (l :: lines) = outline around lines := by
  rw [outline, if_pos h]

theorem outline_cons_of_item (h : isPassed l = false) (hitem : isItem l = true) :
    outline around (l :: lines) = (l, outer around l) :: outline (l :: outer around l) lines := by
  rw [outline, if_neg (by simp [h]), if_pos hitem]

theorem outline_cons_of_not_item (h : isPassed l = false) (hitem : isItem l = false) :
    outline around (l :: lines) = outline (outer around l) lines := by
  rw [outline, if_neg (by simp [h]), if_neg (by simp [hitem])]

/-- The scan of two runs of lines goes on with what is open after the first. -/
theorem outline_append (used rest : List LineFacts) :
    outline around (used ++ rest) =
      outline around used ++ outline (used.foldl openAfter around) rest := by
  induction used generalizing around with
  | nil => rfl
  | cons l used ih =>
    rw [List.cons_append, List.foldl_cons, openAfter]
    cases hpassed : isPassed l with
    | true => simp only [outline_cons_of_passed _ _ hpassed, ih, if_true]
    | false =>
      cases hitem : isItem l with
      | true => simp [outline_cons_of_item _ _ hpassed hitem, ih]
      | false => simp [outline_cons_of_not_item _ _ hpassed hitem, ih]

/-- What is listed does not depend on what is open. -/
theorem map_fst_outline :
    (outline around lines).map Prod.fst = lines.filter fun l => !isPassed l && isItem l := by
  induction lines generalizing around with
  | nil => rfl
  | cons l lines ih =>
    cases hpassed : isPassed l with
    | true => simp [outline_cons_of_passed _ _ hpassed, hpassed, ih]
    | false =>
      cases hitem : isItem l with
      | true => simp [outline_cons_of_item _ _ hpassed hitem, hpassed, hitem, ih]
      | false => simp [outline_cons_of_not_item _ _ hpassed hitem, hitem, ih]

end Steps

theorem outer_append (a b : List LineFacts) (l : LineFacts) :
    outer (a ++ b) l = outer a l ++ outer b l := by
  simp [outer]

/-- A line after which the others are deeper leaves what was open. -/
theorem outer_eq_self {around : List LineFacts} {l : LineFacts}
    (h : ∀ p ∈ around, p.indent < l.indent) : outer around l = around :=
  List.filter_eq_self.mpr fun p hp => decide_eq_true (h p hp)

/-- What was open before some lines stays below what they open. -/
theorem openAfter_append (a b : List LineFacts) (l : LineFacts) :
    openAfter (a ++ b) l = openAfter a l ++ if isPassed l then b else outer b l := by
  unfold openAfter
  split
  · rfl
  · split <;> simp [outer_append]

theorem foldl_openAfter_append (a b lines : List LineFacts) :
    lines.foldl openAfter (a ++ b) = lines.foldl openAfter a ++
      b.filter fun p => lines.all fun m => isPassed m || p.indent < m.indent := by
  induction lines generalizing a b with
  | nil => simp
  | cons l lines ih =>
    rw [List.foldl_cons, List.foldl_cons, openAfter_append, ih]
    congr 1
    cases hpassed : isPassed l with
    | true => simp [hpassed]
    | false =>
      simp only [outer, Bool.false_eq_true, if_false, List.filter_filter, List.all_cons, hpassed,
        Bool.false_or]
      exact List.filter_congr fun p _ => Bool.and_comm _ _

/-- The open lines that a line is deeper than are the ones that enclose it. -/
theorem outer_foldl_openAfter {l : LineFacts} {earlier : List LineFacts}
    (hl : isPassed l = false) (hitems : ∀ p ∈ earlier, isItem p = true → isPassed p = false) :
    outer (earlier.foldl openAfter []) l = enclosing l earlier := by
  induction earlier with
  | nil => rfl
  | cons p between ih =>
    have hbetween := ih fun q hq => hitems q (List.mem_cons_of_mem p hq)
    have hopen : openAfter [] p = [] ++ if isItem p then [p] else [] := by
      cases hitem : isItem p with
      | true => simp [openAfter, hitems p List.mem_cons_self hitem, hitem, outer]
      | false => simp [openAfter, hitem, outer]
    rw [List.foldl_cons, hopen, foldl_openAfter_append, outer_append, hbetween, enclosing]
    congr 1
    cases hitem : isItem p with
    | true =>
      rw [if_pos rfl, outer, List.filter_filter, List.filter_singleton, Bool.true_and,
        List.all_append, Bool.and_comm]
      simp [hl]
    | false => simp [outer]

/-- Scanned from nothing open, an item line is listed with the lines that enclose it. -/
theorem outline_append_item {l : LineFacts} {earlier later : List LineFacts}
    (hitem : isItem l = true)
    (hitems : ∀ p ∈ earlier ++ l :: later, isItem p = true → isPassed p = false) :
    ∃ more, outline [] (earlier ++ l :: later) =
      outline [] earlier ++ (l, enclosing l earlier) :: more := by
  have hl := hitems l (by simp) hitem
  refine ⟨outline (l :: enclosing l earlier) later, ?_⟩
  rw [outline_append, outline_cons_of_item _ _ hl hitem,
    outer_foldl_openAfter hl fun p hp => hitems p (List.mem_append_left _ hp)]

end ArticleAudit.Toc
