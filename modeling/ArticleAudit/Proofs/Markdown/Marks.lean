import ArticleAudit.Markdown.Opener
import ArticleAudit.Proofs.Text.Trimming
import Mathlib.Data.List.TakeWhile

/-!
# Marks exclude one another

What a line opens shows in its first character that is not blank, its ink: a fence starts with a
backtick or a tilde, a zone with a colon, a heading with `#`, a row with a pipe and an item with a
bullet or a digit. So a line has at most one of these marks. A blank line has no ink, and a quoted
line has no mark at all.
-/

set_option autoImplicit false

namespace ArticleAudit.Markdown

open ArticleAudit.Text

/-! ## The ink of a text -/

/-- Dropping some blanks first does not change what is left without blanks. -/
theorem trimStart_dropWhile {p : Char → Bool} (hp : ∀ c, p c = true → isBlank c = true)
    (text : List Char) : trimStart (text.dropWhile p) = trimStart text := by
  induction text with
  | nil => rfl
  | cons c rest ih =>
    by_cases hc : p c = true
    · rw [List.dropWhile_cons_of_pos hc, ih]
      exact (List.dropWhile_cons_of_pos (hp c hc)).symm
    · rw [List.dropWhile_cons_of_neg hc]

theorem head?_trimStart {c : Char} {text : List Char} (h : text.head? = some c)
    (hc : isBlank c = false) : (trimStart text).head? = some c := by
  obtain ⟨rest, rfl⟩ := List.head?_eq_some_iff.mp h
  rw [trimStart, List.dropWhile_cons_of_neg (by simp [hc])]
  rfl

/-- The text starts with a run that is not empty. -/
theorem head?_of_length_takeWhile {c : Char} {text : List Char}
    (h : 0 < (text.takeWhile (· == c)).length) : text.head? = some c := by
  cases text with
  | nil => simp at h
  | cons d rest =>
    by_cases hd : d = c
    · simp [hd]
    · simp [hd] at h

/-- The character starts the marker of an item. -/
def startsMarker (c : Char) : Bool :=
  isBullet c || c.isDigit

theorem isBlank_of_startsMarker {c : Char} (h : startsMarker c = true) : isBlank c = false := by
  rcases Bool.or_eq_true_iff.mp h with h | h
  · rcases (by simpa [isBullet, or_assoc] using h : c = '-' ∨ c = '*' ∨ c = '+') with
      rfl | rfl | rfl <;> rfl
  · exact isBlank_of_isAlphanum (by simp [Char.isAlphanum, h])

theorem exists_of_markerLength?_eq_some {text : List Char} {ordered : Bool} {length : Nat}
    (h : markerLength? text = some (ordered, length)) :
    ∃ c, text.head? = some c ∧ startsMarker c = true := by
  cases text with
  | nil => cases h
  | cons c rest =>
    refine ⟨c, rfl, ?_⟩
    by_contra hc
    simp only [startsMarker, Bool.or_eq_true, not_or] at hc
    simp [markerLength?, hc.1, hc.2] at h

namespace LineFacts

/-- The facts were read off a line. -/
def Described (l : LineFacts) : Prop :=
  ∃ strict raw, l = ofLine strict raw

/-- The first character that is not blank. -/
def ink? (l : LineFacts) : Option Char :=
  (trimStart l.text).head?

variable {l : LineFacts}

/-! ## The ink of each mark -/

theorem ink_of_isBlank (h : l.Described) (hblank : l.isBlank = true) : l.ink? = none := by
  obtain ⟨strict, raw, rfl⟩ := h
  have hall : (ofLine strict raw).text.all Text.isBlank = true := hblank
  rw [ink?, trimStart, List.head?_eq_none_iff, List.dropWhile_eq_nil_iff]
  exact List.all_eq_true.mp hall

theorem ink_of_fence {f : Fence} (h : l.Described) (hf : l.fence = some f) :
    l.ink? = some f.mark.char := by
  obtain ⟨strict, raw, rfl⟩ := h
  have hline : Fence.ofLine? (ofLine strict raw).text = some f :=
    (Option.ite_none_right_eq_some.mp hf).2
  have hmark : ∀ mark, Fence.ofMark? mark (trimStart (ofLine strict raw).text) = some f →
      (ofLine strict raw).ink? = some f.mark.char := by
    intro mark hmark
    unfold Fence.ofMark? at hmark
    simp only at hmark
    split at hmark
    · cases hmark
    · next hrun =>
      split at hmark
      · cases hmark
      · obtain rfl := Option.some.inj hmark
        exact head?_of_length_takeWhile (Nat.lt_of_lt_of_le (by decide) (Nat.not_lt.mp hrun))
  unfold Fence.ofLine? at hline
  simp only at hline
  cases hbackticks : Fence.ofMark? .backticks (trimStart (ofLine strict raw).text) with
  | some f' =>
    rw [hbackticks] at hline
    exact hmark .backticks (hbackticks.trans hline)
  | none =>
    rw [hbackticks] at hline
    exact hmark .tildes hline

theorem ink_of_heading {heading : Heading} (h : l.Described) (hh : l.heading = some heading) :
    l.ink? = some '#' := by
  obtain ⟨strict, raw, rfl⟩ := h
  have hline : Heading.ofLine? strict (ofLine strict raw).text = some heading :=
    (Option.ite_none_right_eq_some.mp hh).2
  unfold Heading.ofLine? at hline
  simp only [Option.ite_none_left_eq_some] at hline
  obtain ⟨hproper, -⟩ := hline
  have hspace : ∀ c : Char, (c == ' ') = true → Text.isBlank c = true := by
    intro c hc
    rw [beq_iff_eq.mp hc]
    rfl
  rw [ink?, ← trimStart_dropWhile hspace]
  refine head?_trimStart (head?_of_length_takeWhile ?_) rfl
  simp only [Bool.or_eq_true, decide_eq_true_eq, beq_iff_eq] at hproper
  omega

theorem ink_of_marker {marker : ListMarker} (h : l.Described) (hm : l.marker = some marker) :
    ∃ c, l.ink? = some c ∧ startsMarker c = true := by
  obtain ⟨strict, raw, rfl⟩ := h
  have hline : ListMarker.ofLine? (ofLine strict raw).text = some marker :=
    (Option.ite_none_right_eq_some.mp hm).2
  unfold ListMarker.ofLine? at hline
  simp only at hline
  split at hline
  · cases hline
  · next ordered length hlength =>
    obtain ⟨c, hhead, hc⟩ := exists_of_markerLength?_eq_some hlength
    refine ⟨c, ?_, hc⟩
    rw [ink?, ← trimStart_dropWhile fun _ => isBlank_of_isIndent]
    exact head?_trimStart hhead (isBlank_of_startsMarker hc)

theorem ink_of_isRow (h : l.Described) (hrow : l.isRow = true) : l.ink? = some '|' := by
  obtain ⟨strict, raw, rfl⟩ := h
  have hline : isTableRow (ofLine strict raw).text = true := (Bool.and_eq_true_iff.mp hrow).2
  exact beq_iff_eq.mp hline

theorem ink_of_colons {rest : List Char} (h : afterColons? l.text = some rest) :
    l.ink? = some ':' := by
  obtain ⟨text, htext, -⟩ := Option.map_eq_some_iff.mp h
  have hstart : ":::".toList <+: trimStart l.text :=
    List.IsPrefix.trans ⟨text, (eq_append_of_isPrefixOf? htext).symm⟩ (trimEnd_isPrefix _)
  obtain ⟨after, hafter⟩ := hstart
  rw [ink?, ← hafter]
  rfl

theorem ink_of_zone {attributes : List Char} (hz : l.zone? = some attributes) :
    l.ink? = some ':' := by
  have hline : zoneAttributes? l.text = some attributes :=
    (Option.ite_none_right_eq_some.mp hz).2
  unfold zoneAttributes? at hline
  split at hline
  · cases hline
  · next rest hrest =>
    obtain ⟨after, hafter, -⟩ := Option.bind_eq_some_iff.mp hrest
    exact ink_of_colons hafter

theorem ink_of_isZoneEnd (h : isZoneEnd l.text = true) : l.ink? = some ':' :=
  ink_of_colons (beq_iff_eq.mp h)

/-- A quoted line has no mark of its own. -/
theorem plain_of_quoted (h : l.Described) (hq : 0 < l.quote.depth) :
    l.fence = none ∧ l.heading = none ∧ l.marker = none ∧ l.isRow = false := by
  obtain ⟨strict, raw, rfl⟩ := h
  have hdepth : ((quoteOf (contentOf raw).2).depth == 0) = false :=
    beq_false_of_ne (Nat.ne_of_gt hq)
  simp [ofLine, hdepth]

/-! ## Marks that exclude one another -/

/-- A line with another ink than a fence's is no fence. -/
theorem fence_eq_none (h : l.Described) (h1 : l.ink? ≠ some '\x60') (h2 : l.ink? ≠ some '~') :
    l.fence = none := by
  cases hf : l.fence with
  | none => rfl
  | some f =>
    have hink := ink_of_fence h hf
    cases hm : f.mark with
    | backticks =>
      rw [hm] at hink
      exact absurd hink h1
    | tildes =>
      rw [hm] at hink
      exact absurd hink h2

theorem isBlank_of_ink {c : Char} (h : l.Described) (hink : l.ink? = some c) :
    l.isBlank = false := by
  cases hblank : l.isBlank with
  | false => rfl
  | true =>
    rw [ink_of_isBlank h hblank] at hink
    cases hink

theorem zone_eq_none {c : Char} (hink : l.ink? = some c) (hc : c ≠ ':') : l.zone? = none := by
  cases hz : l.zone? with
  | none => rfl
  | some attributes => exact absurd (Option.some.inj (hink.symm.trans (ink_of_zone hz))) hc

theorem heading_eq_none (h : l.Described) (hink : l.ink? ≠ some '#') : l.heading = none := by
  cases hh : l.heading with
  | none => rfl
  | some heading => exact absurd (ink_of_heading h hh) hink

theorem isRow_eq_false (h : l.Described) (hink : l.ink? ≠ some '|') : l.isRow = false := by
  cases hr : l.isRow with
  | false => rfl
  | true => exact absurd (ink_of_isRow h hr) hink

theorem marker_eq_none {c : Char} (h : l.Described) (hink : l.ink? = some c)
    (hc : startsMarker c = false) : l.marker = none := by
  cases hm : l.marker with
  | none => rfl
  | some marker =>
    obtain ⟨d, hd, hstart⟩ := ink_of_marker h hm
    obtain rfl := Option.some.inj (hink.symm.trans hd)
    rw [hc] at hstart
    cases hstart

/-- Only a quoted line is an alert. -/
theorem alert_eq_none (hq : l.quote.depth = 0) : l.alert? = none :=
  if_neg (by omega)

/-- A line with a mark of its own is not quoted. -/
theorem depth_of_isRow (h : l.Described) (hrow : l.isRow = true) : l.quote.depth = 0 := by
  by_contra hq
  rw [(plain_of_quoted h (Nat.pos_of_ne_zero hq)).2.2.2] at hrow
  cases hrow

theorem fence_of_isBlank (h : l.Described) (hblank : l.isBlank = true) : l.fence = none :=
  fence_eq_none h (by simp [ink_of_isBlank h hblank]) (by simp [ink_of_isBlank h hblank])

theorem fence_of_isRow (h : l.Described) (hrow : l.isRow = true) : l.fence = none :=
  fence_eq_none h (by simp [ink_of_isRow h hrow]) (by simp [ink_of_isRow h hrow])

theorem fence_of_marker {marker : ListMarker} (h : l.Described) (hm : l.marker = some marker) :
    l.fence = none := by
  obtain ⟨c, hink, hc⟩ := ink_of_marker h hm
  refine fence_eq_none h ?_ ?_ <;>
  · rw [hink]
    rintro heq
    obtain rfl := Option.some.inj heq
    cases hc

end LineFacts

end ArticleAudit.Markdown
