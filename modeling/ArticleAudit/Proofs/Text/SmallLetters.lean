import ArticleAudit.Text.Blank
import ArticleAudit.Text.Case

/-!
# Small letters are small

Lowering a text twice is lowering it once (`lowercase_lowercase`). What a character is lowered to
consists of characters that are their own small forms, wherever they stand: the images of the case
table lie outside the table (`lowerTable_misses`), and no capital sigma, the only letter that looks
at its neighbours, is left. Lowering makes no character blank either.
-/

set_option autoImplicit false

namespace ArticleAudit.Unicode

/-! ## The rows of the case table -/

namespace CaseRange

/-- The image of the first code point of a row. -/
def low (r : CaseRange) : Nat :=
  r.apply r.first

/-- The image of the last code point of a row. -/
def high (r : CaseRange) : Nat :=
  r.apply r.last

/-- No image of a row is among the code points of another one: the two ranges are apart, or one
takes the even and the other the odd code points. -/
def misses (r other : CaseRange) : Bool :=
  r.high < other.first || other.last < r.low ||
    (other.step == 2 && (r.step == 2 || r.low == r.high) && (r.low + other.first) % 2 == 1)

/-- The images of a row are characters from the small `a` on, none of them blank or the dotted
capital I. -/
def sendsToLetters (r : CaseRange) : Bool :=
  0x61 ≤ r.low && (r.high < 0x85 || 0xA0 < r.low) && (r.high < 0x130 || 0x130 < r.low) &&
    (r.high < 0x1680 || 0x1680 < r.low) && (r.high < 0x2000 || 0x205F < r.low) &&
    (r.high < 0x3000 || 0x3000 < r.low) && (r.high < 0xD800 || 0xDFFF < r.low) &&
    r.high < 0x110000

theorem covers_iff {r : CaseRange} {n : Nat} :
    r.covers n = true ↔ r.first ≤ n ∧ n ≤ r.last ∧ (n - r.first) % r.step = 0 := by
  simp [covers, and_assoc]

/-- The images of a row lie between its `low` and its `high`. -/
theorem apply_mem {r : CaseRange} {n : Nat} (h : r.covers n = true) :
    r.low ≤ r.apply n ∧ r.apply n ≤ r.high := by
  obtain ⟨hfirst, hlast, -⟩ := covers_iff.mp h
  simp only [low, high, apply, Int.ofNat_eq_natCast]
  omega

theorem covers_apply_of_misses {r other : CaseRange} {n : Nat} (hr : r.covers n = true)
    (hlow : 0 < r.low) (h : r.misses other = true) : other.covers (r.apply n) = false := by
  obtain ⟨hmin, hmax⟩ := apply_mem hr
  obtain ⟨hfirst, -, hstep⟩ := covers_iff.mp hr
  rw [← Bool.not_eq_true, covers_iff]
  rintro ⟨hfirst', hlast', hstep'⟩
  simp only [misses, Bool.or_eq_true, Bool.and_eq_true, decide_eq_true_eq, beq_iff_eq] at h
  rcases h with (hover | hunder) | ⟨⟨heven, hone⟩, hodd⟩
  · omega
  · omega
  · -- Both are steps of two, from starts of different parity.
    rw [heven] at hstep'
    rcases hone with htwo | hsame
    · rw [htwo] at hstep
      simp only [low, high, apply, Int.ofNat_eq_natCast] at *
      omega
    · omega

end CaseRange

/-- No small letter of the case table is a capital letter of it. -/
theorem lowerTable_misses :
    (lowerTable.all fun r => lowerTable.all fun other => r.misses other) = true := by
  decide +kernel

theorem lowerTable_sendsToLetters : lowerTable.all CaseRange.sendsToLetters = true := by
  decide +kernel

theorem exists_covers_sigma : ∃ row ∈ lowerTable, row.covers 0x3A3 = true := by
  decide +kernel

/-- The image of a capital letter of the table: what it is not. -/
structure IsLetterImage (n : Nat) : Prop where
  isLetter : 0x61 ≤ n
  isValid : n.isValidChar
  notCovered : ∀ row ∈ lowerTable, row.covers n = false
  notDotted : n ≠ 0x130
  notBlank : (n < 0x85 ∨ 0xA0 < n) ∧ n ≠ 0x1680 ∧ (n < 0x2000 ∨ 0x205F < n) ∧ n ≠ 0x3000

theorem isLetterImage_apply {row : CaseRange} (hrow : row ∈ lowerTable) {n : Nat}
    (hn : row.covers n = true) : IsLetterImage (row.apply n) := by
  have hletters := List.all_eq_true.mp lowerTable_sendsToLetters row hrow
  have hmisses := List.all_eq_true.mp lowerTable_misses row hrow
  obtain ⟨hlow, hhigh⟩ := CaseRange.apply_mem hn
  simp only [CaseRange.sendsToLetters, Bool.and_eq_true, Bool.or_eq_true,
    decide_eq_true_eq] at hletters
  obtain ⟨⟨⟨⟨⟨⟨⟨h1, h2⟩, h3⟩, h4⟩, h5⟩, h6⟩, h7⟩, h8⟩ := hletters
  refine ⟨by omega, ?_, ?_, by omega, by omega, by omega, by omega, by omega⟩
  · simp only [Nat.isValidChar]
    omega
  · intro other hother
    exact CaseRange.covers_apply_of_misses hn (by omega) (List.all_eq_true.mp hmisses other hother)

end ArticleAudit.Unicode

namespace ArticleAudit.Text

open ArticleAudit.Unicode

/-! ## Small characters -/

/-- The character is its own small form in every context. -/
structure IsSmall (c : Char) : Prop where
  lowerChar : lowerChar c = [c]
  notSigma : c.toNat ≠ 0x3A3

theorem toNat_ofNat {n : Nat} (h : n.isValidChar) : (Char.ofNat n).toNat = n := by
  rw [Char.ofNat, dif_pos h]
  rfl

theorem toNat_toLower (c : Char) :
    c.toLower.toNat = if 0x41 ≤ c.toNat ∧ c.toNat ≤ 0x5A then c.toNat + 32 else c.toNat := by
  have hupper : (c.val ≥ 'A'.val ∧ c.val ≤ 'Z'.val) ↔ 0x41 ≤ c.toNat ∧ c.toNat ≤ 0x5A := by
    simp only [ge_iff_le, UInt32.le_iff_toNat_le]
    rfl
  unfold Char.toLower
  split
  · next h =>
    have hrange := hupper.mp h
    rw [if_pos hrange]
    show (c.val + ('a'.val - 'A'.val)).toNat = c.val.toNat + 32
    rw [UInt32.toNat_add, Nat.mod_eq_of_lt]
    · rfl
    · show c.toNat + 32 < _
      omega
  · next h => rw [if_neg fun hrange => h (hupper.mpr hrange)]

/-- An ASCII character that is no capital letter is small. -/
theorem isSmall_of_ascii {c : Char} (hascii : c.toNat < 0x80)
    (h : ¬ (0x41 ≤ c.toNat ∧ c.toNat ≤ 0x5A)) : IsSmall c := by
  refine ⟨?_, by omega⟩
  rw [lowerChar, if_pos hascii, Char.toNat_inj.mp ((toNat_toLower c).trans (if_neg h))]

/-- A character beyond ASCII that the case table does not know is lowered to itself. -/
theorem lowerChar_of_not_covered {c : Char} (hascii : 0x80 ≤ c.toNat) (hdotted : c.toNat ≠ 0x130)
    (h : ∀ row ∈ lowerTable, row.covers c.toNat = false) : lowerChar c = [c] := by
  have hfind : lowerTable.find? (·.covers c.toNat) = none := by
    rw [List.find?_eq_none]
    intro row hrow
    simp [h row hrow]
  rw [lowerChar, if_neg (Nat.not_lt.mpr hascii), if_neg (by simpa using hdotted), hfind]

theorem ne_sigma_of_not_covered {n : Nat} (h : ∀ row ∈ lowerTable, row.covers n = false) :
    n ≠ 0x3A3 := by
  rintro rfl
  obtain ⟨row, hrow, hcovers⟩ := exists_covers_sigma
  rw [h row hrow] at hcovers
  cases hcovers

/-- A character beyond ASCII that the case table does not know is small. -/
theorem isSmall_of_not_covered {c : Char} (hascii : 0x80 ≤ c.toNat) (hdotted : c.toNat ≠ 0x130)
    (h : ∀ row ∈ lowerTable, row.covers c.toNat = false) : IsSmall c :=
  ⟨lowerChar_of_not_covered hascii hdotted h, ne_sigma_of_not_covered h⟩

theorem isSmall_of_isLetterImage {c : Char} (h : IsLetterImage c.toNat) : IsSmall c := by
  have hletter := h.isLetter
  by_cases hascii : c.toNat < 0x80
  · exact isSmall_of_ascii hascii (by omega)
  · exact isSmall_of_not_covered (Nat.not_lt.mp hascii) h.notDotted h.notCovered

theorem isBlank_of_isLetterImage {c : Char} (h : IsLetterImage c.toNat) : isBlank c = false := by
  have hletter := h.isLetter
  have hblank := h.notBlank
  simp only [isBlank, Bool.or_eq_false_iff, Bool.and_eq_false_iff, decide_eq_false_iff_not,
    beq_eq_false_iff_ne]
  omega

/-! ## Lowered characters -/

/-- A character may be lowered to some text: it is not empty, it is small, and it has blanks only
if the character is one. -/
structure Lowers (c : Char) (small : List Char) : Prop where
  ne_nil : small ≠ []
  isSmall : ∀ d ∈ small, IsSmall d
  notBlank : isBlank c = false → ∀ d ∈ small, isBlank d = false

theorem lowers_singleton {c d : Char} (hsmall : IsSmall d)
    (hblank : isBlank c = false → isBlank d = false) : Lowers c [d] := by
  refine ⟨List.cons_ne_nil d [], ?_, ?_⟩
  · intro x hx
    rw [List.mem_singleton.mp hx]
    exact hsmall
  · intro hc x hx
    rw [List.mem_singleton.mp hx]
    exact hblank hc

theorem lowers_toLower {c : Char} (hascii : c.toNat < 0x80) : Lowers c [c.toLower] := by
  have hlower := toNat_toLower c
  apply lowers_singleton
  · apply isSmall_of_ascii
    · split at hlower <;> omega
    · split at hlower <;> omega
  · intro hblank
    split at hlower
    · simp only [isBlank, hlower, Bool.or_eq_false_iff, Bool.and_eq_false_iff,
        decide_eq_false_iff_not, beq_eq_false_iff_ne]
      omega
    · rwa [Char.toNat_inj.mp hlower]

theorem lowers_lowerChar (c : Char) : Lowers c (lowerChar c) := by
  by_cases hascii : c.toNat < 0x80
  · rw [lowerChar, if_pos hascii]
    exact lowers_toLower hascii
  by_cases hdotted : c.toNat = 0x130
  · rw [lowerChar, if_neg hascii, if_pos (by simpa using hdotted)]
    have hparts : ∀ d ∈ ['i', Char.ofNat 0x307], IsSmall d ∧ isBlank d = false := by
      intro d hd
      rcases (by simpa using hd : d = 'i' ∨ d = Char.ofNat 0x307) with rfl | rfl
      · exact ⟨isSmall_of_ascii (by decide) (by decide), rfl⟩
      · exact ⟨isSmall_of_not_covered (by decide) (by decide) (by decide +kernel), rfl⟩
    exact ⟨List.cons_ne_nil _ _, fun d hd => (hparts d hd).1, fun _ d hd => (hparts d hd).2⟩
  cases hfind : lowerTable.find? (·.covers c.toNat) with
  | none =>
    have hnone : ∀ row ∈ lowerTable, row.covers c.toNat = false := by
      simpa using List.find?_eq_none.mp hfind
    rw [lowerChar_of_not_covered (Nat.not_lt.mp hascii) hdotted hnone]
    exact lowers_singleton (isSmall_of_not_covered (Nat.not_lt.mp hascii) hdotted hnone) id
  | some row =>
    have hcovers := List.find?_some hfind
    have hrow := isLetterImage_apply (List.mem_of_find?_eq_some hfind) hcovers
    rw [lowerChar, if_neg hascii, if_neg (by simpa using hdotted), hfind]
    rw [← toNat_ofNat hrow.isValid] at hrow
    exact lowers_singleton (isSmall_of_isLetterImage hrow) fun _ => isBlank_of_isLetterImage hrow

/-- The two small forms of the capital sigma. -/
theorem lowers_sigma {c : Char} {n : Nat} (hn : n = 0x3C2 ∨ n = 0x3C3) :
    Lowers c [Char.ofNat n] := by
  rcases hn with rfl | rfl
  · exact lowers_singleton (isSmall_of_not_covered (by decide) (by decide) (by decide +kernel))
      fun _ => by decide
  · exact lowers_singleton (isSmall_of_not_covered (by decide) (by decide) (by decide +kernel))
      fun _ => by decide

/-! ## Lowered texts -/

/-- A text is lowered character by character. -/
theorem exists_lowerFrom_cons (before : List Char) (c : Char) (rest : List Char) :
    ∃ small, Lowers c small ∧
      lowerFrom before (c :: rest) = small ++ lowerFrom (c :: before) rest := by
  refine ⟨_, ?_, rfl⟩
  split
  · split
    · exact lowers_sigma (Or.inl rfl)
    · exact lowers_sigma (Or.inr rfl)
  · exact lowers_lowerChar c

theorem isSmall_of_mem_lowerFrom {before cs : List Char} {d : Char}
    (h : d ∈ lowerFrom before cs) : IsSmall d := by
  induction cs generalizing before with
  | nil => cases h
  | cons c rest ih =>
    obtain ⟨small, hsmall, heq⟩ := exists_lowerFrom_cons before c rest
    rw [heq] at h
    rcases List.mem_append.mp h with h | h
    · exact hsmall.isSmall d h
    · exact ih h

/-- The last character of a text is lowered last. -/
theorem exists_lowerFrom_concat (before init : List Char) (c : Char) :
    ∃ front small, Lowers c small ∧ lowerFrom before (init ++ [c]) = front ++ small := by
  induction init generalizing before with
  | nil =>
    obtain ⟨small, hsmall, heq⟩ := exists_lowerFrom_cons before c []
    exact ⟨[], small, hsmall, by simpa [lowerFrom] using heq⟩
  | cons x init ih =>
    obtain ⟨front, small, hsmall, heq⟩ := ih (x :: before)
    obtain ⟨first, -, hfirst⟩ := exists_lowerFrom_cons before x (init ++ [c])
    refine ⟨first ++ front, small, hsmall, ?_⟩
    rw [List.cons_append, hfirst, heq, List.append_assoc]

/-- A text of small characters is lowered already. -/
theorem lowerFrom_of_isSmall {cs : List Char} (before : List Char) (h : ∀ c ∈ cs, IsSmall c) :
    lowerFrom before cs = cs := by
  induction cs generalizing before with
  | nil => rfl
  | cons c rest ih =>
    have hc := h c List.mem_cons_self
    rw [lowerFrom, ih (c :: before) fun d hd => h d (List.mem_cons_of_mem c hd),
      if_neg (by simpa using hc.notSigma), hc.lowerChar]
    rfl

theorem lowercase_of_isSmall {cs : List Char} (h : ∀ c ∈ cs, IsSmall c) : lowercase cs = cs :=
  lowerFrom_of_isSmall [] h

theorem lowercase_lowercase (cs : List Char) : lowercase (lowercase cs) = lowercase cs :=
  lowercase_of_isSmall fun _ h => isSmall_of_mem_lowerFrom h

end ArticleAudit.Text
