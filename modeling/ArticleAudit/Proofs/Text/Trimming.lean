import ArticleAudit.Proofs.Text.Standing
import ArticleAudit.Text.Blank
import Mathlib.Data.List.DropRight

/-!
# What trimming takes away

A trimmed text is an initial part of the text and the rest is blank (`exists_trimEnd_append`); a
part whose end is not blank survives the trimming of everything after it (`trimEnd_append`).
`InkStopsBy` bounds where the characters stand that are not blank. Spaces and tabs are single
bytes, so their number is their size.
-/

set_option autoImplicit false

namespace ArticleAudit.Text

variable {α : Type} {p q : α → Bool} {cs a b : List Char}

theorem dropEndWhile_eq_rdropWhile (p : α → Bool) (xs : List α) :
    dropEndWhile p xs = xs.rdropWhile p := rfl

/-- A list is its trimmed part and a final part of elements that were dropped. -/
theorem exists_dropEndWhile_append (p : α → Bool) (xs : List α) :
    ∃ tail, xs = dropEndWhile p xs ++ tail ∧ ∀ x ∈ tail, p x = true :=
  ⟨xs.rtakeWhile p, List.rdropWhile_append_rtakeWhile.symm, fun _ hx => List.mem_rtakeWhile_imp hx⟩

theorem dropEndWhile_append_of_all {xs ys : List α} (h : ∀ y ∈ ys, p y = true) :
    dropEndWhile p (xs ++ ys) = dropEndWhile p xs := by
  have hrev : ∀ y ∈ ys.reverse, p y = true := fun y hy => h y (List.mem_reverse.mp hy)
  simp only [dropEndWhile, List.reverse_append]
  rw [List.dropWhile_append_of_pos hrev]

theorem dropEndWhile_eq_nil_iff {xs : List α} : dropEndWhile p xs = [] ↔ ∀ x ∈ xs, p x = true :=
  List.rdropWhile_eq_nil_iff

/-- A last part of which something is kept leaves all before it. -/
theorem dropEndWhile_append_of_exists (xs : List α) {ys : List α}
    (h : ∃ y ∈ ys, p y = false) : dropEndWhile p (xs ++ ys) = xs ++ dropEndWhile p ys := by
  obtain ⟨y, hy, hpy⟩ := h
  have hne : ys.reverse.dropWhile p ≠ [] := by
    intro hnil
    have := List.dropWhile_eq_nil_iff.mp hnil y (List.mem_reverse.mpr hy)
    simp [this] at hpy
  simp only [dropEndWhile, List.reverse_append, List.dropWhile_append]
  rw [if_neg (by simpa using hne), List.reverse_append, List.reverse_reverse]

/-- A first part whose end is kept is kept whole. -/
theorem dropEndWhile_append {xs : List α} (ys : List α) (h : dropEndWhile p xs = xs) :
    dropEndWhile p (xs ++ ys) = xs ++ dropEndWhile p ys := by
  by_cases hall : ∀ y ∈ ys, p y = true
  · rw [dropEndWhile_append_of_all hall, dropEndWhile_eq_nil_iff.mpr hall, h, List.append_nil]
  · apply dropEndWhile_append_of_exists
    simpa using hall

theorem dropEndWhile_idem (p : α → Bool) (xs : List α) :
    dropEndWhile p (dropEndWhile p xs) = dropEndWhile p xs :=
  List.rdropWhile_idempotent p xs

theorem dropEndWhile_eq_self_iff {xs : List α} :
    dropEndWhile p xs = xs ↔ ∀ x, xs.getLast? = some x → p x = false := by
  rw [dropEndWhile_eq_rdropWhile, List.rdropWhile_eq_self_iff]
  constructor
  · intro h x hx
    have hne : xs ≠ [] := by
      rintro rfl
      simp at hx
    have hlast : xs.getLast hne = x := by
      rw [List.getLast?_eq_some_getLast hne] at hx
      exact Option.some.inj hx
    simpa [hlast] using h hne
  · intro h hne
    simp [h _ (List.getLast?_eq_some_getLast hne)]

/-! ## White space -/

theorem exists_trimEnd_append (cs : List Char) :
    ∃ tail, cs = trimEnd cs ++ tail ∧ ∀ c ∈ tail, isBlank c = true :=
  exists_dropEndWhile_append isBlank cs

theorem trimEnd_append (b : List Char) (h : trimEnd a = a) : trimEnd (a ++ b) = a ++ trimEnd b :=
  dropEndWhile_append b h

theorem trimEnd_eq_nil_iff : trimEnd cs = [] ↔ ∀ c ∈ cs, isBlank c = true :=
  dropEndWhile_eq_nil_iff

@[simp] theorem trimEnd_nil : trimEnd [] = [] := rfl

theorem trimEnd_trimEnd (cs : List Char) : trimEnd (trimEnd cs) = trimEnd cs :=
  dropEndWhile_idem isBlank cs

/-- A text that ends in a character that is not blank is trimmed. -/
theorem trimEnd_concat {c : Char} (a : List Char) (h : isBlank c = false) :
    trimEnd (a ++ [c]) = a ++ [c] := by
  rw [trimEnd, dropEndWhile_eq_rdropWhile, List.rdropWhile_concat_neg _ _ _ (by simp [h])]

theorem byteSize_trimEnd_le (cs : List Char) : byteSize (trimEnd cs) ≤ byteSize cs := by
  obtain ⟨tail, htail, -⟩ := exists_trimEnd_append cs
  have := congrArg byteSize htail
  rw [byteSize_append] at this
  omega

theorem trimStart_append_takeWhile (cs : List Char) :
    cs.takeWhile isBlank ++ trimStart cs = cs :=
  List.takeWhile_append_dropWhile

theorem trim_eq_nil_iff : trim cs = [] ↔ ∀ c ∈ cs, isBlank c = true := by
  rw [trim, trimEnd_eq_nil_iff]
  constructor
  · intro h c hc
    rw [← trimStart_append_takeWhile cs] at hc
    rcases List.mem_append.mp hc with hc | hc
    · exact List.mem_takeWhile_imp hc
    · exact h c hc
  · exact fun h c hc => h c ((trimStart_isSuffix cs).subset hc)

/-- What trimming leaves stands between the white space on both sides. -/
theorem exists_trim_append (cs : List Char) :
    ∃ tail, cs = cs.takeWhile isBlank ++ trim cs ++ tail ∧ ∀ c ∈ tail, isBlank c = true := by
  obtain ⟨tail, htail, hblank⟩ := exists_trimEnd_append (trimStart cs)
  refine ⟨tail, ?_, hblank⟩
  conv_lhs => rw [← trimStart_append_takeWhile cs, htail]
  rw [List.append_assoc]
  rfl

/-- A text is trimmed when neither of its ends is blank. -/
theorem trim_eq_self (hfirst : ∀ c, cs.head? = some c → isBlank c = false)
    (hlast : ∀ c, cs.getLast? = some c → isBlank c = false) : trim cs = cs := by
  have hstart : trimStart cs = cs := by
    cases cs with
    | nil => rfl
    | cons c rest => exact List.dropWhile_cons_of_neg (by simp [hfirst c rfl])
  rw [trim, hstart]
  exact dropEndWhile_eq_self_iff.mpr hlast

theorem isBlank_of_head?_trim {c : Char} (h : (trim cs).head? = some c) : isBlank c = false := by
  obtain ⟨rest, hrest⟩ := List.head?_eq_some_iff.mp h
  have hprefix : trim cs <+: trimStart cs := trimEnd_isPrefix _
  rw [hrest] at hprefix
  obtain ⟨after, hafter⟩ := hprefix
  have hfirst : (cs.dropWhile isBlank).head? = some c := by
    show (trimStart cs).head? = some c
    rw [← hafter]
    rfl
  simpa [hfirst] using List.head?_dropWhile_not isBlank cs

theorem isBlank_of_getLast?_trim {c : Char} (h : (trim cs).getLast? = some c) :
    isBlank c = false :=
  dropEndWhile_eq_self_iff.mp (trimEnd_trimEnd (trimStart cs)) c h

/-- A character that is not blank ends the white space before it. -/
theorem trimStart_append_cons {x : Char} (a rest : List Char) (hx : isBlank x = false) :
    trimStart (a ++ x :: rest) = trimStart a ++ x :: rest := by
  have hcons : ¬ isBlank x = true := by simp [hx]
  simp only [trimStart, List.dropWhile_append, List.dropWhile_cons_of_neg hcons]
  split
  · next hnil => rw [List.isEmpty_iff.mp hnil, List.nil_append]
  · rfl

/-- White space before a text is trimmed off. -/
theorem trim_blank_append (ha : ∀ x ∈ a, isBlank x = true) (b : List Char) :
    trim (a ++ b) = trim b := by
  rw [trim, trimStart, List.dropWhile_append_of_pos ha]
  rfl

/-- White space after a text is trimmed off. -/
theorem trim_append_blank (a : List Char) (hb : ∀ x ∈ b, isBlank x = true) :
    trim (a ++ b) = trim a := by
  simp only [trim, trimStart, List.dropWhile_append]
  split
  · next hnil => rw [List.isEmpty_iff.mp hnil, List.dropWhile_eq_nil_iff.mpr hb]
  · exact dropEndWhile_append_of_all hb

theorem trim_trimEnd (cs : List Char) : trim (trimEnd cs) = trim cs := by
  obtain ⟨tail, hcs, htail⟩ := exists_trimEnd_append cs
  conv_rhs => rw [hcs]
  exact (trim_append_blank _ htail).symm

theorem trim_trim (cs : List Char) : trim (trim cs) = trim cs :=
  trim_eq_self (fun _ h => isBlank_of_head?_trim h) (fun _ h => isBlank_of_getLast?_trim h)

/-- What is not blank of a text that stands at `base` stops by an offset. -/
def InkStopsBy (base : Nat) (cs : List Char) (stop : Nat) : Prop :=
  ∀ u c v, cs = u ++ c :: v → isBlank c = false → base + byteSize u + c.utf8Size ≤ stop

namespace InkStopsBy

variable {base stop : Nat}

theorem right (h : InkStopsBy base (a ++ b) stop) : InkStopsBy (base + byteSize a) b stop := by
  intro u c v hb hc
  have := h (a ++ u) c v (by rw [hb, List.append_assoc]) hc
  simp only [byteSize_append] at this
  omega

theorem of_byteSize_le (h : base + byteSize cs ≤ stop) : InkStopsBy base cs stop := by
  intro u c v hcs _
  rw [hcs] at h
  simp only [byteSize_append, byteSize_cons] at h
  omega

/-- A part that ends in a character that is not blank stops by that offset too. -/
theorem part_le {part after : List Char} {last : Char}
    (h : InkStopsBy base (a ++ part ++ after) stop) (hpart : part.getLast? = some last)
    (hlast : isBlank last = false) :
    base + byteSize a + byteSize part ≤ stop := by
  obtain ⟨init, rfl⟩ := List.getLast?_eq_some_iff.mp hpart
  have := h (a ++ init) last after (by simp) hlast
  simp only [byteSize_append, byteSize_cons, byteSize_nil] at this ⊢
  omega

end InkStopsBy

/-! ## Spaces and tabs -/

theorem isIndent_iff {c : Char} : isIndent c = true ↔ c = ' ' ∨ c = '\t' := by
  simp [isIndent]

theorem utf8Size_of_isIndent {c : Char} (h : isIndent c = true) : c.utf8Size = 1 := by
  rcases isIndent_iff.mp h with rfl | rfl <;> rfl

theorem isBlank_of_isIndent {c : Char} (h : isIndent c = true) : isBlank c = true := by
  rcases isIndent_iff.mp h with rfl | rfl <;> rfl

theorem isBlank_of_isLineEnd {c : Char} (h : isLineEnd c = true) : isBlank c = true := by
  have h' : c = '\r' ∨ c = '\n' := by simpa [isLineEnd] using h
  rcases h' with rfl | rfl <;> rfl

theorem byteSize_of_all_isIndent (h : ∀ c ∈ cs, isIndent c = true) : byteSize cs = cs.length :=
  byteSize_eq_length fun c hc => utf8Size_of_isIndent (h c hc)

theorem isIndent_of_mem_takeWhile {c : Char} (h : c ∈ cs.takeWhile isIndent) :
    isIndent c = true :=
  List.mem_takeWhile_imp h

/-! ## Letters and digits -/

theorem toNat_of_isAlphanum {c : Char} (h : c.isAlphanum = true) :
    48 ≤ c.toNat ∧ c.toNat ≤ 122 := by
  change ((decide (c.val ≥ 'A'.val ∧ c.val ≤ 'Z'.val) ||
    decide (c.val ≥ 'a'.val) && decide (c.val ≤ 'z'.val)) ||
    decide (c.val ≥ '0'.val) && decide (c.val ≤ '9'.val)) = true at h
  simp only [Bool.or_eq_true, Bool.and_eq_true, decide_eq_true_eq, UInt32.le_iff_toNat_le,
    ge_iff_le] at h
  have hn : c.toNat = c.val.toNat := rfl
  have hA : 'A'.val.toNat = 65 := rfl
  have hZ : 'Z'.val.toNat = 90 := rfl
  have ha : 'a'.val.toNat = 97 := rfl
  have hz : 'z'.val.toNat = 122 := rfl
  have h0 : '0'.val.toNat = 48 := rfl
  have h9 : '9'.val.toNat = 57 := rfl
  omega

theorem utf8Size_of_isAlphanum {c : Char} (h : c.isAlphanum = true) : c.utf8Size = 1 := by
  have hn := (toNat_of_isAlphanum h).2
  have hval : c.val ≤ 127 := by
    rw [UInt32.le_iff_toNat_le]
    exact hn.trans (by decide)
  simp [Char.utf8Size, hval]

theorem isBlank_of_isAlphanum {c : Char} (h : c.isAlphanum = true) : isBlank c = false := by
  have := toNat_of_isAlphanum h
  simp only [isBlank, Bool.or_eq_false_iff, Bool.and_eq_false_iff, decide_eq_false_iff_not,
    beq_eq_false_iff_ne]
  omega

end ArticleAudit.Text
