import ArticleAudit.Markdown.Field
import ArticleAudit.Proofs.Markdown.Lines

/-!
# Where field values stand

A field line is a key, a colon and either nothing or a gap, a value and spaces at the end
(`Field.Reads`). The gap and the spaces at the end are spaces and tabs only, while a line is
trimmed of all white space; so a value is placed past the trimmed line when it is empty after a
gap, or ends in white space that is neither a space nor a tab (`value_stop_le_iff`).
-/

set_option autoImplicit false

namespace ArticleAudit.Markdown

open ArticleAudit.Text

variable {source line : List Char}

theorem isBlank_of_isKeyChar {c : Char} (h : isKeyChar c = true) : isBlank c = false := by
  rcases (by simpa [isKeyChar, isKeyStart, or_assoc] using h :
    c.isAlphanum = true ∨ c = '_' ∨ c = '.' ∨ c = '-') with h | rfl | rfl | rfl
  · exact isBlank_of_isAlphanum h
  all_goals rfl

theorem utf8Size_of_isKeyChar {c : Char} (h : isKeyChar c = true) : c.utf8Size = 1 := by
  rcases (by simpa [isKeyChar, isKeyStart, or_assoc] using h :
    c.isAlphanum = true ∨ c = '_' ∨ c = '.' ∨ c = '-') with h | rfl | rfl | rfl
  · exact utf8Size_of_isAlphanum h
  all_goals rfl

theorem trimEnd_colon_append (front rest : List Char) :
    trimEnd (front ++ [':'] ++ rest) = front ++ [':'] ++ trimEnd rest :=
  trimEnd_append rest (trimEnd_concat front rfl)

theorem ne_colon_of_isKeyChar {c : Char} (h : isKeyChar c = true) : c ≠ ':' := by
  rintro rfl
  revert h
  decide

/-- What stands before the value: a key, spaces and tabs, and a colon. -/
structure FieldHead (key blanks : List Char) : Prop where
  key_ne : key ≠ []
  key_eq : ∀ c ∈ key, isKeyChar c = true
  blanks_eq : ∀ c ∈ blanks, isIndent c = true

/-- A line is read as a field. -/
inductive Field.Reads : List Char → Field → Prop
  | absent {key blanks : List Char} : FieldHead key blanks →
    Field.Reads (key ++ blanks ++ [':']) ⟨key, key.length + 1, []⟩
  | present {key blanks gap value tail : List Char} : FieldHead key blanks → gap ≠ [] →
    (∀ c ∈ gap, isIndent c = true) → dropEndWhile isIndent value = value →
    (∀ c ∈ tail, isIndent c = true) →
    Field.Reads (key ++ blanks ++ [':'] ++ (gap ++ (value ++ tail)))
      ⟨key, byteSize (key ++ blanks ++ [':'] ++ gap), value⟩

namespace FieldHead

variable {key blanks : List Char}

theorem byteSize_key (h : FieldHead key blanks) : byteSize key = key.length :=
  byteSize_eq_length fun c hc => utf8Size_of_isKeyChar (h.key_eq c hc)

theorem byteSize_eq (h : FieldHead key blanks) :
    byteSize (key ++ blanks ++ [':']) = key.length + blanks.length + 1 := by
  simp only [byteSize_append, h.byteSize_key, byteSize_of_all_isIndent h.blanks_eq]
  rfl

theorem ne_colon (h : FieldHead key blanks) {c : Char} (hc : c ∈ key ++ blanks) : c ≠ ':' := by
  rcases List.mem_append.mp hc with hc | hc
  · exact ne_colon_of_isKeyChar (h.key_eq c hc)
  · rintro rfl
    have := h.blanks_eq ':' hc
    revert this
    decide

theorem dropWhile_eq (h : FieldHead key blanks) (rest : List Char) :
    (key ++ blanks ++ [':'] ++ rest).dropWhile (· != ':') = ':' :: rest := by
  rw [List.append_assoc, List.dropWhile_append_of_pos]
  · rfl
  · intro c hc
    simpa using h.ne_colon hc

theorem leadingIndent_eq (h : FieldHead key blanks) (rest : List Char) :
    leadingIndent (key ++ blanks ++ [':'] ++ rest) = [] := by
  obtain ⟨c, cs, rfl⟩ := List.exists_cons_of_ne_nil h.key_ne
  have hc : isIndent c = false := by
    have hkey := isBlank_of_isKeyChar (h.key_eq c List.mem_cons_self)
    cases hindent : isIndent c with
    | false => rfl
    | true => simp [isBlank_of_isIndent hindent] at hkey
  simp [leadingIndent, hc]

end FieldHead

/-- What follows the colon is nothing, or a gap, a value and the spaces and tabs at the end. -/
theorem Field.reads_of_fieldValue? {key blanks rest : List Char} {field : Field}
    (hhead : FieldHead key blanks)
    (h : fieldValue? key (key.length + blanks.length + 1) rest = some field) :
    Field.Reads (key ++ blanks ++ [':'] ++ rest) field := by
  unfold fieldValue? at h
  split at h
  · next hempty =>
    obtain rfl := Option.some.inj h
    obtain rfl : rest = [] := by simpa using hempty
    rw [List.append_nil]
    exact .absent hhead
  · simp only at h
    split at h
    · cases h
    · next hok =>
      obtain rfl := Option.some.inj h
      obtain ⟨tail, htail, hall⟩ := exists_dropEndWhile_append isIndent (rest.dropWhile isIndent)
      have hsplit := List.takeWhile_append_dropWhile (p := isIndent) (l := rest)
      have hne : rest.takeWhile isIndent ≠ [] := by
        intro hnil
        simp [hnil] at hok
      have hindent : ∀ c ∈ rest.takeWhile isIndent, isIndent c = true :=
        fun _ hx => List.mem_takeWhile_imp hx
      have hreads := Field.Reads.present hhead hne hindent
        (dropEndWhile_idem isIndent (rest.dropWhile isIndent)) hall
      rw [← htail, hsplit, byteSize_append, hhead.byteSize_eq,
        byteSize_of_all_isIndent hindent] at hreads
      exact hreads

theorem Field.reads_of_ofLine? {field : Field} (h : Field.ofLine? line = some field) :
    Field.Reads line field := by
  unfold Field.ofLine? at h
  split at h
  · cases h
  · next c cs =>
    split at h
    · cases h
    · next hstart =>
      have hkey := List.takeWhile_append_dropWhile (p := isKeyChar) (l := c :: cs)
      have hgap := List.takeWhile_append_dropWhile (p := isIndent)
        (l := (c :: cs).dropWhile isKeyChar)
      have hhead : FieldHead ((c :: cs).takeWhile isKeyChar)
          (((c :: cs).dropWhile isKeyChar).takeWhile isIndent) := by
        refine ⟨?_, fun _ hx => List.mem_takeWhile_imp hx, fun _ hx => List.mem_takeWhile_imp hx⟩
        have hc : isKeyChar c = true := by
          simp only [isKeyChar]
          simp only [Bool.not_eq_true', Bool.not_eq_false] at hstart
          simp [hstart]
        simp [hc]
      simp only at h
      split at h
      · next rest hrest =>
        have hline : c :: cs = (c :: cs).takeWhile isKeyChar ++
            ((c :: cs).dropWhile isKeyChar).takeWhile isIndent ++ [':'] ++ rest := by
          conv_lhs => rw [← hkey, ← hgap, hrest]
          simp
        rw [hline]
        exact Field.reads_of_fieldValue? hhead h
      · cases h

/-- A field line is not indented. -/
theorem Field.Reads.leadingIndent_eq {field : Field} (h : Field.Reads line field) :
    leadingIndent line = [] := by
  cases h with
  | absent hhead =>
    have := hhead.leadingIndent_eq []
    rwa [List.append_nil] at this
  | present hhead _ _ _ _ => exact hhead.leadingIndent_eq _

/-- The value of a field stands at its offset, and only spaces and tabs follow it if there is one.
-/
theorem Field.Reads.exists_split {field : Field} (h : Field.Reads line field) :
    ∃ front after, line = front ++ field.value ++ after ∧ byteSize front = field.valueOffset ∧
      (field.value = [] ∨ ∀ c ∈ after, isIndent c = true) := by
  cases h with
  | @absent key blanks hhead =>
    -- An absent value is placed one byte after the key, where a blank or the colon stands.
    have hone : ∃ x rest, blanks ++ [':'] = x :: rest ∧ x.utf8Size = 1 := by
      cases blanks with
      | nil => exact ⟨':', [], rfl, rfl⟩
      | cons x rest =>
        exact ⟨x, rest ++ [':'], rfl, utf8Size_of_isIndent (hhead.blanks_eq x List.mem_cons_self)⟩
    obtain ⟨x, rest, hrest, hx⟩ := hone
    refine ⟨key ++ [x], rest, ?_, ?_, Or.inl rfl⟩
    · rw [List.append_assoc, hrest]
      simp
    · simp [hhead.byteSize_key, hx]
  | @present key blanks gap value tail _ _ _ _ htail =>
    exact ⟨key ++ blanks ++ [':'] ++ gap, tail, by simp, rfl, Or.inr htail⟩

/-! ## Values past the trimmed line -/

section Present

variable {key blanks gap value tail : List Char}

/-- Where nothing but blanks follows the colon, the trimmed line ends with it. -/
theorem trimEnd_of_blank_value (key blanks : List Char) (hgap : ∀ c ∈ gap, isIndent c = true)
    (hvalue : ∀ c ∈ value, isBlank c = true) (htail : ∀ c ∈ tail, isIndent c = true) :
    trimEnd (key ++ blanks ++ [':'] ++ (gap ++ (value ++ tail))) = key ++ blanks ++ [':'] := by
  have hrest : trimEnd (gap ++ (value ++ tail)) = [] := by
    rw [trimEnd_eq_nil_iff]
    intro c hc
    simp only [List.mem_append] at hc
    rcases hc with hc | hc | hc
    · exact isBlank_of_isIndent (hgap c hc)
    · exact hvalue c hc
    · exact isBlank_of_isIndent (htail c hc)
  rw [trimEnd_colon_append, hrest, List.append_nil]

/-- Where the value is not blank, the trimmed line ends with the trimmed value. -/
theorem trimEnd_of_value (key blanks gap : List Char) (hvalue : ∃ c ∈ value, isBlank c = false)
    (htail : ∀ c ∈ tail, isIndent c = true) :
    trimEnd (key ++ blanks ++ [':'] ++ (gap ++ (value ++ tail))) =
      key ++ blanks ++ [':'] ++ (gap ++ trimEnd value) := by
  have hblank : ∀ c ∈ tail, isBlank c = true := fun c hc => isBlank_of_isIndent (htail c hc)
  have hrest : trimEnd (gap ++ (value ++ tail)) = gap ++ trimEnd value := by
    rw [← List.append_assoc, trimEnd, dropEndWhile_append_of_all hblank]
    exact dropEndWhile_append_of_exists gap hvalue
  rw [trimEnd_colon_append, hrest]

/-- What is trimmed from a value and the spaces and tabs after it is spaces and tabs only if nothing
is trimmed from the value. -/
theorem exists_not_isIndent_iff {rest : List Char} (hvalue : dropEndWhile isIndent value = value)
    (hrest : value = trimEnd value ++ rest) (htail : ∀ c ∈ tail, isIndent c = true) :
    (∃ c ∈ rest ++ tail, isIndent c = false) ↔ rest ≠ [] := by
  constructor
  · rintro ⟨c, hc, hindent⟩ rfl
    simp [htail c (by simpa using hc)] at hindent
  · intro hne
    obtain ⟨init, last, rfl⟩ := (List.eq_nil_or_concat rest).resolve_left hne
    refine ⟨last, by simp, ?_⟩
    apply dropEndWhile_eq_self_iff.mp hvalue
    rw [hrest]
    simp

end Present

/-- Whether what is trimmed from a field line holds the end of its value, or a value placed after
the blanks that follow the colon. -/
theorem Field.Reads.valueOffset_le_iff {field : Field} {margin : List Char}
    (h : Field.Reads line field) (hmargin : line = trimEnd line ++ margin) :
    (field.valueOffset + byteSize field.value ≤ byteSize (trimEnd line) ↔
      ¬ if (trimEnd line).dropWhile (· != ':') = [':'] then margin ≠ []
        else ∃ c ∈ margin, isIndent c = false) ∧
    ((if (trimEnd line).dropWhile (· != ':') = [':'] then margin ≠ []
        else ∃ c ∈ margin, isIndent c = false) → field.value ≠ trimEnd line) := by
  cases h with
  | @absent key blanks hhead =>
    -- Nothing follows the colon, so nothing is trimmed.
    have htrim : trimEnd (key ++ blanks ++ [':']) = key ++ blanks ++ [':'] := trimEnd_concat _ rfl
    rw [htrim] at hmargin ⊢
    obtain rfl : margin = [] := by simpa using hmargin
    have hdrop := hhead.dropWhile_eq []
    rw [List.append_nil] at hdrop
    rw [if_pos hdrop, hhead.byteSize_eq]
    simp only [byteSize_nil, ne_eq, not_true_eq_false, not_false_eq_true, iff_true, false_imp_iff,
      and_true]
    omega
  | @present key blanks gap value tail hhead hgap hgapIndent hvalue htail =>
    have hgapSize := byteSize_pos_of_ne_nil hgap
    by_cases hall : ∀ c ∈ value, isBlank c = true
    · -- Nothing but blanks follows the colon, and the value is placed after the first of them.
      rw [trimEnd_of_blank_value key blanks hgapIndent hall htail] at hmargin ⊢
      have hdrop := hhead.dropWhile_eq []
      rw [List.append_nil] at hdrop
      have hne : margin ≠ [] := by
        obtain rfl := List.append_cancel_left hmargin
        simp [hgap]
      rw [if_pos hdrop]
      refine ⟨iff_of_false ?_ (not_not.mpr hne), fun _ heq => ?_⟩
      · simp only [byteSize_append]
        omega
      · have := hall ':' (by simp [show value = key ++ blanks ++ [':'] from heq])
        revert this
        decide
    · have hink : ∃ c ∈ value, isBlank c = false := by simpa using hall
      obtain ⟨rest, hrest, -⟩ := exists_trimEnd_append value
      have htrim := trimEnd_of_value key blanks gap hink htail
      have heq : margin = rest ++ tail := by
        rw [htrim] at hmargin
        conv at hmargin => lhs; rw [hrest]
        simp only [List.append_assoc, List.append_cancel_left_eq] at hmargin
        exact hmargin.symm
      rw [htrim, if_neg (by rw [hhead.dropWhile_eq]; simp [hgap]), heq,
        exists_not_isIndent_iff hvalue hrest htail]
      have hsize := congrArg byteSize hrest
      rw [byteSize_append] at hsize
      refine ⟨?_, fun hne heq => ?_⟩
      · rw [not_not, ← byteSize_eq_zero_iff]
        simp only [byteSize_append]
        omega
      · -- The text is trimmed, the value is not.
        have heq' : value = key ++ blanks ++ [':'] ++ (gap ++ trimEnd value) := heq
        have hfix : trimEnd value = value := by
          conv_lhs => rw [heq', ← htrim, trimEnd_trimEnd, htrim, ← heq']
        rw [hfix] at hrest
        exact hne (by simpa using hrest)

/-- A field that is one line overhangs exactly when its value is placed past the trimmed line, and
then the value is not the text of the line. -/
theorem value_stop_le_iff {l : LineFacts} {field : Field} {b : Block} (hl : l.Sound source)
    (h : Field.Reads l.text field) (hkind : b.kind = .metadataField)
    (hstop : b.span.stop = l.stop) (htext : b.text.toList = trimEnd l.text) :
    (l.content.start + field.valueOffset + byteSize field.value ≤ l.stop ↔
      ¬ b.Overhangs source) ∧ (b.Overhangs source → field.value ≠ b.text.toList) := by
  have hone : '\n' ∉ b.text.toList := by
    rw [htext]
    intro hmem
    exact hl.oneLine ((trimEnd_isPrefix _).subset hmem)
  obtain ⟨margin, hmargin, -⟩ := exists_trimEnd_append l.text
  have hoverhangs : b.Overhangs source ↔
      if (trimEnd l.text).dropWhile (· != ':') = [':'] then margin ≠ []
      else ∃ c ∈ margin, isIndent c = false := by
    unfold Block.Overhangs
    rw [hkind, ← htext, ← show b.margin source = margin from hl.margin_eq hmargin hstop]
    exact and_iff_right hone
  obtain ⟨hle, hne⟩ := h.valueOffset_le_iff hmargin
  rw [hoverhangs, htext, ← hle]
  refine ⟨?_, fun hover => hne hover⟩
  simp only [LineFacts.stop]
  omega

end ArticleAudit.Markdown
