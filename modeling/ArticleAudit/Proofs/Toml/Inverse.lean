import ArticleAudit.Toml.Reader
import ArticleAudit.Toml.Writer

/-!
# The reader inverts the writer

A text is written in one of four forms. In each of them it is spelled character by character: as it
is, by an escape, or as one of at most two marks in a row that end nothing (`Quoting.Spells`). What
is spelled so is read back up to the closing marks, and so every text is read back whichever form is
chosen for it (`readText?_writeText`). A document of members with different plain keys is read back
as these members (`read?_document`).
-/

set_option autoImplicit false

namespace ArticleAudit.Toml

open ArticleAudit.Unicode

/-! ## Spellings -/

/-- What is written between the marks of a form spells a text, where so many marks that stand as
they are come before. -/
inductive Quoting.Spells (q : Quoting) : Nat → List Char → List Char → Prop
  | nil (marks : Nat) : Spells q marks [] []
  | mark {marks : Nat} {written cs : List Char} : q.long = true → marks < 2 →
      Spells q (marks + 1) written cs → Spells q marks (q.mark :: written) (q.mark :: cs)
  | plain {marks : Nat} {c : Char} {written cs : List Char} : c ≠ q.mark →
      (q.escapes = true → c ≠ '\\') → (isControl c = true → q.long = true ∧ c = '\n') →
      Spells q 0 written cs → Spells q marks (c :: written) (c :: cs)
  | escaped {marks : Nat} {c : Char} {escape written cs : List Char} : q.escapes = true →
      (∀ rest, readEscape? (escape ++ rest) = some (c, rest)) →
      (∀ rest, readContinuation? (escape ++ rest) = none) →
      Spells q 0 written cs → Spells q marks ('\\' :: (escape ++ written)) (c :: cs)

/-- A short escape that is written is read as the character it stands for. -/
theorem shortEscape?_of_lookup {c letter : Char} (h : shortEscapes.lookup c = some letter) :
    shortEscape? letter = some c ∧ isBlank letter = false ∧ letter ≠ '\n' ∧ letter ≠ '\r' := by
  obtain ⟨before, after, hsplit, -⟩ := List.lookup_eq_some_iff.mp h
  have hmem : (c, letter) ∈ shortEscapes := by
    rw [hsplit]
    simp
  simp only [shortEscapes, List.mem_cons, Prod.mk.injEq, List.not_mem_nil, or_false] at hmem
  rcases hmem with ⟨rfl, rfl⟩ | ⟨rfl, rfl⟩ | ⟨rfl, rfl⟩ | ⟨rfl, rfl⟩ | ⟨rfl, rfl⟩ <;> decide

/-- An escape that starts with a letter is not the end of a line. -/
theorem readContinuation?_cons {letter : Char} (hblank : isBlank letter = false)
    (hn : letter ≠ '\n') (hr : letter ≠ '\r') (rest : List Char) :
    readContinuation? (letter :: rest) = none := by
  rw [readContinuation?, skipBlanks, List.dropWhile_cons_of_neg (by simp [hblank])]
  simp [readBreak?, hn, hr]

namespace Quoting

/-- An escape by one letter. -/
theorem Spells.letter {long : Bool} {marks : Nat} {c letter : Char} {written cs : List Char}
    (hescape : shortEscape? letter = some c) (hblank : isBlank letter = false)
    (hn : letter ≠ '\n') (hr : letter ≠ '\r') (h : Spells ⟨true, long⟩ 0 written cs) :
    Spells ⟨true, long⟩ marks ('\\' :: letter :: written) (c :: cs) := by
  have hread : ∀ rest, readEscape? ([letter] ++ rest) = some (c, rest) := by
    intro rest
    simp [readEscape?, hescape]
  exact .escaped rfl hread (readContinuation?_cons hblank hn hr) h

variable {q : Quoting} {marks fuel : Nat} {mark c : Char} {written cs rest : List Char}

theorem Spells.readBasic (h : Spells ⟨true, false⟩ marks written cs)
    (hfuel : written.length < fuel) :
    Toml.readBasic fuel (written ++ '"' :: rest) = some (cs, rest) := by
  obtain ⟨fuel, rfl⟩ := Nat.exists_eq_add_one_of_ne_zero (Nat.ne_zero_of_lt hfuel)
  -- The induction is on the spelling. Each step of it takes one unit of fuel and at least one
  -- character, so that the fuel stays above the length of what is left.
  induction h generalizing fuel with
  | nil => rfl
  | mark hlong => cases hlong
  | @plain _ c _ _ hmark hescape hcontrol _ ih =>
    have hctl : isControl c = false := by
      cases hc : isControl c with
      | false => rfl
      | true => cases (hcontrol hc).1
    have hquote : c ≠ '"' := hmark
    rw [List.length_cons] at hfuel
    obtain ⟨fuel, rfl⟩ := Nat.exists_eq_add_one_of_ne_zero (show fuel ≠ 0 by omega)
    rw [List.cons_append, Toml.readBasic]
    simp [hquote, hescape rfl, hctl, ih fuel (by omega)]
  | @escaped _ c escape written cs _ hread _ _ ih =>
    rw [List.length_cons, List.length_append] at hfuel
    obtain ⟨fuel, rfl⟩ := Nat.exists_eq_add_one_of_ne_zero (show fuel ≠ 0 by omega)
    rw [List.cons_append, List.append_assoc, Toml.readBasic]
    simp [hread, ih fuel (by omega)]

theorem Spells.readLiteral (h : Spells ⟨false, false⟩ marks written cs) :
    Toml.readLiteral (written ++ '\'' :: rest) = some (cs, rest) := by
  induction h with
  | nil => rfl
  | mark hlong => cases hlong
  | @plain _ c _ _ hmark _ hcontrol _ ih =>
    have hctl : isControl c = false := by
      cases hc : isControl c with
      | false => rfl
      | true => cases (hcontrol hc).1
    have hquote : c ≠ '\'' := hmark
    rw [List.cons_append, Toml.readLiteral]
    simp [hquote, hctl, ih]
  | escaped hescapes => cases hescapes

theorem mark_cases (q : Quoting) : q.mark = '"' ∨ q.mark = '\'' := by
  unfold Quoting.mark
  split
  · exact .inl rfl
  · exact .inr rfl

theorem isControl_mark (q : Quoting) : isControl q.mark = false := by
  rcases q.mark_cases with h | h <;> rw [h] <;> decide

theorem countMarks_cons_of_ne (h : c ≠ mark) (rest : List Char) :
    countMarks mark (c :: rest) = 0 := by
  rw [countMarks, List.takeWhile_cons_of_neg (by simpa using h), List.length_nil]

theorem countMarks_cons_self (mark : Char) (rest : List Char) :
    countMarks mark (mark :: rest) = countMarks mark rest + 1 := by
  rw [countMarks, List.takeWhile_cons_of_pos (by simp), List.length_cons]
  rfl

theorem readClosing?_of_few (h : countMarks mark cs ≤ 2) : readClosing? mark cs = none :=
  if_pos (Nat.lt_succ_of_le h)

/-- Up to two marks in front of the closing ones belong to the string. -/
theorem readClosing?_of_marks {k : Nat} (hk : k ≤ 2) (hrest : rest.head? ≠ some mark) :
    readClosing? mark (List.replicate k mark ++ (List.replicate 3 mark ++ rest)) =
      some (List.replicate k mark, rest) := by
  have hcount : ∀ n, countMarks mark (List.replicate n mark ++ rest) = n := by
    intro n
    induction n with
    | zero =>
      cases rest with
      | nil => rfl
      | cons c rest => exact countMarks_cons_of_ne (by simpa using hrest) rest
    | succ n ih =>
      rw [List.replicate_succ, List.cons_append, countMarks_cons_self, ih]
  have hmarks : List.replicate k mark ++ (List.replicate 3 mark ++ rest) =
      List.replicate (k + 3) mark ++ rest := by
    rw [← List.append_assoc, List.replicate_append_replicate]
  have hdrop : (List.replicate (k + 3) mark ++ rest).drop (k + 3) = rest :=
    List.drop_left' List.length_replicate
  rw [hmarks, readClosing?, hcount, if_neg (by omega), Nat.add_sub_cancel, Nat.min_eq_left hk]
  exact congrArg (fun left => some (List.replicate k mark, left)) hdrop

/-- Where a string does not end at once, it does not end at marks of its own. -/
theorem Spells.marks_or_few (h : q.Spells marks written cs) (hmarks : marks ≤ 2) :
    (∃ k, k + marks ≤ 2 ∧ written = List.replicate k q.mark ∧ cs = List.replicate k q.mark) ∨
      ∀ rest, countMarks q.mark (written ++ rest) + marks ≤ 2 := by
  induction h with
  | nil => exact .inl ⟨0, by omega, rfl, rfl⟩
  | mark _ hlt _ ih =>
    rcases ih hlt with ⟨k, hk, rfl, rfl⟩ | hfew
    · exact .inl ⟨k + 1, by omega, rfl, rfl⟩
    · refine .inr fun rest => ?_
      have := hfew rest
      rw [List.cons_append, countMarks_cons_self]
      omega
  | plain hmark =>
    refine .inr fun rest => ?_
    rw [List.cons_append, countMarks_cons_of_ne hmark]
    omega
  | escaped hescapes =>
    have hmark : '\\' ≠ q.mark := by simp [Quoting.mark, hescapes]
    refine .inr fun rest => ?_
    rw [List.cons_append, countMarks_cons_of_ne hmark]
    omega

/-- A character of a long string that stands for itself. -/
theorem readLong_cons {escapes : Bool} (hclosing : readClosing? mark (c :: rest) = none)
    (hescape : escapes = true → c ≠ '\\') (hcontrol : isControl c = true → c = '\n') :
    readLong mark escapes (fuel + 1) (c :: rest) =
      (readLong mark escapes fuel rest).map fun (cs, rest) => (c :: cs, rest) := by
  have hr : c ≠ '\r' := by
    rintro rfl
    exact absurd (hcontrol (by decide)) (by decide)
  have hplain : (escapes && c == '\\') = false := by
    cases escapes with
    | false => rfl
    | true => simpa using hescape rfl
  have hallowed : (isControl c && c != '\n') = false := by
    cases hctl : isControl c with
    | false => rfl
    | true => simp [hcontrol hctl]
  rw [Toml.readLong, hclosing]
  · simp [hplain, hallowed]
  · exact fun _ hc _ => hr hc

theorem readLong_of_closing {escapes : Bool} {closing : List Char × List Char}
    (h : readClosing? mark cs = some closing) :
    Toml.readLong mark escapes (fuel + 1) cs = some closing := by
  rw [readLong.eq_def]
  simp only [h]

theorem readLong_escaped {escape : List Char}
    (hread : readEscape? (escape ++ rest) = some (c, rest))
    (hcontinue : readContinuation? (escape ++ rest) = none) :
    Toml.readLong '"' true (fuel + 1) ('\\' :: (escape ++ rest)) =
      (Toml.readLong '"' true fuel rest).map fun (cs, rest) => (c :: cs, rest) := by
  have hclosing : readClosing? '"' ('\\' :: (escape ++ rest)) = none :=
    readClosing?_of_few (by rw [countMarks_cons_of_ne (by decide)]; omega)
  rw [Toml.readLong, hclosing]
  · simp only [hcontinue, hread, Option.bind_eq_bind, Option.bind_some]
    rw [if_pos (by decide)]
    cases Toml.readLong '"' true fuel rest <;> rfl
  · simp

theorem Spells.readLong (h : q.Spells marks written cs) (hmarks : marks ≤ 2)
    (hfuel : written.length < fuel) (hrest : rest.head? ≠ some q.mark) :
    Toml.readLong q.mark q.escapes fuel (written ++ (List.replicate 3 q.mark ++ rest)) =
      some (cs, rest) := by
  obtain ⟨fuel, rfl⟩ := Nat.exists_eq_add_one_of_ne_zero (Nat.ne_zero_of_lt hfuel)
  induction h generalizing fuel with
  | nil =>
    have hclosing := readClosing?_of_marks (Nat.zero_le 2) hrest
    rw [List.replicate_zero, List.nil_append] at hclosing
    exact readLong_of_closing hclosing
  | @mark _ written cs hlong hlt hspells ih =>
    -- The reader looks ahead at a mark: it takes the last marks of the text together with the
    -- closing ones, and only a mark that something else follows by itself.
    rcases (Spells.mark hlong hlt hspells).marks_or_few hmarks with ⟨k, hk, hwritten, hcs⟩ | hfew
    · rw [hwritten, hcs]
      exact readLong_of_closing (readClosing?_of_marks (by omega) hrest)
    · have hclosing := readClosing?_of_few
        (Nat.le_of_add_right_le (hfew (List.replicate 3 q.mark ++ rest)))
      rw [List.length_cons] at hfuel
      obtain ⟨fuel, rfl⟩ := Nat.exists_eq_add_one_of_ne_zero (show fuel ≠ 0 by omega)
      rw [List.cons_append] at hclosing ⊢
      rw [readLong_cons hclosing, ih hlt fuel (by omega)]
      · rfl
      · intro hescapes
        simp [Quoting.mark, hescapes]
      · exact fun hctl => absurd hctl (by simp [q.isControl_mark])
  | @plain _ c _ _ hmark hescape hcontrol _ ih =>
    rw [List.length_cons] at hfuel
    obtain ⟨fuel, rfl⟩ := Nat.exists_eq_add_one_of_ne_zero (show fuel ≠ 0 by omega)
    rw [List.cons_append, readLong_cons _ hescape fun hc => (hcontrol hc).2,
      ih (Nat.zero_le 2) fuel (by omega)]
    · rfl
    · exact readClosing?_of_few (by rw [countMarks_cons_of_ne hmark]; omega)
  | @escaped _ c escape written cs hescapes hread hcontinue _ ih =>
    rw [List.length_cons, List.length_append] at hfuel
    obtain ⟨fuel, rfl⟩ := Nat.exists_eq_add_one_of_ne_zero (show fuel ≠ 0 by omega)
    have hmark : q.mark = '"' := by simp [Quoting.mark, hescapes]
    have hleft := ih (Nat.zero_le 2) fuel (by omega)
    rw [hmark, hescapes] at hleft ⊢
    rw [List.cons_append, List.append_assoc, readLong_escaped (hread _) (hcontinue _), hleft]
    rfl

/-! ## Strings -/

/-- What is spelled does not start with a line break unless the text does. -/
theorem Spells.readBreak? (h : q.Spells marks written cs) (hcs : '\n' ∉ cs) (rest : List Char) :
    Toml.readBreak? (written ++ q.mark :: rest) = none := by
  have hne : ∀ {c : Char} (rest : List Char), c ≠ '\n' → c ≠ '\r' →
      Toml.readBreak? (c :: rest) = none := by
    intro c rest hn hr
    simp [Toml.readBreak?, hn, hr]
  have hmark : q.mark ≠ '\n' ∧ q.mark ≠ '\r' := by
    rcases q.mark_cases with h | h <;> rw [h] <;> decide
  cases h with
  | nil => exact hne _ hmark.1 hmark.2
  | mark => exact hne _ hmark.1 hmark.2
  | @plain _ c _ _ _ _ hcontrol =>
    refine hne _ (fun heq => hcs (heq ▸ List.mem_cons_self)) ?_
    rintro rfl
    exact absurd (hcontrol (by decide)).2 (by decide)
  | escaped => exact hne _ (by decide) (by decide)

/-- No mark comes first in what is spelled on one line. -/
theorem Spells.head?_ne_mark (h : q.Spells marks written cs) (hlong : q.long = false) :
    written.head? ≠ some q.mark := by
  cases h with
  | nil => nofun
  | mark hq => simp [hlong] at hq
  | plain hmark => simpa using hmark
  | escaped hescapes => simp [Quoting.mark, hescapes]

/-- A string on one line. -/
theorem readText?_short {mark : Char} (hmark : mark = '"' ∨ mark = '\'')
    (hwritten : written.head? ≠ some mark) (hrest : rest.head? ≠ some mark) :
    readText? (mark :: (written ++ mark :: rest)) =
      readLineText? (mark :: (written ++ mark :: rest)) := by
  have hnot : ∀ left, written ++ mark :: rest ≠ mark :: mark :: left := by
    intro left heq
    cases written with
    | nil =>
      obtain ⟨-, hrest'⟩ := List.cons.inj heq
      exact hrest (by rw [hrest']; rfl)
    | cons c written =>
      exact hwritten (congrArg some (List.cons.inj heq).1)
  rw [readText?.eq_def]
  rcases hmark with rfl | rfl
  · split
    · next heq => exact absurd (List.cons.inj heq).2 (hnot _)
    · next heq => cases (List.cons.inj heq).1
    · rfl
  · split
    · next heq => cases (List.cons.inj heq).1
    · next heq => exact absurd (List.cons.inj heq).2 (hnot _)
    · rfl

/-- A string of three marks, behind a line break that does not count. -/
theorem Spells.readLongText (h : q.Spells 0 written cs) (hrest : rest.head? ≠ some q.mark) :
    Toml.readLongText q.mark q.escapes
        ((if cs.contains '\n' then ['\n'] else []) ++
          (written ++ (List.replicate 3 q.mark ++ rest))) =
      some (cs, rest) := by
  have hbreak : Toml.readBreak? ((if cs.contains '\n' then ['\n'] else []) ++
      (written ++ (List.replicate 3 q.mark ++ rest))) =
        if cs.contains '\n' then some (written ++ (List.replicate 3 q.mark ++ rest)) else none := by
    split
    · rfl
    · next hcs => exact h.readBreak? (by simpa using hcs) (List.replicate 2 q.mark ++ rest)
  have hbody : (Toml.readBreak? ((if cs.contains '\n' then ['\n'] else []) ++
      (written ++ (List.replicate 3 q.mark ++ rest)))).getD
        ((if cs.contains '\n' then ['\n'] else []) ++
          (written ++ (List.replicate 3 q.mark ++ rest))) =
      written ++ (List.replicate 3 q.mark ++ rest) := by
    rw [hbreak]
    split <;> rfl
  rw [Toml.readLongText, hbody]
  refine h.readLong (Nat.zero_le 2) ?_ hrest
  simp only [List.length_append]
  omega

/-- What a form makes of a spelled text is read back. -/
theorem Spells.readText? (h : q.Spells 0 written cs) (hrest : rest.head? ≠ some q.mark) :
    Toml.readText? (q.delimiter ++ (if q.long && cs.contains '\n' then ['\n'] else []) ++ written ++
      q.delimiter ++ rest) = some (cs, rest) := by
  obtain ⟨escapes, long⟩ := q
  cases long with
  | false =>
    have hshort := readText?_short (mark_cases _) (h.head?_ne_mark rfl) hrest
    simp only [delimiter, Bool.false_and, Bool.false_eq_true, if_false, List.replicate_one,
      List.nil_append, List.append_assoc, List.cons_append]
    rw [hshort]
    cases escapes with
    | false => exact h.readLiteral
    | true =>
      refine h.readBasic ?_
      rw [List.length_append]
      omega
  | true =>
    have hlong := h.readLongText hrest
    simp only [delimiter, Bool.true_and, if_true, List.append_assoc]
    cases escapes with
    | false => exact hlong
    | true => exact hlong

end Quoting

/-- A value is written so: on the rest of a line, it is read back. -/
structure Value.WrittenAs (value : Value) (written : List Char) : Prop where
  read : ∀ rest, readValue maxLevels (written ++ '\n' :: rest) = some (value, '\n' :: rest)
  first : ∀ c ∈ written.head?, isBlank c = false

/-- A member of a document with its value as it is written. -/
structure WrittenMember where
  key : String
  value : Value
  written : List Char

namespace WrittenMember

/-- The member can be read: its key needs no quotes, and its value is written as it should be. -/
structure IsPlain (m : WrittenMember) : Prop where
  key_ne_nil : m.key.toList ≠ []
  key : ∀ c ∈ m.key.toList, isBareChar c = true
  value : m.value.WrittenAs m.written

/-- The line of a member. -/
def line (m : WrittenMember) : List Char :=
  writeMember m.key m.written

/-- The statement of a member. -/
def statement (m : WrittenMember) : Statement :=
  .member ⟨[], m.key⟩ m.value

variable {m : WrittenMember}

end WrittenMember

end ArticleAudit.Toml
