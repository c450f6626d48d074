import ArticleAudit.Metadata.Override
import ArticleAudit.Proofs.Text.Trimming

/-!
# Overrides as lines

The line of an override is a replacement too, and the override that is written with it has the same
key. Trimming the line takes the white space before the kind and the blank before an empty value
(`trim_line`). So the kind is found again unless white space starts it, and then what follows the
colon is the value (`value_written_of_not_startsBlank`). Main statement: the value and the line come
back exactly for the kinds that white space does not start; for all others the value that comes back
is the whole line, trimmed (`written_value`).
-/

set_option autoImplicit false

namespace ArticleAudit.Metadata.Override

open ArticleAudit.Text

variable {kind text : List Char} {o : Override}

/-- The override whose replacement is the line of an override. -/
def written (o : Override) : Override :=
  ⟨o.kind, o.line⟩

/-- White space starts the kind. -/
def startsBlank (o : Override) : Bool :=
  o.kind.toList.head?.any isBlank

/-! ## What follows a key -/

/-- What follows a key and a colon is found. -/
theorem afterKey?_colon (kind after : List Char) :
    afterKey? kind (kind ++ ':' :: after) = some (trim after) := by
  have hprefix : kind.isPrefixOf? (kind ++ ':' :: after) = some (':' :: after) := by
    induction kind with
    | nil => rfl
    | cons c kind ih =>
      change (if c == c then kind.isPrefixOf? (kind ++ ':' :: after) else none) = _
      rw [if_pos (beq_self_eq_true c), ih]
  rw [afterKey?, hprefix]
  rfl

/-- A key that white space starts is not found in a text that white space does not start. -/
theorem afterKey?_eq_none (hkind : kind.head?.any isBlank = true)
    (htext : ∀ c, text.head? = some c → isBlank c = false) : afterKey? kind text = none := by
  have hprefix : kind.isPrefixOf? text = none := by
    cases hcs : kind.isPrefixOf? text with
    | none => rfl
    | some rest =>
      -- A key that is found starts the text, so both start with the same character.
      have hsplit := eq_append_of_isPrefixOf? hcs
      cases kind with
      | nil => cases hkind
      | cons c kind =>
        have hc := htext c (by rw [hsplit, List.cons_append, List.head?_cons])
        exact absurd (hc.symm.trans hkind) Bool.false_ne_true
  rw [afterKey?, hprefix]
  rfl

/-! ## The value and the line -/

/-- The value is trimmed, whether it stood behind a key or not. -/
theorem exists_value_eq_trim (o : Override) : ∃ cs, o.value.toList = trim cs := by
  unfold value
  rw [String.toList_ofList]
  cases hkey : afterKey? o.kind.toList (trim o.replacement.toList) with
  | none => exact ⟨_, rfl⟩
  | some cs =>
    obtain ⟨rest, -, hrest⟩ := Option.bind_eq_some_iff.mp hkey
    split at hrest
    · exact ⟨_, (Option.some.inj hrest).symm⟩
    · cases hrest

theorem trim_value (o : Override) : trim o.value.toList = o.value.toList := by
  obtain ⟨cs, hcs⟩ := exists_value_eq_trim o
  rw [hcs, trim_trim]

theorem toList_line (o : Override) :
    o.line.toList = o.kind.toList ++ ':' :: ' ' :: o.value.toList := by
  simp [line]

/-- The colon of a line keeps what stands between it and the kind, and what stands before it but for
the white space at the start. -/
theorem trim_line (o : Override) :
    trim o.line.toList = trimStart o.kind.toList ++ ':' :: trimEnd (' ' :: o.value.toList) := by
  have hcolon : trimEnd (trimStart o.kind.toList ++ [':']) = trimStart o.kind.toList ++ [':'] :=
    trimEnd_concat _ rfl
  have hend := trimEnd_append (' ' :: o.value.toList) hcolon
  rw [List.append_assoc, List.append_assoc] at hend
  rw [toList_line, trim, trimStart_append_cons _ _ rfl]
  exact hend

/-- What stands behind the colon of a line is the value with white space before it. -/
theorem trim_after_colon (o : Override) :
    trim (trimEnd (' ' :: o.value.toList)) = o.value.toList := by
  have hblank : ∀ x ∈ [' '], isBlank x = true := List.all_eq_true.mp rfl
  rw [trim_trimEnd]
  calc trim ([' '] ++ o.value.toList) = trim o.value.toList := trim_blank_append hblank _
    _ = o.value.toList := trim_value o

/-! ## Reading the line again -/

/-- The value of a line is what follows its kind, or else the whole line. -/
theorem toList_value_written (o : Override) :
    o.written.value.toList =
      (afterKey? o.kind.toList (trim o.line.toList)).getD (trim o.line.toList) :=
  String.toList_ofList

theorem value_written_of_not_startsBlank (h : o.startsBlank = false) :
    o.written.value = o.value := by
  have hkind : trimStart o.kind.toList = o.kind.toList := by
    cases hcs : o.kind.toList with
    | nil => rfl
    | cons c rest =>
      have hc : isBlank c = false := by
        simpa [startsBlank, hcs] using h
      exact List.dropWhile_cons_of_neg (by simp [hc])
  apply String.toList_inj.mp
  rw [toList_value_written, trim_line, hkind, afterKey?_colon, Option.getD_some, trim_after_colon]

/-- Where white space starts the kind, the line has no kind when it is trimmed. -/
theorem value_written_of_startsBlank (h : o.startsBlank = true) :
    o.written.value = trimString o.line := by
  have hnone : afterKey? o.kind.toList (trim o.line.toList) = none :=
    afterKey?_eq_none h fun _ hc => isBlank_of_head?_trim hc
  apply String.toList_inj.mp
  rw [toList_value_written, hnone, Option.getD_none, trimString, String.toList_ofList]

/-- The trimmed line is longer than the value, by its colon at least. -/
theorem trimString_line_ne_value (o : Override) : trimString o.line ≠ o.value := by
  intro h
  have hlength := congrArg (fun s : String => s.toList.length) h
  simp only [trimString, String.toList_ofList, trim_line, List.length_append,
    List.length_cons] at hlength
  -- The part behind the colon is not shorter than the value, which trimming leaves of it.
  have hle : o.value.toList.length ≤ (trimEnd (' ' :: o.value.toList)).length := by
    conv_lhs => rw [← trim_after_colon o]
    exact ((trimEnd_isPrefix _).length_le).trans (trimStart_isSuffix _).length_le
  omega

theorem line_written_eq_iff (o : Override) :
    o.written.line = o.line ↔ o.written.value = o.value := by
  constructor
  · intro h
    have hlist := congrArg String.toList h
    rw [toList_line, toList_line] at hlist
    have hkind : o.written.kind = o.kind := rfl
    rw [hkind, List.append_cancel_left_eq] at hlist
    simp only [List.cons.injEq, true_and] at hlist
    exact String.toList_inj.mp hlist
  · intro h
    show o.kind ++ ": " ++ o.written.value = o.kind ++ ": " ++ o.value
    rw [h]

/-- The line of an override, read as the replacement for its kind:

* has the key of the override;
* has its value, unless white space starts the kind: then the value is the whole line, without the
  white space around it;
* so it has the value of the override, and the same line again, exactly when white space does not
  start the kind. -/
theorem written_value (o : Override) :
    o.written.key = o.key ∧
    o.written.value = (if o.startsBlank then trimString o.line else o.value) ∧
    (o.written.value = o.value ↔ o.startsBlank = false) ∧
    (o.written.line = o.line ↔ o.startsBlank = false) := by
  have hvalue : o.written.value = if o.startsBlank then trimString o.line else o.value := by
    split
    · next hblank => exact value_written_of_startsBlank hblank
    · next hblank => exact value_written_of_not_startsBlank (by simpa using hblank)
  have hiff : o.written.value = o.value ↔ o.startsBlank = false := by
    cases hblank : o.startsBlank with
    | false => simp [value_written_of_not_startsBlank hblank]
    | true => simp [value_written_of_startsBlank hblank, trimString_line_ne_value]
  exact ⟨rfl, hvalue, hiff, (line_written_eq_iff o).trans hiff⟩

/-- A value that starts like a line of its own is kept. -/
example : (written ⟨"a", "a: a: x"⟩).value = "a: x" := by
  decide +kernel

/-- A blank before the kind comes back in the value, and again in the next line. -/
theorem written_value_indentedKind :
    let o : Override := ⟨" a", "v"⟩
    o.line = " a: v" ∧ o.value = "v" ∧ o.written.value = "a: v" ∧ o.written.value ≠ o.value ∧
      o.written.line = " a: a: v" ∧ o.written.line ≠ o.line := by
  decide +kernel

end ArticleAudit.Metadata.Override
