import ArticleAudit.Metadata.Section
import ArticleAudit.Proofs.Text.WrittenLines
import Mathlib.Data.List.Forall2

/-!
# Metadata without their indentation

A YAML document has its metadata in the lines under a top-level key. Of these lines the common
indentation is cut off, and the white space at their ends (`dedent_eq`). The indentation is measured
in bytes, and as many bytes are cut off every line, which is possible exactly where a character ends
after them (`forall₂_dedent`). A line that has a wider character there is lost as a whole
(`textOf_loses_wideBlank`); all other lines keep everything behind their indentation
(`textOf_dedents`).
-/

set_option autoImplicit false

namespace ArticleAudit.Metadata

open ArticleAudit.Text

variable {l out : List Char} {lines before body after : List (List Char)} {m n : Nat}

/-! ## Indentation -/

/-- The line has `n` bytes of white space before its first character that is not blank. -/
def IndentedBy (n : Nat) (l : List Char) : Prop :=
  ∃ lead c rest, l = lead ++ c :: rest ∧ (∀ d ∈ lead, isBlank d = true) ∧ isBlank c = false ∧
    byteSize lead = n

/-- The line without `n` bytes of white space at its start, and without that at its end. -/
def Dedents (n : Nat) (l out : List Char) : Prop :=
  ∃ lead rest, l = lead ++ rest ∧ (∀ d ∈ lead, isBlank d = true) ∧ byteSize lead = n ∧
    out = trimEnd rest

/-- A line is blank, or it is indented by some number of bytes. -/
theorem exists_indentedBy (h : ¬ ∀ c ∈ l, isBlank c = true) : ∃ n, IndentedBy n l := by
  have hsplit := trimStart_append_takeWhile l
  cases hstart : trimStart l with
  | nil =>
    rw [hstart, List.append_nil] at hsplit
    exact absurd (fun c hc => List.mem_takeWhile_imp (hsplit ▸ hc)) h
  | cons c rest =>
    rw [hstart] at hsplit
    refine ⟨_, l.takeWhile isBlank, c, rest, hsplit.symm, ?_, ?_, rfl⟩
    · exact fun d hd => List.mem_takeWhile_imp hd
    · have hfirst := List.head?_dropWhile_not isBlank l
      rw [show l.dropWhile isBlank = c :: rest from hstart] at hfirst
      simpa using hfirst

namespace IndentedBy

theorem not_blank (h : IndentedBy n l) : ¬ ∀ c ∈ l, isBlank c = true := by
  obtain ⟨lead, c, rest, rfl, -, hc, -⟩ := h
  intro hall
  have hblank := hall c (by simp)
  rw [hc] at hblank
  cases hblank

theorem indentBytes_eq (h : IndentedBy n l) : indentBytes l = n := by
  obtain ⟨lead, c, rest, rfl, hlead, hc, rfl⟩ := h
  have hstart : trimStart (lead ++ c :: rest) = c :: rest := by
    rw [trimStart, List.dropWhile_append_of_pos hlead, List.dropWhile_cons_of_neg (by simp [hc])]
  rw [indentBytes, hstart, byteSize_append]
  omega

/-- What starts within the indentation has all that is not blank. -/
theorem trimEnd_ne_nil (h : IndentedBy n l) {lead rest : List Char} (hl : l = lead ++ rest)
    (hlead : byteSize lead ≤ n) : (∀ d ∈ lead, isBlank d = true) ∧ trimEnd rest ≠ [] := by
  obtain ⟨white, c, more, rfl, hwhite, hc, rfl⟩ := h
  -- Two beginnings of one line: the shorter one, in bytes, begins the other.
  have hprefix : lead <+: white := by
    have hwhole : Stands (white ++ c :: more) 0 white := (stands_self _).left
    refine Stands.isPrefix ?_ hwhole hlead
    rw [hl]
    exact (stands_self _).left
  obtain ⟨left, rfl⟩ := hprefix
  refine ⟨fun d hd => hwhite d (List.mem_append_left _ hd), ?_⟩
  rw [List.append_assoc] at hl
  obtain rfl := List.append_cancel_left hl
  intro hnil
  have hblank := trimEnd_eq_nil_iff.mp hnil c (by simp)
  rw [hc] at hblank
  cases hblank

end IndentedBy

/-! ## The common indentation -/

theorem mem_indents_iff : m ∈ (lines.filter fun l => !(trim l).isEmpty).map indentBytes ↔
    ∃ l ∈ lines, IndentedBy m l := by
  simp only [List.mem_map, List.mem_filter, Bool.not_eq_true', List.isEmpty_eq_false_iff, ne_eq,
    trim_eq_nil_iff]
  constructor
  · rintro ⟨l, ⟨hl, hink⟩, rfl⟩
    obtain ⟨n, hn⟩ := exists_indentedBy hink
    exact ⟨l, hl, hn.indentBytes_eq.symm ▸ hn⟩
  · rintro ⟨l, hl, hm⟩
    exact ⟨l, ⟨hl, hm.not_blank⟩, hm.indentBytes_eq⟩

/-- No line is indented by less. -/
theorem commonIndent_le (hl : l ∈ lines) (h : IndentedBy m l) : commonIndent lines ≤ m := by
  have hmem := mem_indents_iff.mpr ⟨l, hl, h⟩
  unfold commonIndent
  cases hmin : ((lines.filter fun l => !(trim l).isEmpty).map indentBytes).min? with
  | none => exact Nat.zero_le m
  | some n => exact (List.le_min?_iff hmin).mp (Nat.le_refl n) m hmem

/-- Some line is indented by no more, if there is one that is not blank. -/
theorem exists_indentedBy_commonIndent (hl : l ∈ lines) (h : IndentedBy m l) :
    ∃ u ∈ lines, IndentedBy (commonIndent lines) u := by
  have hmem := mem_indents_iff.mpr ⟨l, hl, h⟩
  unfold commonIndent
  cases hmin : ((lines.filter fun l => !(trim l).isEmpty).map indentBytes).min? with
  | none =>
    rw [List.min?_eq_none_iff.mp hmin] at hmem
    cases hmem
  | some n => exact mem_indents_iff.mp (List.min?_mem hmin)

/-! ## Lines without the common indentation -/

/-- What becomes of a line when `n` bytes are cut off. A blank line stays blank. Any other one is
indented by `n` bytes or more. It loses `n` bytes of white space, and that at its end, exactly when
a character of it ends after `n` bytes; if none does, nothing is left. -/
structure CutTo (n : Nat) (l out : List Char) : Prop where
  blank : (∀ c ∈ l, isBlank c = true) → out = []
  le : ∀ m, IndentedBy m l → n ≤ m
  dedents : ∀ m, IndentedBy m l → (Dedents n l out ↔ Boundary l n)
  nothing : ∀ m, IndentedBy m l → (out = [] ↔ ¬ Boundary l n)

theorem dropBytes?_boundary (h : Boundary l n) :
    ∃ lead rest, l = lead ++ rest ∧ byteSize lead = n ∧ dropBytes? n l = some rest := by
  obtain ⟨lead, rest, hl, hn⟩ := h
  rw [List.append_nil] at hl
  exact ⟨lead, rest, hl, hn, dropBytes?_eq_some_iff.mpr ⟨lead, hl, hn⟩⟩

theorem dropBytes?_eq_none (h : ¬ Boundary l n) : dropBytes? n l = none := by
  refine Option.eq_none_iff_forall_ne_some.mpr fun rest hrest => h ?_
  obtain ⟨lead, hl, hn⟩ := dropBytes?_eq_some_iff.mp hrest
  exact ⟨lead, rest, by simpa using hl, hn⟩

/-- Cutting off no more than the indentation leaves the rest of the line, or nothing. -/
theorem cutTo_of_le (hle : ∀ m, IndentedBy m l → n ≤ m) :
    CutTo n l (trimEnd ((dropBytes? n l).getD [])) := by
  -- Cutting fails only between the bytes of a character, and then takes the whole line.
  by_cases hboundary : Boundary l n
  · obtain ⟨lead, rest, hl, hn, hdrop⟩ := dropBytes?_boundary hboundary
    rw [hdrop, Option.getD_some]
    refine ⟨fun hblank => ?_, hle, fun m hm => ?_, fun m hm => ?_⟩
    · exact trimEnd_eq_nil_iff.mpr fun c hc => hblank c (hl ▸ List.mem_append_right lead hc)
    · have hlead := (hm.trimEnd_ne_nil hl (hn.trans_le (hle m hm))).1
      exact iff_of_true ⟨lead, rest, hl, hlead, hn, rfl⟩ hboundary
    · have hrest := (hm.trimEnd_ne_nil hl (hn.trans_le (hle m hm))).2
      exact iff_of_false hrest (not_not.mpr hboundary)
  · rw [dropBytes?_eq_none hboundary, Option.getD_none, trimEnd_nil]
    refine ⟨fun _ => rfl, hle, fun m _ => ?_, fun m _ => iff_of_true rfl hboundary⟩
    refine iff_of_false ?_ hboundary
    rintro ⟨lead, rest, hl, -, hn, -⟩
    exact hboundary ⟨lead, rest, by simpa using hl, hn⟩

/-- Every line is cut by the common indentation. -/
theorem forall₂_dedent (lines : List (List Char)) :
    List.Forall₂ (CutTo (commonIndent lines)) lines (dedent lines) := by
  unfold dedent
  refine List.forall₂_map_right_iff.mpr (List.forall₂_same.mpr fun l hl => ?_)
  exact cutTo_of_le fun m hm => commonIndent_le hl hm

/-! ## The lines of the metadata -/

/-- The line is blank, or starts with a space or a tab. -/
def IsBodyLine (l : List Char) : Prop :=
  (∀ c ∈ l, isBlank c = true) ∨ ∃ c ∈ l.head?, c = ' ' ∨ c = '\t'

theorem isIndented_iff : isIndented l = true ↔ IsBodyLine l := by
  simp [isIndented, IsBodyLine, trim_eq_nil_iff, isIndent_iff, Option.any_eq_true]

/-- The body of the metadata are the lines after the first line with the key, up to the first one
that is not blank and not indented. -/
theorem bodyLines_eq {head : List Char} (hbefore : ∀ l ∈ before, trimEnd l ≠ "metadata:".toList)
    (hhead : trimEnd head = "metadata:".toList) (hbody : ∀ l ∈ body, IsBodyLine l)
    (hafter : ∀ l ∈ after.head?, ¬ IsBodyLine l) :
    bodyLines (before ++ head :: (body ++ after)) = body := by
  have hskip : ∀ l ∈ before, (trimEnd l != "metadata:".toList) = true := by
    intro l hl
    simpa using hbefore l hl
  have hstop : (trimEnd head != "metadata:".toList) = false := by simp [hhead]
  have hrest : after.takeWhile isIndented = [] := by
    cases after with
    | nil => rfl
    | cons u later =>
      have hu : ¬ isIndented u = true := fun h => hafter u rfl (isIndented_iff.mp h)
      exact List.takeWhile_cons_of_neg hu
  rw [bodyLines, List.dropWhile_append_of_pos hskip,
    List.dropWhile_cons, if_neg (Bool.eq_false_iff.mp hstop), List.drop_one, List.tail_cons,
    List.takeWhile_append_of_pos fun l hl => isIndented_iff.mpr (hbody l hl), hrest,
    List.append_nil]

/-- Trimmed lines, written one after the other, are found again. -/
theorem splitLines_trimmed {outs : List (List Char)}
    (h : ∀ o ∈ outs, '\n' ∉ o ∧ trimEnd o = o) :
    (splitLines (outs.flatMap fun o => o ++ ['\n'])).map dropTerminator = outs := by
  have hended : ∀ l ∈ outs.map (· ++ ['\n']), IsEnded l := by
    intro l hl
    obtain ⟨o, ho, rfl⟩ := List.mem_map.mp hl
    exact ⟨o, rfl, (h o ho).1⟩
  rw [List.flatMap_def, splitLines_flatten hended, List.map_map]
  refine (List.map_congr_left fun o ho => ?_).trans (List.map_id outs)
  -- A carriage return before the line feed would go with it, but it is blank.
  refine dropTerminator_lineFeed fun c hc hreturn => ?_
  have hink := dropEndWhile_eq_self_iff.mp (h o ho).2 c hc
  rw [hreturn] at hink
  cases hink

/-- What is left of lines has no line feed, and its end is not blank. -/
theorem trimmed_of_mem_dedent {out : List Char} (hlines : ∀ l ∈ lines, '\n' ∉ l)
    (hout : out ∈ dedent lines) : '\n' ∉ out ∧ trimEnd out = out := by
  obtain ⟨l, hl, rfl⟩ := List.mem_map.mp hout
  refine ⟨fun hmem => hlines l hl ?_, trimEnd_trimEnd _⟩
  have hrest := (trimEnd_isPrefix _).subset hmem
  cases hdrop : dropBytes? (commonIndent lines) l with
  | none =>
    rw [hdrop] at hrest
    exact absurd hrest List.not_mem_nil
  | some rest =>
    rw [hdrop] at hrest
    obtain ⟨lead, rfl, -⟩ := dropBytes?_eq_some_iff.mp hdrop
    exact List.mem_append_right lead hrest

/-- The text of the metadata has a line for every line of their body: the body line cut by a number
of bytes that is one for all of them, and is the whole indentation of at least one. -/
theorem textOf_dedents {fileName : String} {source head : List Char}
    (hfile : isYamlFile fileName = true)
    (hsource : (splitLines source).map dropTerminator = before ++ head :: (body ++ after))
    (hbefore : ∀ l ∈ before, trimEnd l ≠ "metadata:".toList)
    (hhead : trimEnd head = "metadata:".toList) (hbody : ∀ l ∈ body, IsBodyLine l)
    (hafter : ∀ l ∈ after.head?, ¬ IsBodyLine l) :
    ∃ n out, (splitLines (textOf fileName source)).map dropTerminator = out ∧
      List.Forall₂ (CutTo n) body out ∧
      ((∃ l ∈ body, ∃ m, IndentedBy m l) → ∃ l ∈ body, IndentedBy n l) := by
  refine ⟨commonIndent body, dedent body, ?_, forall₂_dedent body, ?_⟩
  · have hlines : ∀ l ∈ body, '\n' ∉ l := by
      intro l hl
      have hmem : l ∈ (splitLines source).map dropTerminator := by
        rw [hsource]
        simp [hl]
      obtain ⟨line, hline, rfl⟩ := List.mem_map.mp hmem
      exact not_mem_dropTerminator hline
    rw [textOf, if_pos hfile, hsource, bodyLines_eq hbefore hhead hbody hafter]
    exact splitLines_trimmed fun o ho => trimmed_of_mem_dedent hlines ho
  · rintro ⟨l, hl, m, hm⟩
    exact exists_indentedBy_commonIndent hl hm

/-- Two keys with a blank line between them, one indented by a space and a tab more. -/
theorem textOf_dedents_keys :
    ∃ n out, (splitLines (textOf "index.yml"
      "title: T\nmetadata: \n  a: 1 \n\n   \tb: 2\nlanding:\n".toList)).map dropTerminator = out ∧
      List.Forall₂ (CutTo n) ["  a: 1 ".toList, [], "   \tb: 2".toList] out ∧
      ((∃ l ∈ ["  a: 1 ".toList, [], "   \tb: 2".toList], ∃ m, IndentedBy m l) →
        ∃ l ∈ ["  a: 1 ".toList, [], "   \tb: 2".toList], IndentedBy n l) := by
  have hlines : (splitLines
      "title: T\nmetadata: \n  a: 1 \n\n   \tb: 2\nlanding:\n".toList).map dropTerminator =
      ["title: T".toList] ++ "metadata: ".toList ::
        (["  a: 1 ".toList, [], "   \tb: 2".toList] ++ ["landing:".toList]) := by
    decide
  refine textOf_dedents (by decide) hlines (by decide) (by decide) ?_ ?_
  · simp only [← isIndented_iff]
    decide
  · simp only [← isIndented_iff]
    decide

/-- A line is lost when the indentation of another one ends within its first wide blank. -/
theorem textOf_loses_wideBlank :
    bodyLines ((splitLines "metadata:\n  a: 1\n \u3000b: 2\n".toList).map dropTerminator) =
        ["  a: 1".toList, " \u3000b: 2".toList] ∧
      IndentedBy 4 " \u3000b: 2".toList ∧
      textOf "a.yml" "metadata:\n  a: 1\n \u3000b: 2\n".toList = "a: 1\n\n".toList := by
  refine ⟨by decide, ?_, by decide⟩
  exact ⟨[' ', '\u3000'], 'b', ": 2".toList, by decide, List.all_eq_true.mp rfl, by decide,
    by decide⟩

end ArticleAudit.Metadata
