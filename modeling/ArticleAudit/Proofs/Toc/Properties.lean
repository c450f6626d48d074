import ArticleAudit.Proofs.Markdown.Fields
import ArticleAudit.Proofs.Markdown.Items
import ArticleAudit.Toc.Items

/-!
# Where the files of an item stand

The property `href` becomes a block for the file, cut out of the text between matching quotes
(`unquoteSpan_spec`). An item stops with the trimmed text of its last line, and the value of a
property is trimmed of spaces and tabs only; so a file runs past its item when the value ends in
another blank and nothing but spaces and tabs follows it, on the last line of the item
(`FileOverhangs`). Main statement: a file starts within its line, and stops within an item that
ends on this line or on a later one unless it overhangs (`fileOn_of_property?`).
-/

set_option autoImplicit false

namespace ArticleAudit.Toc

open ArticleAudit.Text ArticleAudit.Markdown

variable {source : List Char}

/-- A file stops after the offset `stop` at which its item ends: it ends in a blank, only spaces and
tabs follow it on its line, and the item does not reach to a later line. -/
def FileOverhangs (source : List Char) (stop : Nat) (c : Block) : Prop :=
  c.kind = .fileName ∧ (∃ x, c.text.toList.getLast? = some x ∧ isBlank x = true) ∧
    (∀ x ∈ c.margin source, isIndent x = true) ∧ '\n' ∉ slice source ⟨c.span.start, stop⟩

/-! ## Quotes -/

theorem exists_of_quoted {q : Char} {v : List Char} (hq : q.utf8Size = 1) (hsize : byteSize v ≥ 2)
    (hhead : v.head? = some q) (hlast : v.getLast? = some q) :
    ∃ inner, v = [q] ++ inner ++ [q] := by
  obtain ⟨rest, rfl⟩ := List.head?_eq_some_iff.mp hhead
  have hne : rest ≠ [] := by
    rintro rfl
    simp [hq] at hsize
  obtain ⟨c, rest', rfl⟩ := List.exists_cons_of_ne_nil hne
  rw [List.getLast?_cons_cons] at hlast
  obtain ⟨inner, hinner⟩ := List.getLast?_eq_some_iff.mp hlast
  exact ⟨inner, by rw [hinner]; rfl⟩

/-- A span is narrowed to the text between matching quotes, or not at all. -/
theorem unquoteSpan_spec {n : Nat} {v : List Char} (h : Stands source n v) :
    ∃ front inner back, v = front ++ inner ++ back ∧
      unquoteSpan source ⟨n, n + byteSize v⟩ =
        ⟨n + byteSize front, n + byteSize front + byteSize inner⟩ ∧
      (front = [] ∧ back = [] ∨ ∃ q, back = [q] ∧ isBlank q = false) := by
  unfold unquoteSpan
  rw [h.slice]
  simp only
  split
  · next hquoted =>
    simp only [Bool.and_eq_true, Bool.or_eq_true, decide_eq_true_eq, beq_iff_eq] at hquoted
    obtain ⟨hsize, hquotes⟩ := hquoted
    have hsplit : ∃ q : Char, ∃ inner, v = [q] ++ inner ++ [q] ∧ q.utf8Size = 1 ∧
        isBlank q = false := by
      rcases hquotes with ⟨hhead, hlast⟩ | ⟨hhead, hlast⟩
      · obtain ⟨inner, hv⟩ := exists_of_quoted rfl hsize hhead hlast
        exact ⟨'"', inner, hv, rfl, rfl⟩
      · obtain ⟨inner, hv⟩ := exists_of_quoted rfl hsize hhead hlast
        exact ⟨'\'', inner, hv, rfl, rfl⟩
    obtain ⟨q, inner, rfl, hq, hblank⟩ := hsplit
    refine ⟨[q], inner, [q], rfl, ?_, Or.inr ⟨q, rfl, hblank⟩⟩
    simp only [byteSize_append, byteSize_cons, byteSize_nil, hq, Span.mk.injEq, true_and]
    omega
  · exact ⟨[], v, [], by simp, by simp, Or.inl ⟨rfl, rfl⟩⟩

/-! ## Properties -/

/-- The property for a file is a field after the offset whose value, without its quotes, is not
empty. -/
theorem exists_field_of_property? {l : LineFacts} {offset : Nat} {span : Span}
    {target : List Char} (h : property? source l offset = some (.file span target)) :
    ∃ indent rest field, l.text = indent ++ rest ∧ byteSize indent = offset ∧
      Field.Reads rest field ∧ span.isEmpty = false ∧ target = slice source span ∧
      span = unquoteSpan source ⟨l.content.start + offset + field.valueOffset,
        l.content.start + offset + field.valueOffset + byteSize field.value⟩ := by
  unfold property? at h
  obtain ⟨rest, hrest, h⟩ := Option.bind_eq_some_iff.mp h
  obtain ⟨field, hfield, h⟩ := Option.bind_eq_some_iff.mp h
  obtain ⟨indent, htext, hindent⟩ := dropBytes?_eq_some_iff.mp hrest
  refine ⟨indent, rest, field, htext, hindent, Field.reads_of_ofLine? hfield, ?_⟩
  simp only at h
  split at h
  · cases h
  · split at h
    · cases h
    · obtain ⟨hfile, h⟩ := Option.ite_none_right_eq_some.mp h
      simp only [Option.some.injEq, Property.file.injEq] at h
      obtain ⟨rfl, rfl⟩ := h
      simp only [Bool.and_eq_true, Bool.not_eq_true'] at hfile
      exact ⟨hfile.2, rfl, rfl⟩

/-- What the property for a file reads from its line. -/
theorem exists_of_property?_eq_file {l : LineFacts} {offset : Nat} {span : Span}
    {target : List Char} (hl : l.Sound source)
    (h : property? source l offset = some (.file span target)) :
    ∃ front tail, l.text = front ++ target ++ tail ∧ target ≠ [] ∧ offset ≤ byteSize front ∧
      span = ⟨l.content.start + byteSize front,
        l.content.start + byteSize front + byteSize target⟩ ∧
      ((∀ x ∈ tail, isIndent x = true) ∨ ∃ q rest, tail = q :: rest ∧ isBlank q = false) := by
  obtain ⟨indent, rest, field, htext, rfl, hreads, hempty, htarget, hspan⟩ :=
    exists_field_of_property? h
  obtain ⟨key, after, hsplit, hkey, hafter⟩ := hreads.exists_split
  have hline : l.text = indent ++ key ++ field.value ++ after := by
    rw [htext, hsplit]
    simp
  have hvalue : Stands source (l.content.start + byteSize indent + field.valueOffset)
      field.value := by
    have hstands := hl.stands
    rw [hline] at hstands
    rw [← hkey, Nat.add_assoc, ← byteSize_append]
    exact hstands.middle
  obtain ⟨left, inner, right, hinner, hunquote, hquotes⟩ := unquoteSpan_spec hvalue
  rw [hunquote] at hspan
  obtain rfl : target = inner := by
    rw [hinner] at hvalue
    rw [htarget, hspan]
    exact hvalue.middle.slice
  have hne : target ≠ [] := by
    rintro rfl
    simp [hspan, Span.isEmpty, Span.length] at hempty
  have hsize : byteSize (indent ++ key ++ left) =
      byteSize indent + field.valueOffset + byteSize left := by
    rw [byteSize_append, byteSize_append, hkey]
  refine ⟨indent ++ key ++ left, right ++ after, ?_, hne, ?_, ?_, ?_⟩
  · rw [hline, hinner]
    simp
  · rw [hsize, Nat.add_assoc]
    exact Nat.le_add_right _ _
  · rw [hspan, hsize, ← Nat.add_assoc, ← Nat.add_assoc]
  · rcases hquotes with ⟨-, rfl⟩ | ⟨q, rfl, hq⟩
    · -- Without quotes only spaces and tabs follow the value.
      refine Or.inl (hafter.resolve_left ?_)
      rw [hinner]
      simp [hne]
    · exact Or.inr ⟨q, after, rfl, hq⟩

/-! ## Files -/

/-- No line feed stands between an offset of a line and the end of the trimmed line. -/
theorem lineFeed_not_mem_slice {l : LineFacts} {front rest : List Char} (hl : l.Sound source)
    (htext : l.text = front ++ rest) :
    '\n' ∉ slice source ⟨l.content.start + byteSize front, l.stop⟩ := by
  have hrest : Stands source (l.content.start + byteSize front) rest := by
    have hstands := hl.stands
    rw [htext] at hstands
    exact hstands.right
  have hone := hl.oneLine
  have hsize := byteSize_trimEnd_le l.text
  cases hcs : slice? source ⟨l.content.start + byteSize front, l.stop⟩ with
  | none => simp [slice, hcs]
  | some cs =>
    rw [slice, hcs]
    obtain ⟨hstands, hstop⟩ := slice?_eq_some_iff.mp hcs
    rw [htext] at hone hsize
    simp only [LineFacts.stop, htext, byteSize_append] at hstands hstop hsize
    have hle : byteSize cs ≤ byteSize rest := by omega
    intro hmem
    exact hone (List.mem_append_right front ((hstands.isPrefix hrest hle).subset hmem))

/-- Whether a file overhangs, by the text that follows it on its line. -/
theorem fileOverhangs_iff {l : LineFacts} {front tail : List Char} {c : Block} (n : Nat)
    (hl : l.Sound source) (htext : l.text = front ++ c.text.toList ++ tail)
    (hkind : c.kind = .fileName)
    (hspan : c.span = ⟨l.content.start + byteSize front,
      l.content.start + byteSize front + byteSize c.text.toList⟩) :
    FileOverhangs source n c ↔
      ((∃ x, c.text.toList.getLast? = some x ∧ isBlank x = true) ∧
        ∀ x ∈ tail, isIndent x = true) ∧
        '\n' ∉ slice source ⟨l.content.start + byteSize front, n⟩ := by
  have hmargin : c.margin source = tail := by
    refine hl.margin_eq htext ?_
    rw [hspan, byteSize_append, Nat.add_assoc]
  have hstart : c.span.start = l.content.start + byteSize front := by rw [hspan]
  unfold FileOverhangs
  rw [hmargin, hstart, and_assoc]
  exact and_iff_right hkind

/-- The block of a file that is named on a line. -/
structure FileOn (source : List Char) (l : LineFacts) (c : Block) : Prop where
  text : slice? source c.span = some c.text.toList
  target : c.target = some c.span
  content : c.content = none
  region : c.region = none
  children : c.children = []
  start : l.start ≤ c.span.start
  stop : c.span.stop ≤ l.line.stop
  onLine : c.span.stop ≤ l.stop ↔ ¬ FileOverhangs source l.stop c
  later : ∀ n, Boundary source n → l.line.stop < n → ¬ FileOverhangs source n c

/-- A property for a file names it on its line. -/
theorem fileOn_of_property? {l : LineFacts} {offset : Nat} {span : Span} {target : List Char}
    (hl : l.Sound source) (hblank : l.isBlank = false) (hoffset : l.indentBytes ≤ offset)
    (h : property? source l offset = some (.file span target)) :
    FileOn source l (((Block.leaf .fileName span target).withTarget span).withTag target) := by
  obtain ⟨front, tail, htext, hne, hfront, hspan, htail⟩ := exists_of_property?_eq_file hl h
  have hcText : (((Block.leaf .fileName span target).withTarget span).withTag target).text.toList =
      target := String.toList_ofList
  generalize hc : ((Block.leaf .fileName span target).withTarget span).withTag target = c at *
  obtain ⟨hkind, hcspan, hcTarget, hcontent, hregion, hchildren⟩ : c.kind = .fileName ∧
      c.span = span ∧ c.target = some span ∧ c.content = none ∧ c.region = none ∧
      c.children = [] := by
    rw [← hc]
    exact ⟨rfl, rfl, rfl, rfl, rfl, rfl⟩
  subst hcText
  have hover (n : Nat) := fileOverhangs_iff n hl htext hkind (hcspan.trans hspan)
  have hstands : Stands source (l.content.start + byteSize front) c.text.toList := by
    have hstands := hl.stands
    rw [htext] at hstands
    exact hstands.middle
  have hend := hl.content_stop_le
  rw [htext] at hend
  simp only [byteSize_append] at hend
  refine ⟨?_, ?_, hcontent, hregion, hchildren, ?_, ?_, ?_, ?_⟩
  · rw [hcspan, hspan]
    exact hstands.slice?
  · rw [hcTarget, hcspan]
  · rw [hcspan, hspan, (hl.start_eq hblank).1]
    exact Nat.add_le_add_left (hoffset.trans hfront) _
  · rw [hcspan, hspan]
    show l.content.start + byteSize front + byteSize c.text.toList ≤ l.line.stop
    omega
  · rw [hcspan, hspan, hover l.stop]
    have hnoFeed := lineFeed_not_mem_slice hl (htext.trans (List.append_assoc _ _ _))
    rw [and_iff_left hnoFeed]
    exact part_stop_le_iff hl htext hne htail
  · intro n hn hlater hoverhangs
    have hslice := hstands.boundary.slice?_eq hn (by omega)
    refine ((hover n).mp hoverhangs).2 (hl.lineFeed_mem ?_ hlater hslice)
    rw [htext]
    simp only [byteSize_append]
    omega

end ArticleAudit.Toc
