import ArticleAudit.Markdown.Leaf
import ArticleAudit.Proofs.Markdown.Lines
import ArticleAudit.Proofs.Markdown.Links

/-!
# Where headings stand

A heading line is its leading spaces, its marks and the rest, of which the title is a part. When the
rest is blank the title is empty and placed at the end of the line, and so past the trimmed heading
whenever there are blanks: that is how a heading overhangs. Main statement: `laid_headingBlock`.
-/

set_option autoImplicit false

namespace ArticleAudit.Markdown

open ArticleAudit.Text

variable {source line : List Char}

theorem dropClosing_isPrefix (title : List Char) : Heading.dropClosing title <+: title := by
  unfold Heading.dropClosing
  simp only
  split
  · exact List.prefix_rfl
  · split
    · exact List.nil_prefix
    · split
      · exact (trimEnd_isPrefix _).trans (dropEndWhile_isPrefix _ _)
      · exact List.prefix_rfl

/-- A heading line in its three parts: leading spaces, marks and the rest. -/
structure Heading.Parts (line : List Char) (heading : Heading) (lead marks rest : List Char) :
    Prop where
  line_eq : line = lead ++ marks ++ rest
  lead_eq : ∀ c ∈ lead, c = ' '
  marks_ne : marks ≠ []
  marks_eq : ∀ c ∈ marks, c = '#'
  rest_head : rest.head? ≠ some '#'
  offset_eq : heading.offset = byteSize (lead ++ marks ++ rest.takeWhile isBlank)
  title_eq : heading.title = Heading.dropClosing (trimEnd (trimStart rest))

theorem Heading.exists_parts {strict : Bool} {heading : Heading}
    (h : Heading.ofLine? strict line = some heading) :
    ∃ lead marks rest, heading.Parts line lead marks rest := by
  have hlead : ∀ c ∈ line.takeWhile (· == ' '), c = ' ' := by
    intro c hc
    simpa using List.mem_takeWhile_imp hc
  have hmarks : ∀ c ∈ (line.dropWhile (· == ' ')).takeWhile (· == '#'), c = '#' := by
    intro c hc
    simpa using List.mem_takeWhile_imp hc
  have hleadSize : byteSize (line.takeWhile (· == ' ')) = (line.takeWhile (· == ' ')).length :=
    byteSize_eq_length fun c hc => by rw [hlead c hc]; rfl
  have hmarksSize : byteSize ((line.dropWhile (· == ' ')).takeWhile (· == '#')) =
      ((line.dropWhile (· == ' ')).takeWhile (· == '#')).length :=
    byteSize_eq_length fun c hc => by rw [hmarks c hc]; rfl
  unfold Heading.ofLine? at h
  obtain ⟨hok, h⟩ := Option.ite_none_left_eq_some.mp h
  obtain rfl := Option.some.inj h
  refine ⟨line.takeWhile (· == ' '), (line.dropWhile (· == ' ')).takeWhile (· == '#'),
    (line.dropWhile (· == ' ')).dropWhile (· == '#'), ?_, hlead, ?_, hmarks, ?_, ?_, rfl⟩
  · rw [List.append_assoc, List.takeWhile_append_dropWhile, List.takeWhile_append_dropWhile]
  · intro hnil
    simp [hnil] at hok
  · intro hhead
    have := List.head?_dropWhile_not (· == '#') (line.dropWhile (· == ' '))
    rw [hhead] at this
    simp at this
  · simp only [byteSize_append, hleadSize, hmarksSize]

namespace Heading.Parts

variable {heading : Heading} {lead marks rest : List Char} {l : LineFacts}

/-- The marks start the line's body. -/
theorem body_eq (h : heading.Parts l.text lead marks rest) :
    leadingIndent l.text = lead ∧ l.body = marks ++ trimEnd rest ∧
      trimEnd l.text = lead ++ marks ++ trimEnd rest := by
  obtain ⟨mark, marks', hmarks⟩ := List.exists_cons_of_ne_nil h.marks_ne
  obtain rfl : mark = '#' := h.marks_eq mark (by simp [hmarks])
  have hlead : ∀ c ∈ lead, isIndent c = true := by
    intro c hc
    rw [h.lead_eq c hc]
    rfl
  have hindent : leadingIndent l.text = lead := by
    rw [leadingIndent, h.line_eq, List.append_assoc, List.takeWhile_append_of_pos hlead, hmarks]
    simp [isIndent]
  have hdrop : l.text.dropWhile isIndent = marks ++ rest := by
    rw [h.line_eq, List.append_assoc, List.dropWhile_append_of_pos hlead, hmarks]
    simp [isIndent]
  have hmarksEnd : ∀ front : List Char, trimEnd (front ++ marks) = front ++ marks := by
    intro front
    obtain ⟨init, last, hinit⟩ := (List.eq_nil_or_concat marks).resolve_left h.marks_ne
    rw [hinit, List.concat_eq_append, ← List.append_assoc]
    apply trimEnd_concat
    rw [h.marks_eq last (by simp [hinit])]
    rfl
  refine ⟨hindent, ?_, ?_⟩
  · rw [LineFacts.body, hdrop]
    exact trimEnd_append rest (hmarksEnd [])
  · rw [h.line_eq]
    exact trimEnd_append rest (hmarksEnd lead)

theorem not_blank (h : heading.Parts l.text lead marks rest) (hl : l.Sound source) :
    l.isBlank = false := by
  obtain ⟨mark, marks', hmarks⟩ := List.exists_cons_of_ne_nil h.marks_ne
  obtain rfl : mark = '#' := h.marks_eq mark (by simp [hmarks])
  rw [hl.isBlank_eq, h.line_eq, hmarks]
  simp [isBlank]

/-- The title stands after the marks and the blanks, and stops with the line unless nothing but
blanks follows the marks. -/
theorem title_stands (h : heading.Parts l.text lead marks rest) (hl : l.Sound source) :
    Stands source (l.content.start + heading.offset) heading.title ∧
      l.start ≤ l.content.start + heading.offset ∧
      (trimStart rest ≠ [] → l.content.start + heading.stop ≤ l.stop) := by
  obtain ⟨hindent, hbody, htrim⟩ := h.body_eq
  have hstart : l.start = l.content.start + byteSize lead := by
    rw [(hl.start_eq (h.not_blank hl)).1, hl.indentBytes_eq,
      ← LineFacts.Sound.byteSize_leadingIndent, hindent]
  have hsplit : l.text = (lead ++ marks ++ rest.takeWhile isBlank) ++ trimStart rest := by
    rw [List.append_assoc, trimStart_append_takeWhile, h.line_eq]
  have htitle : heading.title <+: trimEnd (trimStart rest) := by
    rw [h.title_eq]
    exact dropClosing_isPrefix _
  have hstands := hl.stands
  rw [hsplit] at hstands
  refine ⟨?_, ?_, ?_⟩
  · rw [h.offset_eq]
    exact hstands.right.of_prefix (htitle.trans (trimEnd_isPrefix _))
  · rw [hstart, h.offset_eq]
    simp only [byteSize_append]
    omega
  · intro hne
    obtain ⟨after, hafter⟩ := htitle
    have hrest : trimEnd l.text =
        (lead ++ marks ++ rest.takeWhile isBlank) ++ trimEnd (trimStart rest) := by
      rw [hsplit]
      apply dropEndWhile_append_of_exists
      obtain ⟨c, cs, hcs⟩ := List.exists_cons_of_ne_nil hne
      refine ⟨c, by simp [hcs], ?_⟩
      have := List.head?_dropWhile_not isBlank rest
      rw [show rest.dropWhile isBlank = c :: cs from hcs] at this
      simpa using this
    simp only [LineFacts.stop, Heading.stop, hrest, ← hafter, h.offset_eq, byteSize_append]
    omega

/-- A heading without a title: its title is placed at the end of the line. -/
theorem title_of_blank (h : heading.Parts l.text lead marks rest) (hrest : trimStart rest = []) :
    heading.title = [] ∧ heading.offset = byteSize l.text := by
  have hblanks : rest.takeWhile isBlank = rest := by
    have := trimStart_append_takeWhile rest
    rwa [hrest, List.append_nil] at this
  refine ⟨?_, ?_⟩
  · rw [h.title_eq, hrest]
    rfl
  · rw [h.offset_eq, hblanks, ← h.line_eq]

/-- The heading consists of marks only exactly when nothing but blanks follows them. -/
theorem marks_only_iff (h : heading.Parts l.text lead marks rest) :
    (∀ c ∈ l.body, c = '#') ↔ trimStart rest = [] := by
  rw [h.body_eq.2.1]
  constructor
  · intro hall
    by_contra hne
    have hink : trimEnd rest ≠ [] := by
      intro hnil
      apply hne
      have := trimEnd_eq_nil_iff.mp hnil
      simpa [trimStart] using this
    obtain ⟨c, cs, hcs⟩ := List.exists_cons_of_ne_nil hink
    obtain ⟨after, hafter⟩ := trimEnd_isPrefix rest
    have hhead : rest.head? = some c := by
      rw [← hafter, hcs]
      rfl
    have hc : c = '#' := hall c (by simp [hcs])
    rw [hc] at hhead
    exact h.rest_head hhead
  · intro hrest c hc
    have hnil : trimEnd rest = [] := by
      rw [trimEnd_eq_nil_iff]
      simpa [trimStart] using hrest
    rw [hnil, List.append_nil] at hc
    exact h.marks_eq c hc

end Heading.Parts

theorem tabId?_nil : tabId? [] = none := rfl

/-- A heading overhangs exactly when its title, which is empty then, is placed past it. -/
theorem content_stop_le_iff {l : LineFacts} {heading : Heading} {lead marks rest : List Char}
    {b : Block} (h : heading.Parts l.text lead marks rest) (hl : l.Sound source)
    (hkind : b.kind = .header ∨ b.kind = .conceptualTab ∧ heading.title ≠ [])
    (hspan : b.span = ⟨l.start, l.stop⟩) (htext : b.text.toList = l.body) :
    (l.content.start + heading.stop ≤ l.stop ↔ ¬ b.Overhangs source) ∧
      (b.Overhangs source → heading.title ≠ b.text.toList) := by
  obtain ⟨hindent, hbody, htrim⟩ := h.body_eq
  by_cases hrest : trimStart rest = []
  · -- The marks are all there is: the blanks after them decide.
    obtain ⟨htitle, hoffset⟩ := h.title_of_blank hrest
    have hheader : b.kind = .header := hkind.resolve_right fun htab => htab.2 htitle
    obtain ⟨tail, htail, -⟩ := exists_trimEnd_append l.text
    have hmargin : b.margin source = tail := hl.margin_eq htail (by rw [hspan]; rfl)
    have hsize := congrArg byteSize htail
    rw [byteSize_append] at hsize
    have hover : b.Overhangs source ↔ tail ≠ [] := by
      unfold Block.Overhangs
      rw [hheader, hmargin, htext]
      exact and_iff_right (h.marks_only_iff.mpr hrest)
    constructor
    · rw [hover, not_not, ← byteSize_eq_zero_iff]
      simp only [Heading.stop, htitle, hoffset, byteSize_nil, LineFacts.stop]
      omega
    · intro _ heq
      rw [htitle, htext, hbody] at heq
      exact h.marks_ne (List.append_eq_nil_iff.mp heq.symm).1
  · have hover : ¬ b.Overhangs source := by
      unfold Block.Overhangs
      rcases hkind with hkind | ⟨hkind, -⟩
      · rw [hkind, htext]
        intro hall
        exact hrest (h.marks_only_iff.mp hall.1)
      · rw [hkind]
        exact id
    exact ⟨iff_of_true ((h.title_stands hl).2.2 hrest) hover, fun h' => absurd h' hover⟩

/-- What both kinds of heading blocks have in common. -/
theorem headingBlock_spec (source : List Char) (l : LineFacts) (heading : Heading) :
    (headingBlock source l heading).span = ⟨l.start, l.stop⟩ ∧
    (headingBlock source l heading).text = String.ofList (slice source ⟨l.start, l.stop⟩) ∧
    (headingBlock source l heading).target = none ∧
    (headingBlock source l heading).region = none ∧
    ((headingBlock source l heading).kind = .header ∨
      (headingBlock source l heading).kind = .conceptualTab ∧ heading.title ≠ []) := by
  unfold headingBlock
  cases htab : tabId? heading.title with
  | none => exact ⟨rfl, rfl, rfl, rfl, Or.inl rfl⟩
  | some id =>
    refine ⟨rfl, rfl, rfl, rfl, Or.inr ⟨rfl, ?_⟩⟩
    intro hnil
    rw [hnil, tabId?_nil] at htab
    cases htab

/-- The block of a heading is laid out over its line. -/
theorem laid_headingBlock {l : LineFacts} {heading : Heading} (hl : l.Sound source)
    (hheading : l.heading = some heading) :
    Block.Laid source l.start l.stop [headingBlock source l heading] := by
  obtain ⟨strict, hread⟩ := hl.heading_eq hheading
  obtain ⟨lead, marks, rest, h⟩ := Heading.exists_parts hread
  obtain ⟨htitle, hstart, hstop⟩ := h.title_stands hl
  obtain ⟨hspan, htext, htarget, hregion, hkind⟩ := headingBlock_spec source l heading
  obtain ⟨hcontent, hne⟩ := content_stop_le_iff h hl hkind hspan
    (by rw [htext, hl.slice_start_stop, String.toList_ofList])
  refine .singleton hspan htext hl.boundary_start hl.boundary_stop l.start_le_stop ?_ ?_ hregion
  · show Block.Laid source l.start l.stop
      (linkBlocks (l.content.start + heading.offset) heading.title)
    refine (laid_linkBlocks htitle ?_).weaken hstart (Nat.le_refl _)
    by_cases hrest : trimStart rest = []
    · rw [(h.title_of_blank hrest).1]
      intro u c v hnil
      simp at hnil
    · refine .of_byteSize_le ?_
      have := hstop hrest
      simp only [Heading.stop] at this
      omega
  · refine ⟨?_, fun s hs => by simp [htarget] at hs⟩
    intro s hs
    obtain rfl := Option.some.inj hs
    rw [hspan]
    exact ⟨heading.title, slice?_eq_some_iff.mpr
      ⟨htitle, by simp only [Heading.stop]; omega⟩, hstart, hcontent, hne⟩

end ArticleAudit.Markdown
