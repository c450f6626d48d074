import ArticleAudit.Markdown.Opener
import ArticleAudit.Proofs.Block.Nesting

/-!
# Lines of a source

The facts of a line hold of the source it was read from: its text stands at its content offset, line
terminators follow it up to the next line, and the two offsets `start` and `stop` enclose its text
without the blanks on both sides (`LineFacts.Sound`). Lines that follow one another are `InOrder`
from an offset. The lines of a text are in order from zero (`inOrder_ofText`), and every character
that is neither blank nor the byte order mark at the start lies between the `start` and the `stop`
of a line (`exists_line_contains`).
-/

set_option autoImplicit false

namespace ArticleAudit.Markdown

open ArticleAudit.Text

variable {source : List Char}

namespace LineFacts

/-- What holds of a line that was read from the source. -/
structure Sound (source : List Char) (l : LineFacts) : Prop where
  described : ∃ strict raw, l = ofLine strict raw
  placed : ∃ before ends after, source = before ++ l.text ++ ends ++ after ∧
    byteSize before = l.content.start ∧
    l.line.stop = l.content.start + byteSize l.text + byteSize ends ∧
    (∀ c ∈ ends, isLineEnd c = true) ∧ ('\n' ∈ ends ∨ after = [])
  oneLine : '\n' ∉ l.text
  ended : dropEndWhile isLineEnd l.text = l.text
  line_start : Boundary source l.line.start
  line_start_le : l.line.start ≤ l.content.start

/-- The text of a line without the indentation and the blanks at its end. -/
def body (l : LineFacts) : List Char :=
  trimEnd (l.text.dropWhile isIndent)

theorem start_le_stop (l : LineFacts) : l.start ≤ l.stop :=
  Nat.min_le_right _ _

theorem content_start_le_start (l : LineFacts) : l.content.start ≤ l.start := by
  simp only [start, stop]
  omega

namespace Sound

variable {l : LineFacts}

/-! ## What the line says about its text -/

theorem isBlank_eq (h : l.Sound source) : l.isBlank = l.text.all Text.isBlank := by
  obtain ⟨strict, raw, rfl⟩ := h.described
  rfl

theorem indentBytes_eq (h : l.Sound source) : l.indentBytes = (leadingIndent l.text).length := by
  obtain ⟨strict, raw, rfl⟩ := h.described
  rfl

theorem quote_eq (h : l.Sound source) : l.quote = quoteOf l.text := by
  obtain ⟨strict, raw, rfl⟩ := h.described
  rfl

theorem heading_eq (h : l.Sound source) {heading : Heading} (hl : l.heading = some heading) :
    ∃ strict, Heading.ofLine? strict l.text = some heading := by
  obtain ⟨strict, raw, rfl⟩ := h.described
  simp only [ofLine, Option.ite_none_right_eq_some] at hl
  exact ⟨strict, hl.2⟩

theorem marker_eq (h : l.Sound source) {marker : ListMarker} (hl : l.marker = some marker) :
    ListMarker.ofLine? l.text = some marker := by
  obtain ⟨strict, raw, rfl⟩ := h.described
  simp only [ofLine, Option.ite_none_right_eq_some] at hl
  exact hl.2

/-! ## Offsets -/

theorem stands (h : l.Sound source) : Stands source l.content.start l.text := by
  obtain ⟨before, ends, after, hsource, hbefore, -⟩ := h.placed
  exact ⟨before, ends ++ after, by simp [hsource], hbefore⟩

theorem line_stop (h : l.Sound source) : Boundary source l.line.stop := by
  obtain ⟨before, ends, after, hsource, hbefore, hstop, -⟩ := h.placed
  refine ⟨before ++ l.text ++ ends, after, by simp [hsource], ?_⟩
  rw [hstop]
  simp only [byteSize_append]
  omega

theorem content_stop_le (h : l.Sound source) :
    l.content.start + byteSize l.text ≤ l.line.stop := by
  obtain ⟨before, ends, after, -, -, hstop, -⟩ := h.placed
  omega

theorem stop_le_line_stop (h : l.Sound source) : l.stop ≤ l.line.stop := by
  have := byteSize_trimEnd_le l.text
  have := h.content_stop_le
  simp only [stop]
  omega

/-- The indentation and the rest are the text. -/
theorem leadingIndent_append (l : LineFacts) :
    leadingIndent l.text ++ l.text.dropWhile isIndent = l.text :=
  List.takeWhile_append_dropWhile

theorem byteSize_leadingIndent (cs : List Char) :
    byteSize (leadingIndent cs) = (leadingIndent cs).length :=
  byteSize_of_all_isIndent fun _ hc => isIndent_of_mem_takeWhile hc

/-- The body of a line stands between its `start` and its `stop`. -/
theorem stands_body (h : l.Sound source) :
    Stands source l.start l.body ∧ l.stop = l.start + byteSize l.body := by
  have hsplit := leadingIndent_append l
  by_cases hall : ∀ c ∈ l.text.dropWhile isIndent, Text.isBlank c = true
  · -- Nothing but blanks: both offsets are that of the content.
    have hbody : l.body = [] := trimEnd_eq_nil_iff.mpr hall
    have htext : trimEnd l.text = [] := by
      apply trimEnd_eq_nil_iff.mpr
      intro c hc
      rw [← hsplit, List.mem_append] at hc
      rcases hc with hc | hc
      · exact isBlank_of_isIndent (isIndent_of_mem_takeWhile hc)
      · exact hall c hc
    have hstop : l.stop = l.content.start := by simp [stop, htext]
    have hstart : l.start = l.content.start := by
      simp only [start, hstop]
      omega
    rw [hbody, hstart, hstop]
    exact ⟨h.stands.boundary, rfl⟩
  · have htrim : trimEnd l.text = leadingIndent l.text ++ l.body := by
      conv_lhs => rw [← hsplit]
      exact dropEndWhile_append_of_exists _ (by simpa using hall)
    have hsize : byteSize (trimEnd l.text) = l.indentBytes + byteSize l.body := by
      rw [htrim, byteSize_append, byteSize_leadingIndent, h.indentBytes_eq]
    have hstart : l.start = l.content.start + l.indentBytes := by
      simp only [start, stop, hsize]
      omega
    constructor
    · have hrest : Stands source (l.content.start + byteSize (leadingIndent l.text))
          (l.text.dropWhile isIndent) := by
        have hs := h.stands
        rw [← hsplit] at hs
        exact hs.right
      rw [byteSize_leadingIndent, ← h.indentBytes_eq] at hrest
      rw [hstart]
      exact hrest.of_prefix (trimEnd_isPrefix _)
    · simp only [stop, hsize, hstart]
      omega

theorem boundary_start (h : l.Sound source) : Boundary source l.start :=
  h.stands_body.1.boundary

theorem boundary_stop (h : l.Sound source) : Boundary source l.stop := by
  rw [h.stands_body.2]
  exact h.stands_body.1.boundary_stop

theorem slice_start_stop (h : l.Sound source) : slice source ⟨l.start, l.stop⟩ = l.body := by
  rw [h.stands_body.2]
  exact h.stands_body.1.slice

/-- The content of a line starts where its indentation does, unless the line is blank. -/
theorem start_eq (h : l.Sound source) (hl : l.isBlank = false) :
    l.start = l.content.start + l.indentBytes ∧
      trimEnd l.text = leadingIndent l.text ++ l.body := by
  have hsplit := leadingIndent_append l
  have hex : ∃ c ∈ l.text.dropWhile isIndent, Text.isBlank c = false := by
    rw [h.isBlank_eq, ← hsplit, List.all_append, Bool.and_eq_false_iff] at hl
    rcases hl with hl | hl
    · obtain ⟨c, hc, hb⟩ := List.all_eq_false.mp hl
      exact absurd (isBlank_of_isIndent (isIndent_of_mem_takeWhile hc)) hb
    · obtain ⟨c, hc, hb⟩ := List.all_eq_false.mp hl
      exact ⟨c, hc, by simpa using hb⟩
  have htrim : trimEnd l.text = leadingIndent l.text ++ l.body := by
    conv_lhs => rw [← hsplit]
    exact dropEndWhile_append_of_exists _ hex
  refine ⟨?_, htrim⟩
  simp only [start, stop, htrim, byteSize_append, byteSize_leadingIndent, h.indentBytes_eq]
  omega

theorem body_ne_nil (h : l.Sound source) (hl : l.isBlank = false) : l.body ≠ [] := by
  intro hnil
  rw [h.isBlank_eq, List.all_eq_false] at hl
  obtain ⟨c, hc, hblank⟩ := hl
  have hall := trimEnd_eq_nil_iff.mp hnil
  rw [← leadingIndent_append l, List.mem_append] at hc
  rcases hc with hc | hc
  · exact hblank (isBlank_of_isIndent (isIndent_of_mem_takeWhile hc))
  · exact hblank (hall c hc)

theorem start_lt_stop (h : l.Sound source) (hl : l.isBlank = false) : l.start < l.stop := by
  have := byteSize_pos_of_ne_nil (h.body_ne_nil hl)
  rw [h.stands_body.2]
  omega

end Sound

end LineFacts

/-! ## Lines in order -/

/-- The lines follow one another in the source, the first one from `lo` on. -/
def InOrder (source : List Char) : Nat → List LineFacts → Prop
  | _, [] => True
  | lo, l :: rest => lo ≤ l.line.start ∧ l.Sound source ∧ InOrder source l.line.stop rest

namespace InOrder

variable {lo lo' : Nat} {l : LineFacts} {lines used rest : List LineFacts}

theorem weaken (h : InOrder source lo lines) (hle : lo' ≤ lo) : InOrder source lo' lines := by
  cases lines with
  | nil => trivial
  | cons l rest => exact ⟨hle.trans h.1, h.2⟩

theorem sound_of_mem (h : InOrder source lo lines) (hl : l ∈ lines) : l.Sound source := by
  induction lines generalizing lo with
  | nil => cases hl
  | cons first rest ih =>
    rcases List.mem_cons.mp hl with rfl | hl
    · exact h.2.1
    · exact ih h.2.2 hl

theorem line_start_le_stop (h : l.Sound source) : l.line.start ≤ l.line.stop := by
  have := h.line_start_le
  have := h.content_stop_le
  omega

/-- A first line that is in order starts from where the lines are left. -/
theorem le_start (h : InOrder source lo (l :: rest)) : lo ≤ l.start :=
  h.1.trans (h.2.1.line_start_le.trans l.content_start_le_start)

theorem start_le_line_stop (h : InOrder source lo (l :: rest)) : l.start ≤ l.line.stop :=
  l.start_le_stop.trans h.2.1.stop_le_line_stop

theorem le_line_start (h : InOrder source lo lines) (hl : l ∈ lines) : lo ≤ l.line.start := by
  induction lines generalizing lo with
  | nil => cases hl
  | cons first rest ih =>
    rcases List.mem_cons.mp hl with rfl | hl
    · exact h.1
    · have := ih h.2.2 hl
      have := line_start_le_stop h.2.1
      exact h.1.trans (by omega)

theorem left (h : InOrder source lo (used ++ rest)) : InOrder source lo used := by
  induction used generalizing lo with
  | nil => trivial
  | cons l used ih => exact ⟨h.1, h.2.1, ih h.2.2⟩

/-- The lines after some lines start where those end. -/
theorem right (h : InOrder source lo (used ++ rest)) :
    ∃ mid, lo ≤ mid ∧ (∀ u ∈ used, u.line.stop ≤ mid) ∧ InOrder source mid rest := by
  induction used generalizing lo with
  | nil => exact ⟨lo, Nat.le_refl lo, by simp, h⟩
  | cons l used ih =>
    obtain ⟨mid, hmid, hused, hrest⟩ := ih h.2.2
    have hl := line_start_le_stop h.2.1
    refine ⟨mid, (h.1.trans hl).trans hmid, ?_, hrest⟩
    intro u hu
    rcases List.mem_cons.mp hu with rfl | hu
    · exact hmid
    · exact hused u hu

theorem sublist (h : InOrder source lo lines) (hsub : used.Sublist lines) :
    InOrder source lo used := by
  induction hsub generalizing lo with
  | slnil => trivial
  | cons l _ ih => exact (ih h.2.2).weaken (h.1.trans (line_start_le_stop h.2.1))
  | cons_cons l _ ih => exact ⟨h.1, h.2.1, ih h.2.2⟩

theorem filter (p : LineFacts → Bool) (h : InOrder source lo lines) :
    InOrder source lo (lines.filter p) :=
  h.sublist List.filter_sublist

end InOrder

/-! ## The lines of a text -/

/-- The first line of a text, what follows it, and how it ends. -/
theorem exists_of_splitLines_eq_cons {cs line : List Char} {rest : List (List Char)}
    (h : splitLines cs = line :: rest) :
    ∃ body after, cs = line ++ after ∧ rest = splitLines after ∧ '\n' ∉ body ∧
      (line = body ++ ['\n'] ∨ line = body ∧ after = []) := by
  induction cs generalizing line rest with
  | nil => simp [splitLines] at h
  | cons c cs ih =>
    by_cases hc : c = '\n'
    · subst hc
      simp only [splitLines, if_pos, List.cons.injEq] at h
      obtain ⟨rfl, rfl⟩ := h
      exact ⟨[], cs, rfl, rfl, by simp, Or.inl rfl⟩
    · simp only [splitLines, if_neg hc] at h
      cases hcs : splitLines cs with
      | nil =>
        simp only [hcs, List.cons.injEq] at h
        obtain ⟨rfl, rfl⟩ := h
        have hnil : cs = [] := by
          have := flatten_splitLines cs
          rw [hcs] at this
          exact this.symm
        subst hnil
        exact ⟨[c], [], rfl, hcs.symm, by simpa using Ne.symm hc, Or.inr ⟨rfl, rfl⟩⟩
      | cons first others =>
        simp only [hcs, List.cons.injEq] at h
        obtain ⟨rfl, rfl⟩ := h
        obtain ⟨body, after, rfl, hrest, hbody, hline⟩ := ih hcs
        refine ⟨c :: body, after, rfl, hrest, ?_, ?_⟩
        · simpa [hbody] using Ne.symm hc
        · rcases hline with rfl | ⟨rfl, rfl⟩
          · exact Or.inl rfl
          · exact Or.inr ⟨rfl, rfl⟩

/-- The content of a line, the byte order mark that may stand before it and the terminator. -/
theorem exists_contentOf (l : Line) :
    ∃ mark ends, l.text = mark ++ (LineFacts.contentOf l).2 ++ ends ∧
      (LineFacts.contentOf l).1 = l.span.start + byteSize mark ∧
      (mark = [] ∨ l.span.start = 0 ∧ mark = [byteOrderMark]) ∧
      dropEndWhile isLineEnd (LineFacts.contentOf l).2 = (LineFacts.contentOf l).2 ∧
      ∀ c ∈ ends, isLineEnd c = true := by
  obtain ⟨ends, hends, hall⟩ := exists_dropEndWhile_append isLineEnd l.text
  have hidem := dropEndWhile_idem isLineEnd l.text
  unfold LineFacts.contentOf
  cases htext : dropEndWhile isLineEnd l.text with
  | nil => exact ⟨[], ends, by rw [hends, htext]; rfl, rfl, Or.inl rfl, rfl, hall⟩
  | cons c rest =>
    rw [htext] at hidem
    by_cases hmark : (l.span.start == 0 && c == byteOrderMark) = true
    · simp only [hmark, if_true]
      obtain ⟨hstart, rfl⟩ : l.span.start = 0 ∧ c = byteOrderMark := by simpa using hmark
      refine ⟨[byteOrderMark], ends, by rw [hends, htext]; rfl, rfl, Or.inr ⟨hstart, rfl⟩, ?_, hall⟩
      -- What is left of the trimmed line after its first character ends as the line does.
      rw [dropEndWhile_eq_self_iff] at hidem ⊢
      intro x hx
      exact hidem x (by simp [List.getLast?_cons, hx])
    · simp only [hmark]
      exact ⟨[], ends, by rw [hends, htext]; rfl, rfl, Or.inl rfl, hidem, hall⟩

/-- The only line feed of a line is its last character, so none is left in the content. -/
theorem lineFeed_of_parts {line body mark text ends after : List Char} (hbody : '\n' ∉ body)
    (hline : line = body ++ ['\n'] ∨ line = body ∧ after = [])
    (hparts : line = mark ++ text ++ ends) (hmark : '\n' ∉ mark)
    (hended : dropEndWhile isLineEnd text = text) :
    '\n' ∉ text ∧ ('\n' ∈ ends ∨ after = []) := by
  rcases hline with hline | ⟨hline, hafter⟩
  · rcases List.eq_nil_or_concat ends with rfl | ⟨init, last, rfl⟩
    · have hlast : (mark ++ text).getLast? = some '\n' := by
        rw [← List.append_nil (mark ++ text), ← hparts, hline, List.getLast?_concat]
      by_cases htext : text = []
      · rw [htext, List.append_nil] at hlast
        exact absurd (List.mem_of_getLast? hlast) hmark
      · rw [List.getLast?_append_of_ne_nil _ htext] at hlast
        have := dropEndWhile_eq_self_iff.mp hended '\n' hlast
        simp [isLineEnd] at this
    · have heq : body ++ ['\n'] = (mark ++ text ++ init) ++ [last] := by
        rw [← hline, hparts]
        simp
      obtain ⟨hinit, hlast⟩ := List.append_inj' heq rfl
      simp only [List.cons.injEq, and_true] at hlast
      refine ⟨?_, Or.inl (by simp [← hlast])⟩
      intro hmem
      exact hbody (by rw [hinit]; simp [hmem])
  · refine ⟨?_, Or.inr hafter⟩
    intro hmem
    exact hbody (by rw [← hline, hparts]; simp [hmem])

/-- A line that stands in the source is described soundly. -/
theorem sound_ofLine (strict : Bool) {before line after body : List Char}
    (hsource : source = before ++ line ++ after) (hbody : '\n' ∉ body)
    (hline : line = body ++ ['\n'] ∨ line = body ∧ after = []) :
    (LineFacts.ofLine strict
      ⟨⟨byteSize before, byteSize before + byteSize line⟩, line⟩).Sound source := by
  generalize hraw :
    (⟨⟨byteSize before, byteSize before + byteSize line⟩, line⟩ : Line) = raw
  have hrawText : raw.text = line := by rw [← hraw]
  have hrawSpan : raw.span = ⟨byteSize before, byteSize before + byteSize line⟩ := by rw [← hraw]
  obtain ⟨mark, ends, hparts, hstart, hmark, hended, hends⟩ := exists_contentOf raw
  have hnoFeed : '\n' ∉ mark := by
    rcases hmark with rfl | ⟨-, rfl⟩
    · simp
    · decide
  rw [hrawText] at hparts
  obtain ⟨hone, hfeed⟩ := lineFeed_of_parts hbody hline hparts hnoFeed hended
  rw [hrawSpan] at hstart
  constructor
  · exact ⟨strict, raw, rfl⟩
  · refine ⟨before ++ mark, ends, after, ?_, ?_, ?_, hends, hfeed⟩
    · show source = before ++ mark ++ (LineFacts.contentOf raw).2 ++ ends ++ after
      rw [hsource, hparts]
      simp
    · show byteSize (before ++ mark) = (LineFacts.contentOf raw).1
      rw [hstart, byteSize_append]
    · show raw.span.stop = (LineFacts.contentOf raw).1 + byteSize (LineFacts.contentOf raw).2 +
        byteSize ends
      rw [hrawSpan, hstart, hparts]
      simp only [byteSize_append]
      omega
  · exact hone
  · exact hended
  · show Boundary source raw.span.start
    rw [hrawSpan]
    exact ⟨before, line ++ after, by simp [hsource], rfl⟩
  · show raw.span.start ≤ (LineFacts.contentOf raw).1
    rw [hrawSpan, hstart]
    exact Nat.le_add_right _ _

theorem inOrder_placeLines (strict : Bool) (before : List Char) {cs : List Char}
    (hsource : source = before ++ cs) :
    InOrder source (byteSize before)
      ((placeLines (byteSize before) (splitLines cs)).map (LineFacts.ofLine strict)) := by
  generalize hlines : splitLines cs = lines
  induction lines generalizing before cs with
  | nil => trivial
  | cons line rest ih =>
    obtain ⟨body, after, rfl, hrest, hbody, hline⟩ := exists_of_splitLines_eq_cons hlines
    have hsource' : source = before ++ line ++ after := by rw [hsource, List.append_assoc]
    have hsound := sound_ofLine strict hsource' hbody hline
    have hrest' := ih _ hsource' hrest.symm
    rw [byteSize_append] at hrest'
    exact ⟨Nat.le_refl _, hsound, hrest'⟩

/-- The lines of a text are in order. -/
theorem inOrder_ofText (strict : Bool) (source : List Char) :
    InOrder source 0 (LineFacts.ofText strict source) :=
  inOrder_placeLines strict [] rfl

/-! ## Characters and lines -/

/-- A character of a joined text lies in one of its two parts. -/
theorem exists_of_append_eq_append_cons {a b u v : List Char} {c : Char}
    (h : a ++ b = u ++ c :: v) :
    (∃ v', a = u ++ c :: v') ∨ ∃ u', u = a ++ u' ∧ b = u' ++ c :: v := by
  rcases List.append_eq_append_iff.mp h with ⟨u', hu, hb⟩ | ⟨v', ha, hv⟩
  · exact Or.inr ⟨u', hu, hb⟩
  · cases v' with
    | nil =>
      rw [List.append_nil] at ha
      rw [List.nil_append] at hv
      exact Or.inr ⟨[], by simp [ha], hv.symm⟩
    | cons c' v' =>
      simp only [List.cons_append, List.cons.injEq] at hv
      obtain ⟨rfl, -⟩ := hv
      exact Or.inl ⟨v', ha⟩

theorem exists_placed_of_append (offset : Nat) {cs u v : List Char} {c : Char}
    (h : cs = u ++ c :: v) :
    ∃ raw ∈ placeLines offset (splitLines cs), ∃ u' v', raw.text = u' ++ c :: v' ∧
      raw.span.start + byteSize u' = offset + byteSize u := by
  generalize hlines : splitLines cs = lines
  induction lines generalizing offset cs u with
  | nil =>
    have hflat := flatten_splitLines cs
    rw [hlines, h] at hflat
    simp at hflat
  | cons line rest ih =>
    obtain ⟨body, after, rfl, hrest, -⟩ := exists_of_splitLines_eq_cons hlines
    rcases exists_of_append_eq_append_cons h with ⟨v', hline⟩ | ⟨u', rfl, hafter⟩
    · exact ⟨_, List.mem_cons_self, u, v', hline, rfl⟩
    · obtain ⟨raw, hraw, x, y, htext, hoffset⟩ := ih (offset + byteSize line) hafter hrest.symm
      refine ⟨raw, List.mem_cons_of_mem _ hraw, x, y, htext, ?_⟩
      rw [hoffset, byteSize_append, Nat.add_assoc]

/-- A character of a line that is not blank lies between the line's `start` and `stop`. -/
theorem LineFacts.Sound.contains_of_not_blank {l : LineFacts} (h : l.Sound source)
    {u v : List Char} {c : Char} (htext : l.text = u ++ c :: v) (hc : Text.isBlank c = false) :
    l.isBlank = false ∧ l.start ≤ l.content.start + byteSize u ∧
      l.content.start + byteSize u + c.utf8Size ≤ l.stop := by
  have hblank : l.isBlank = false := by
    rw [h.isBlank_eq, htext]
    simp [hc]
  refine ⟨hblank, ?_, ?_⟩
  · have hsplit : leadingIndent l.text ++ l.text.dropWhile isIndent = u ++ c :: v := by
      rw [Sound.leadingIndent_append, htext]
    rcases exists_of_append_eq_append_cons hsplit with ⟨v', hv'⟩ | ⟨u', hu, -⟩
    · have hmem : c ∈ leadingIndent l.text := by
        rw [hv']
        simp
      simp [isBlank_of_isIndent (isIndent_of_mem_takeWhile hmem)] at hc
    · rw [(h.start_eq hblank).1, h.indentBytes_eq, ← Sound.byteSize_leadingIndent, hu]
      simp only [byteSize_append]
      omega
  · have htrim : trimEnd l.text = (u ++ [c]) ++ trimEnd v := by
      rw [htext, List.append_cons]
      exact trimEnd_append v (trimEnd_concat u hc)
    simp only [stop, htrim, byteSize_append, byteSize_cons, byteSize_nil]
    omega

theorem LineFacts.Sound.inkStopsBy {l : LineFacts} (h : l.Sound source) :
    InkStopsBy l.content.start l.text l.stop :=
  fun _ _ _ htext hc => (h.contains_of_not_blank htext hc).2.2

/-- A part of a line that ends before spaces and tabs, or before a character that is not blank,
stops within the trimmed line unless it ends in a blank itself. -/
theorem part_stop_le_iff {l : LineFacts} {front part tail : List Char} (hl : l.Sound source)
    (htext : l.text = front ++ part ++ tail) (hpart : part ≠ [])
    (htail : (∀ x ∈ tail, isIndent x = true) ∨
      ∃ q rest, tail = q :: rest ∧ Text.isBlank q = false) :
    l.content.start + byteSize front + byteSize part ≤ l.stop ↔
      ¬ ((∃ x, part.getLast? = some x ∧ Text.isBlank x = true) ∧
        ∀ x ∈ tail, isIndent x = true) := by
  have hink : InkStopsBy l.content.start (front ++ part ++ tail) l.stop := htext ▸ hl.inkStopsBy
  have hlast := List.getLast?_eq_some_getLast hpart
  generalize part.getLast hpart = last at hlast
  obtain ⟨init, rfl⟩ := List.getLast?_eq_some_iff.mp hlast
  rcases htail with htail | ⟨q, rest, rfl, hq⟩
  · cases hblank : Text.isBlank last with
    | false =>
      refine iff_of_true (hink.part_le hlast hblank) ?_
      rintro ⟨⟨x, hx, hxblank⟩, -⟩
      obtain rfl : last = x := Option.some.inj (hlast.symm.trans hx)
      simp [hblank] at hxblank
    | true =>
      refine iff_of_false ?_ (not_not.mpr ⟨⟨last, hlast, hblank⟩, htail⟩)
      -- The blank at the end is trimmed with all that follows it.
      have hall : ∀ x ∈ last :: tail, Text.isBlank x = true := by
        intro x hx
        rcases List.mem_cons.mp hx with rfl | hx
        · exact hblank
        · exact isBlank_of_isIndent (htail x hx)
      have htrim : trimEnd l.text = trimEnd (front ++ init) := by
        rw [htext, ← List.append_assoc front, List.append_assoc (front ++ init),
          List.singleton_append]
        exact dropEndWhile_append_of_all hall
      have hsize := byteSize_trimEnd_le (front ++ init)
      have hpos := last.utf8Size_pos
      simp only [LineFacts.stop, htrim, byteSize_append, byteSize_cons, byteSize_nil] at hsize ⊢
      omega
  · refine iff_of_true ?_ ?_
    · have := hink (front ++ (init ++ [last])) q rest rfl hq
      simp only [byteSize_append] at this ⊢
      omega
    · rintro ⟨-, hindent⟩
      simp [isBlank_of_isIndent (hindent q List.mem_cons_self)] at hq

/-- The margin of a block that stops on a line is the rest of that line. -/
theorem LineFacts.Sound.margin_eq {l : LineFacts} {b : Block} {u v : List Char}
    (h : l.Sound source) (htext : l.text = u ++ v)
    (hstop : b.span.stop = l.content.start + byteSize u) : b.margin source = v := by
  obtain ⟨before, ends, after, hsource, hbefore, -, hends, hafter⟩ := h.placed
  have hdrop : dropBytes? b.span.stop source = some (v ++ (ends ++ after)) := by
    have hsplit : source = (before ++ u) ++ (v ++ (ends ++ after)) := by
      rw [hsource, htext]
      simp
    have hsize : b.span.stop = byteSize (before ++ u) := by
      rw [hstop, byteSize_append, hbefore]
    rw [hsplit, hsize, dropBytes?_byteSize]
  have hv : ∀ c ∈ v, (c != '\n') = true := by
    intro c hc
    have hone := h.oneLine
    rw [htext] at hone
    simp only [bne_iff_ne]
    rintro rfl
    exact hone (List.mem_append_right u hc)
  have hline : ∃ tail, (ends ++ after).takeWhile (· != '\n') = tail ∧
      ∀ c ∈ tail, isLineEnd c = true := by
    refine ⟨_, rfl, ?_⟩
    intro c hc
    rcases hafter with hfeed | rfl
    · obtain ⟨x, y, rfl⟩ := List.append_of_mem hfeed
      rw [List.append_assoc, List.cons_append, List.takeWhile_append] at hc
      split at hc
      · simp only [List.mem_append, List.takeWhile_cons, bne_self_eq_false, Bool.false_eq_true,
          if_false, List.not_mem_nil, or_false] at hc
        exact hends c (List.mem_append_left _ hc)
      · exact hends c (List.mem_append_left _ (List.takeWhile_prefix _ |>.subset hc))
    · rw [List.append_nil] at hc
      exact hends c (List.takeWhile_prefix _ |>.subset hc)
  obtain ⟨tail, htail, hall⟩ := hline
  have hended : dropEndWhile isLineEnd v = v := by
    rw [dropEndWhile_eq_self_iff]
    intro c hc
    have := dropEndWhile_eq_self_iff.mp h.ended c
    rw [htext] at this
    refine this ?_
    have hne : v ≠ [] := by
      rintro rfl
      simp at hc
    rw [List.getLast?_append_of_ne_nil _ hne, hc]
  unfold Block.margin
  rw [hdrop, Option.getD_some, List.takeWhile_append_of_pos hv, htail,
    dropEndWhile_append_of_all hall, hended]

/-- A slice from within a line to somewhere after it has a line feed. -/
theorem LineFacts.Sound.lineFeed_mem {l : LineFacts} {m n : Nat} {cs : List Char}
    (h : l.Sound source) (hm : m ≤ l.content.start + byteSize l.text) (hn : l.line.stop < n)
    (hcs : slice? source ⟨m, n⟩ = some cs) : '\n' ∈ cs := by
  obtain ⟨before, ends, after, hsource, hbefore, hstop, -, hfeed⟩ := h.placed
  obtain ⟨hstands, hend⟩ := slice?_eq_some_iff.mp hcs
  simp only at hstands hend
  have hle := hstands.stop_le
  have hafter : after ≠ [] := by
    rintro rfl
    have := congrArg byteSize hsource
    simp only [byteSize_append, byteSize_nil] at this
    omega
  obtain ⟨x, y, rfl⟩ := List.append_of_mem (hfeed.resolve_right hafter)
  have hx : Stands source (l.content.start + byteSize l.text + byteSize x) ['\n'] := by
    refine ⟨before ++ l.text ++ x, y ++ after, by rw [hsource]; simp, ?_⟩
    simp only [byteSize_append]
    omega
  have hsize : Char.utf8Size '\n' = 1 := rfl
  simp only [byteSize_append, byteSize_cons, hsize] at hstop
  refine hstands.mem hx ?_ ?_
  · omega
  · rw [hsize]
    omega

/-- Every character that is neither blank nor the byte order mark at the start lies between the
`start` and the `stop` of a line. -/
theorem exists_line_contains (strict : Bool) {before after : List Char} {c : Char}
    (hsource : source = before ++ c :: after) (hc : Text.isBlank c = false)
    (hmark : ¬ (before = [] ∧ c = byteOrderMark)) :
    ∃ l ∈ LineFacts.ofText strict source, l.isBlank = false ∧ l.start ≤ byteSize before ∧
      byteSize before + c.utf8Size ≤ l.stop := by
  obtain ⟨raw, hraw, u, v, htext, hoffset⟩ := exists_placed_of_append 0 hsource
  have hmem : LineFacts.ofLine strict raw ∈ LineFacts.ofText strict source :=
    List.mem_map_of_mem hraw
  have hsound := (inOrder_ofText strict source).sound_of_mem hmem
  obtain ⟨mark, ends, hparts, hstart, hmarks, -, hends⟩ := exists_contentOf raw
  rw [hparts, List.append_assoc] at htext
  rcases exists_of_append_eq_append_cons htext with ⟨v', hv'⟩ | ⟨u', rfl, hrest⟩
  · -- The character is the byte order mark before the content.
    rcases hmarks with rfl | ⟨hzero, rfl⟩
    · simp at hv'
    · obtain ⟨rfl, rfl⟩ : u = [] ∧ c = byteOrderMark := by
        cases u with
        | nil =>
          simp only [List.nil_append, List.cons.injEq] at hv'
          exact ⟨rfl, hv'.1.symm⟩
        | cons x u => simp at hv'
      rw [hzero] at hoffset
      exact absurd ⟨byteSize_eq_zero_iff.mp (by simpa using hoffset.symm), rfl⟩ hmark
  · rcases exists_of_append_eq_append_cons hrest with ⟨v', hv'⟩ | ⟨w, -, hw⟩
    · have hcontent : (LineFacts.ofLine strict raw).content.start + byteSize u' =
          byteSize before := by
        show (LineFacts.contentOf raw).1 + byteSize u' = byteSize before
        rw [hstart, ← Nat.zero_add (byteSize before), ← hoffset, byteSize_append, Nat.add_assoc]
      obtain ⟨hblank, hle, hlt⟩ := hsound.contains_of_not_blank hv' hc
      rw [hcontent] at hle hlt
      exact ⟨_, hmem, hblank, hle, hlt⟩
    · have := isBlank_of_isLineEnd (hends c (by simp [hw]))
      simp [this] at hc

end ArticleAudit.Markdown
