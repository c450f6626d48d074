import ArticleAudit.Proofs.Markdown.Marks
import ArticleAudit.Proofs.Markdown.Runs
import ArticleAudit.Proofs.Text.Runs

/-!
# Fences and the blocks of code between them

A fence line starts, after blanks, with a run of three or more marks (`Fence.ofLine?_eq_some_iff`),
and a line closes fenced code exactly when it is a bare run of the same mark that is at least as
long (`isClosedBy_iff`). In lines that are in order the block of fenced code ends with the first
line that closes it, and its content is what stands between the two lines; if no line closes it, it
takes all lines (`Fence.Verbatim`).
-/

set_option autoImplicit false

namespace ArticleAudit.Markdown

open ArticleAudit.Text

variable {source text rest : List Char} {mark : FenceMark} {f : Fence} {l : LineFacts}

/-! ## Opening fences

Both marks are read alike: the longest run of the mark, three at least, and behind it the info
string, which has no backtick if backticks are the mark.
-/

theorem FenceMark.isBlank_char (mark : FenceMark) : isBlank mark.char = false := by
  cases mark <;> rfl

/-- The text starts with the run of a fence, and the rest of it is the info string. -/
structure Fence.Starts (f : Fence) (text rest : List Char) : Prop where
  eq : text = List.replicate f.length f.mark.char ++ rest
  whole : rest.head? ≠ some f.mark.char
  length : 3 ≤ f.length
  info : f.info = trim rest
  plain : f.mark = .backticks → f.mark.char ∉ f.info

theorem Fence.ofMark?_eq_some_iff :
    Fence.ofMark? mark text = some f ↔ f.mark = mark ∧ ∃ rest, f.Starts text rest := by
  -- The text has one longest run of the mark, which is the run that the fence names.
  obtain ⟨rest, htext, hdrop, hwhole⟩ := exists_run mark.char text
  generalize hn : (text.takeWhile (· == mark.char)).length = n at htext
  have hread : Fence.ofMark? mark text = some f ↔
      3 ≤ n ∧ (mark = .backticks → mark.char ∉ trim rest) ∧ f = ⟨mark, n, trim rest⟩ := by
    unfold Fence.ofMark?
    simp only [hn, hdrop, Option.ite_none_left_eq_some, Option.some.injEq, Nat.not_lt,
      Bool.and_eq_true, beq_iff_eq, List.contains_iff_mem, not_and]
    exact and_congr_right fun _ => and_congr_right fun _ => eq_comm
  rw [hread]
  constructor
  · rintro ⟨hlength, hplain, rfl⟩
    exact ⟨rfl, rest, htext, hwhole, hlength, rfl, hplain⟩
  · rintro ⟨rfl, rest', h⟩
    obtain ⟨rfl, rfl⟩ := replicate_append_inj hwhole h.whole (htext.symm.trans h.eq)
    exact ⟨h.length, h.info ▸ h.plain, by rw [← h.info]⟩

theorem Fence.Starts.head? (h : f.Starts text rest) : text.head? = some f.mark.char := by
  obtain ⟨n, hn⟩ := Nat.exists_eq_add_of_lt (Nat.lt_of_lt_of_le (by decide : 0 < 3) h.length)
  rw [h.eq, hn, List.replicate_succ, List.cons_append, List.head?_cons]

/-- A line is a fence exactly when its text, blanks apart, starts with the run of the fence. -/
theorem Fence.ofLine?_eq_some_iff :
    Fence.ofLine? text = some f ↔ ∃ rest, f.Starts (trimStart text) rest := by
  unfold Fence.ofLine?
  simp only
  constructor
  · intro h
    cases hticks : Fence.ofMark? .backticks (trimStart text) with
    | some g =>
      rw [hticks] at h
      obtain rfl := Option.some.inj h
      exact (Fence.ofMark?_eq_some_iff.mp hticks).2
    | none =>
      rw [hticks] at h
      exact (Fence.ofMark?_eq_some_iff.mp h).2
  · rintro ⟨rest, h⟩
    have hread := Fence.ofMark?_eq_some_iff.mpr ⟨rfl, rest, h⟩
    cases hmark : f.mark with
    | backticks =>
      rw [hmark] at hread
      rw [hread]
      rfl
    | tildes =>
      -- A text that starts with a tilde does not start with a backtick.
      have hnone : Fence.ofMark? .backticks (trimStart text) = none := by
        refine Option.eq_none_iff_forall_ne_some.mpr fun g hg => ?_
        obtain ⟨hgmark, rest', hg⟩ := Fence.ofMark?_eq_some_iff.mp hg
        have hheads := h.head?.symm.trans hg.head?
        rw [hmark, hgmark] at hheads
        cases hheads
      rw [hmark] at hread
      rw [hnone]
      exact hread

/-! ## Closing fences

Whether a line closes code is read off the fence that it is itself, if it is one: the same mark, as
many of them at least, and no info string. A line in a quote is no fence, but a bare run of marks is
not in a quote.
-/

/-- The text is, between blanks, a run of a character and nothing else. -/
def IsBareRun (mark : Char) (n : Nat) (text : List Char) : Prop :=
  trim text = List.replicate n mark

/-- The line is a bare run of the mark of the fence, and at least as long. -/
def Fence.ClosedBy (f : Fence) (l : LineFacts) : Prop :=
  ∃ n, f.length ≤ n ∧ IsBareRun f.mark.char n l.text

theorem trimEnd_run (mark : FenceMark) (n : Nat) :
    trimEnd (List.replicate n mark.char) = List.replicate n mark.char := by
  refine dropEndWhile_eq_self_iff.mpr fun c hc => ?_
  rw [List.eq_of_mem_replicate (List.mem_of_getLast? hc)]
  exact mark.isBlank_char

/-- The text of a line is bare when it starts with the run of a fence without info string. -/
theorem isBareRun_iff {n : Nat} (hn : 3 ≤ n) : IsBareRun mark.char n text ↔
    ∃ rest, (Fence.mk mark n []).Starts (trimStart text) rest := by
  constructor
  · intro h
    obtain ⟨tail, htail, hblank⟩ := exists_trimEnd_append (trimStart text)
    rw [show trimEnd (trimStart text) = List.replicate n mark.char from h] at htail
    refine ⟨tail, htail, fun hhead => ?_, hn, ?_, fun _ => List.not_mem_nil⟩
    · have hmark := hblank _ (List.mem_of_head? hhead)
      rw [mark.isBlank_char] at hmark
      cases hmark
    · refine (trimEnd_eq_nil_iff.mpr fun c hc => ?_).symm
      exact hblank c ((trimStart_isSuffix tail).subset hc)
  · rintro ⟨rest, h⟩
    have hblank : ∀ c ∈ rest, isBlank c = true := by
      intro c hc
      rw [← trimStart_append_takeWhile rest] at hc
      rcases List.mem_append.mp hc with hc | hc
      · exact List.mem_takeWhile_imp hc
      · exact trimEnd_eq_nil_iff.mp h.info.symm c hc
    have heq : trimStart text = List.replicate n mark.char ++ rest := h.eq
    rw [IsBareRun, trim, heq, trimEnd, dropEndWhile_append_of_all hblank]
    exact trimEnd_run mark n

/-- A bare run of marks is not quoted. -/
theorem quoteOf_of_isBareRun {n : Nat} (h : IsBareRun mark.char n text) :
    (quoteOf text).depth = 0 := by
  have hnone : '>' ∉ text := by
    intro hmem
    obtain ⟨tail, htail, hblank⟩ := exists_trimEnd_append (trimStart text)
    rw [show trimEnd (trimStart text) = List.replicate n mark.char from h] at htail
    rw [← trimStart_append_takeWhile text, htail] at hmem
    rcases List.mem_append.mp hmem with hmem | hmem
    · cases List.mem_takeWhile_imp hmem
    · rcases List.mem_append.mp hmem with hmem | hmem
      · have hmark := List.eq_of_mem_replicate hmem
        cases mark <;> cases hmark
      · cases hblank _ hmem
  have hmarks : (quoteMarks text).count '>' = 0 :=
    List.count_eq_zero.mpr fun hmem => hnone ((List.takeWhile_prefix _).subset hmem)
  unfold quoteOf
  simp only [hmarks, beq_self_eq_true, if_true]

/-- The fence of a line that is not quoted is that of its text. -/
theorem LineFacts.Described.fence_eq_some_iff (hl : l.Described) :
    l.fence = some f ↔ (quoteOf l.text).depth = 0 ∧ Fence.ofLine? l.text = some f := by
  obtain ⟨strict, raw, rfl⟩ := hl
  show (if (quoteOf _).depth == 0 then Fence.ofLine? _ else none) = some f ↔ _
  rw [Option.ite_none_right_eq_some, beq_iff_eq]
  rfl

/-- A line closes fenced code exactly when it is a bare run of the mark, and at least as long. -/
theorem Fence.isClosedBy_iff (hl : l.Described) (hf : 3 ≤ f.length) :
    f.isClosedBy l.fence = true ↔ f.ClosedBy l := by
  constructor
  · intro h
    unfold Fence.isClosedBy at h
    split at h
    · cases h
    · next g hg =>
      obtain ⟨mark, n, info⟩ := g
      simp only [Bool.and_eq_true, beq_iff_eq, decide_eq_true_eq, List.isEmpty_iff] at h
      obtain ⟨⟨rfl, hlength⟩, rfl⟩ := h
      obtain ⟨-, hread⟩ := hl.fence_eq_some_iff.mp hg
      exact ⟨n, hlength, (isBareRun_iff (hf.trans hlength)).mpr
        (Fence.ofLine?_eq_some_iff.mp hread)⟩
  · rintro ⟨n, hlength, hrun⟩
    have hread := Fence.ofLine?_eq_some_iff.mpr ((isBareRun_iff (hf.trans hlength)).mp hrun)
    have hfence := hl.fence_eq_some_iff.mpr ⟨quoteOf_of_isBareRun hrun, hread⟩
    simp [Fence.isClosedBy, hfence, hlength]

/-! ## Where lines end -/

/-- A line ends at an offset: at its start when it is blank, and otherwise after its last character
that is not. -/
structure LineFacts.EndsAt (l : LineFacts) (stop : Nat) : Prop where
  blank : (∀ c ∈ l.text, Text.isBlank c = true) → stop = l.line.start
  ink : (∃ c ∈ l.text, Text.isBlank c = false) → ∃ ink c blanks, l.text = ink ++ c :: blanks ∧
    Text.isBlank c = false ∧ (∀ d ∈ blanks, Text.isBlank d = true) ∧
    stop = l.content.start + byteSize (ink ++ [c])

/-- Only at the start of a document something may stand before the text of a line. -/
theorem LineFacts.Described.content_start (hl : l.Described) (h : 0 < l.line.start) :
    l.content.start = l.line.start := by
  obtain ⟨strict, raw, rfl⟩ := hl
  obtain ⟨mark, ends, -, hstart, hmark, -, -⟩ := exists_contentOf raw
  have hline : (LineFacts.ofLine strict raw).line.start = raw.span.start := rfl
  obtain rfl : mark = [] := by
    rcases hmark with hnil | ⟨hzero, -⟩
    · exact hnil
    · omega
  exact hstart

/-- A line ends where it stops, if it is not blank or does not start the document. -/
theorem LineFacts.Sound.endsAt (h : l.Sound source) (hl : l.isBlank = true → 0 < l.line.start) :
    l.EndsAt l.stop := by
  obtain ⟨blanks, htext, hblanks⟩ := exists_trimEnd_append l.text
  constructor
  · intro hall
    have hblank : l.isBlank = true := by
      rw [h.isBlank_eq]
      exact List.all_eq_true.mpr hall
    rw [LineFacts.stop, trimEnd_eq_nil_iff.mpr hall, byteSize_nil, Nat.add_zero]
    exact LineFacts.Described.content_start h.described (hl hblank)
  · rintro ⟨d, hd, hink⟩
    have hne : trimEnd l.text ≠ [] := by
      intro hnil
      rw [trimEnd_eq_nil_iff.mp hnil d hd] at hink
      cases hink
    obtain ⟨ink, c, hparts⟩ := (List.eq_nil_or_concat (trimEnd l.text)).resolve_left hne
    refine ⟨ink, c, blanks, ?_, ?_, hblanks, ?_⟩
    · conv_lhs => rw [htext, hparts]
      simp
    · exact dropEndWhile_eq_self_iff.mp (trimEnd_trimEnd l.text) c (by simp [hparts])
    · rw [LineFacts.stop, hparts, List.concat_eq_append]

/-! ## Code between fences

The bounds of a block's content are kept in order by minima and maxima. On lines that are in order
these choose the end of the opening line and the start of the closing one, or the end of the block
when nothing closes it.
-/

/-- The block of the code that a fence opens, given the lines after the fence. -/
structure Verbatim (l : LineFacts) (f : Fence) (after : List LineFacts) (b : Block) : Prop where
  start : b.span.start = l.start
  /-- The first line that closes the code ends the block, and the content is what stands between the
  two lines. -/
  closed : ∀ body c rest, after = body ++ c :: rest → (∀ u ∈ body, ¬ f.ClosedBy u) → f.ClosedBy c →
    c.EndsAt b.span.stop ∧ b.content = some ⟨l.line.stop, c.line.start⟩
  /-- When no line does, the block takes all lines. -/
  unclosed : (∀ u ∈ after, ¬ f.ClosedBy u) → (lastLine l after).EndsAt b.span.stop ∧
    b.content = some ⟨min l.line.stop b.span.stop, b.span.stop⟩
  children : ∀ c ∈ b.children, c.kind = .resourceType ∧ ∃ n, c.children = [n] ∧
    n.kind = .resourceNamespace ∧ n.span.start = c.span.start ∧ n.children = []

theorem Fence.three_le (hl : l.Described) (hf : l.fence = some f) : 3 ≤ f.length := by
  obtain ⟨rest, hstarts⟩ := Fence.ofLine?_eq_some_iff.mp (hl.fence_eq_some_iff.mp hf).2
  exact hstarts.length

/-- A resource type in code has its namespace inside it and nothing else. -/
theorem forall_mem_fenceChildren {language : List Char} {lines : List LineFacts} :
    ∀ c ∈ fenceChildren language lines, c.kind = .resourceType ∧ ∃ n, c.children = [n] ∧
      n.kind = .resourceNamespace ∧ n.span.start = c.span.start ∧ n.children = [] := by
  intro c hc
  unfold fenceChildren at hc
  split at hc
  · obtain ⟨u, -, hc⟩ := List.mem_flatMap.mp hc
    obtain ⟨⟨position, name⟩, -, rfl⟩ := List.mem_map.mp hc
    exact ⟨rfl, _, rfl, rfl, rfl, rfl⟩
  · cases hc

/-- The lines of code that is closed, and the line that closes it. -/
theorem fenceRun_of_closed {body rest : List LineFacts} {c : LineFacts}
    (hbody : ∀ u ∈ body, f.isClosedBy u.fence = false) (hc : f.isClosedBy c.fence = true) :
    fenceRun f (body ++ c :: rest) = body ++ [c] ∧
      fenceClosing? f (body ++ c :: rest) = some c := by
  have hall : ∀ u ∈ body, (!f.isClosedBy u.fence) = true := by
    intro u hu
    rw [hbody u hu]
    rfl
  unfold fenceRun fenceClosing? closedRun
  rw [List.takeWhile_append_of_pos hall, List.dropWhile_append_of_pos hall,
    List.takeWhile_cons_of_neg (by simp [hc]), List.dropWhile_cons_of_neg (by simp [hc])]
  simp

/-- Code that nothing closes takes all lines. -/
theorem fenceRun_of_unclosed {lines : List LineFacts}
    (h : ∀ u ∈ lines, f.isClosedBy u.fence = false) :
    fenceRun f lines = lines ∧ fenceClosing? f lines = none := by
  have hall : ∀ u ∈ lines, (!f.isClosedBy u.fence) = true := by
    intro u hu
    rw [h u hu]
    rfl
  unfold fenceRun fenceClosing? closedRun
  rw [List.takeWhile_eq_self_iff.mpr hall, List.dropWhile_eq_nil_iff.mpr hall]
  simp

/-- In lines that are in order a fence opens the code that the lines after it show. -/
theorem verbatim_fenceBlock {lo : Nat} {after : List LineFacts}
    (h : InOrder source lo (l :: after)) (hf : l.fence = some f) :
    Verbatim l f after (fenceBlock source l f after).block := by
  have hsound := h.2.1
  have hlength := Fence.three_le hsound.described hf
  have hink : l.isBlank = false :=
    LineFacts.isBlank_of_ink hsound.described (LineFacts.ink_of_fence hsound.described hf)
  have hcloses : ∀ u ∈ after, f.isClosedBy u.fence = true ↔ f.ClosedBy u := fun u hu =>
    Fence.isClosedBy_iff (h.2.2.sound_of_mem hu).described hlength
  -- Every later line starts where the line of the fence has stopped.
  have hlater : ∀ u ∈ after, l.line.stop ≤ u.line.start := fun u hu => h.2.2.le_line_start hu
  have hline := hsound.stop_le_line_stop
  have hlt := hsound.start_lt_stop hink
  have hends : ∀ u ∈ l :: after, u.EndsAt u.stop := by
    intro u hu
    refine (h.sound_of_mem hu).endsAt fun hblank => ?_
    rcases List.mem_cons.mp hu with rfl | hu
    · rw [hink] at hblank
      cases hblank
    · have := hlater u hu
      omega
  have hspan := (takesRun_fenceBlock (f := f) h).span
  obtain ⟨tag, hblock⟩ := exists_fenceBlock_eq source l f after
  refine ⟨by rw [hspan], ?_, ?_, ?_⟩
  · rintro body c rest rfl hbody hc
    obtain ⟨hrun, hclosing⟩ := @fenceRun_of_closed f body rest c
      (fun u hu => Bool.eq_false_iff.mpr
        ((hcloses u (List.mem_append_left _ hu)).not.mpr (hbody u hu)))
      ((hcloses c (by simp)).mpr hc)
    have hstart := hlater c (by simp)
    have hsoundc := h.2.2.sound_of_mem (show c ∈ body ++ c :: rest by simp)
    have hcontent := hsoundc.line_start_le.trans c.content_start_le_start
    have hstop := c.start_le_stop
    have hlast : lastLine l (body ++ [c]) = c := by simp [lastLine]
    rw [hspan, hrun, hlast]
    refine ⟨hends c (by simp), ?_⟩
    -- The closing line starts behind the opening one and in the block.
    rw [hblock, hrun, hclosing, hlast]
    show some (Span.mk _ _) = _
    simp only [Option.map_some, Option.getD_some, Option.some.injEq, Span.mk.injEq]
    omega
  · intro hnone
    obtain ⟨hrun, hclosing⟩ := @fenceRun_of_unclosed f after
      fun u hu => Bool.eq_false_iff.mpr ((hcloses u hu).not.mpr (hnone u hu))
    have hstart := h.start_le_lastLine
    rw [hspan, hrun]
    refine ⟨hends _ (lastLine_mem l after), ?_⟩
    rw [hblock, hrun, hclosing]
    show some (Span.mk _ _) = _
    simp only [Option.map_none, Option.getD_none, Option.some.injEq, Span.mk.injEq]
    omega
  · rw [hblock]
    exact forall_mem_fenceChildren

end ArticleAudit.Markdown
