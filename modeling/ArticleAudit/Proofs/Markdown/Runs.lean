import ArticleAudit.Proofs.Markdown.Cells
import ArticleAudit.Proofs.Markdown.Headings
import ArticleAudit.Proofs.Markdown.ResourceNames

/-!
# Blocks over runs of lines

A fence, an alert and a table take a run of the lines after their opening line, and their block
spans from the start of the opening line to the end of the last line of the run (`TakesRun`). In
lines that are in order every line of the run ends by then, so what is built inside the lines lies
within the block.
-/

set_option autoImplicit false

namespace ArticleAudit.Markdown

open ArticleAudit.Text

variable {source : List Char}

/-! ## The last line of a run -/

theorem lastLine_cons (l first : LineFacts) (rest : List LineFacts) :
    lastLine l (first :: rest) = lastLine first rest := by
  simp [lastLine, List.getLast?_cons]

theorem lastLine_mem (l : LineFacts) (lines : List LineFacts) :
    lastLine l lines ∈ l :: lines := by
  cases hlast : lines.getLast? with
  | none => simp [lastLine, hlast]
  | some last =>
    have := List.mem_of_getLast? hlast
    simp [lastLine, hlast, this]

/-- A run stops by an offset when all its lines do. -/
theorem lastLine_stop_le {hi : Nat} {l : LineFacts} {lines : List LineFacts} (hl : l.stop ≤ hi)
    (hhi : ∀ u ∈ lines, u.stop ≤ hi) : (lastLine l lines).stop ≤ hi := by
  rcases List.mem_cons.mp (lastLine_mem l lines) with hlast | hlast
  · rw [hlast]
    exact hl
  · exact hhi _ hlast

namespace InOrder

variable {lo hi : Nat} {l u : LineFacts} {lines used : List LineFacts}

theorem left_cons {rest : List LineFacts} (h : InOrder source lo (l :: (used ++ rest))) :
    InOrder source lo (l :: used) :=
  ⟨h.1, h.2.1, h.2.2.left⟩

/-- Every line of a run stops by the end of the last one. -/
theorem stop_le_lastLine (h : InOrder source lo (l :: lines)) (hu : u ∈ l :: lines) :
    u.stop ≤ (lastLine l lines).stop := by
  induction lines generalizing l lo u with
  | nil =>
    obtain rfl := List.mem_singleton.mp hu
    exact Nat.le_refl _
  | cons next rest ih =>
    rw [lastLine_cons]
    rcases List.mem_cons.mp hu with rfl | hu
    · have h1 := h.2.1.stop_le_line_stop
      have h2 := h.2.2.1
      have h3 := h.2.2.2.1.line_start_le
      have h4 := next.content_start_le_start
      have h5 := next.start_le_stop
      have h6 := ih h.2.2 List.mem_cons_self
      omega
    · exact ih h.2.2 hu

theorem sound_lastLine (h : InOrder source lo (l :: lines)) :
    (lastLine l lines).Sound source :=
  h.sound_of_mem (lastLine_mem l lines)

theorem start_le_lastLine (h : InOrder source lo (l :: lines)) :
    l.start ≤ (lastLine l lines).stop :=
  l.start_le_stop.trans (h.stop_le_lastLine List.mem_cons_self)

/-- Blocks that are laid out line by line are laid out over the lines. -/
theorem laid_flatMap {f : LineFacts → List Block} (h : InOrder source lo lines)
    (hf : ∀ c ∈ lines, c.Sound source → Block.Laid source c.line.start c.stop (f c))
    (hhi : ∀ c ∈ lines, c.stop ≤ hi) : Block.Laid source lo hi (lines.flatMap f) := by
  induction lines generalizing lo with
  | nil => exact .nil source lo hi
  | cons c rest ih =>
    have hc := hf c List.mem_cons_self h.2.1
    have hrest := ih h.2.2 (fun x hx => hf x (List.mem_cons_of_mem c hx))
      (fun x hx => hhi x (List.mem_cons_of_mem c hx))
    have h1 := h.2.1.stop_le_line_stop
    have h2 := h.2.1.line_start_le
    have h3 := c.content_start_le_start
    have h4 := c.start_le_stop
    have h5 := h.1
    rw [List.flatMap_cons]
    exact (hc.weaken h.1 (Nat.le_refl _)).append (hrest.weaken h1 (Nat.le_refl hi)) (by omega)
      (hhi c List.mem_cons_self)

end InOrder

/-! ## Runs up to a closing line -/

/-- The lines up to the first that does not satisfy `p`, that one included. -/
def closedRun (p : LineFacts → Bool) (lines : List LineFacts) : List LineFacts :=
  lines.takeWhile p ++ (lines.dropWhile p).head?.toList

theorem closedRun_append (p : LineFacts → Bool) (lines : List LineFacts) :
    closedRun p lines ++ (lines.dropWhile p).tail = lines := by
  conv_rhs => rw [← List.takeWhile_append_dropWhile (p := p) (l := lines)]
  unfold closedRun
  cases lines.dropWhile p with
  | nil => simp
  | cons closing rest => simp

theorem lastLine_closedRun (p : LineFacts → Bool) (l : LineFacts) (lines : List LineFacts) :
    lastLine l (closedRun p lines) =
      (lines.dropWhile p).head?.getD (lastLine l (lines.takeWhile p)) := by
  unfold closedRun
  cases lines.dropWhile p with
  | nil => simp
  | cons closing rest => simp [lastLine]

/-! ## Blocks -/

/-- A block takes a run of lines: it spans from the start of its opening line to the end of the last
line of the run, and is laid out there. -/
structure TakesRun (source : List Char) (l : LineFacts) {lines : List LineFacts}
    (taken : Taken lines) (used : List LineFacts) : Prop where
  split : lines = used ++ taken.rest
  span : taken.block.span = ⟨l.start, (lastLine l used).stop⟩
  laid : Block.Laid source l.start (lastLine l used).stop [taken.block]

/-- A block over a run of lines, given what is built inside it. -/
theorem laid_run {lo : Nat} {l : LineFacts} {used : List LineFacts} {b : Block}
    (h : InOrder source lo (l :: used)) (hspan : b.span = ⟨l.start, (lastLine l used).stop⟩)
    (htext : b.text = String.ofList (slice source ⟨l.start, (lastLine l used).stop⟩))
    (hchildren : Block.Laid source l.start (lastLine l used).stop b.children)
    (hinner : b.InnerFits source) (hregion : b.region = none) :
    Block.Laid source l.start (lastLine l used).stop [b] :=
  .singleton hspan htext h.2.1.boundary_start h.sound_lastLine.boundary_stop h.start_le_lastLine
    hchildren hinner hregion

/-- A quoted line is its marks and the quoted part. -/
theorem LineFacts.Sound.exists_quoteMarks {l : LineFacts} (h : l.Sound source) :
    ∃ marks, l.text = marks ++ l.unquoted ∧ byteSize marks = l.quote.offset := by
  unfold unquoted
  rw [h.quote_eq]
  unfold quoteOf
  simp only
  split
  · exact ⟨[], rfl, rfl⟩
  · refine ⟨quoteMarks l.text, ?_, ?_⟩
    · exact (List.prefix_iff_eq_append.mp (List.takeWhile_prefix _)).symm
    · apply byteSize_eq_length
      intro c hc
      have := List.mem_takeWhile_imp hc
      rcases (by simpa using this : c = ' ' ∨ c = '>') with rfl | rfl <;> rfl

/-! ## Fenced code -/

/-- The lines that fenced code takes. -/
def fenceRun (f : Fence) (lines : List LineFacts) : List LineFacts :=
  closedRun (fun c => !f.isClosedBy c.fence) lines

/-- The lines between the fences. -/
def fenceBody (f : Fence) (lines : List LineFacts) : List LineFacts :=
  lines.takeWhile fun c => !f.isClosedBy c.fence

/-- The line that closes a fence, if there is one. -/
def fenceClosing? (f : Fence) (lines : List LineFacts) : Option LineFacts :=
  (lines.dropWhile fun c => !f.isClosedBy c.fence).head?

/-- The block of a fence, up to its tag. -/
theorem exists_fenceBlock_eq (source : List Char) (l : LineFacts) (f : Fence)
    (lines : List LineFacts) :
    let stop := max (lastLine l (fenceRun f lines)).stop l.start
    let bodyStart := min l.line.stop stop
    let bodyStop := max (((fenceClosing? f lines).map fun c => c.line.start).getD stop) bodyStart
    ∃ tag, (fenceBlock source l f lines).block =
      { ((Block.ofSource source .codeFence l.start stop).withContent ⟨bodyStart, bodyStop⟩)
        with tag, children := fenceChildren (languageOf f.info) (fenceBody f lines) } := by
  intro stop bodyStart bodyStop
  have hstop : stop = max ((fenceClosing? f lines).getD (lastLine l (fenceBody f lines))).stop
      l.start := by
    show max (lastLine l (closedRun _ lines)).stop l.start = _
    rw [lastLine_closedRun]
    rfl
  clear_value stop
  subst hstop
  unfold fenceBlock
  simp only
  split
  · exact ⟨none, rfl⟩
  · exact ⟨some (String.ofList f.info), rfl⟩

/-- The resource types in code are laid out line by line. -/
theorem laid_fenceChildren {lo hi : Nat} {language : List Char} {lines : List LineFacts}
    (h : InOrder source lo lines) (hhi : ∀ c ∈ lines, c.stop ≤ hi) :
    Block.Laid source lo hi (fenceChildren language lines) := by
  unfold fenceChildren
  split
  · refine h.laid_flatMap ?_ hhi
    intro c _ hc
    exact (laid_resourceBlocks language hc.stands hc.inkStopsBy).weaken hc.line_start_le
      (Nat.le_refl _)
  · exact .nil source lo hi

/-- Fenced code takes the lines up to the one that closes it. -/
theorem takesRun_fenceBlock {lo : Nat} {l : LineFacts} {f : Fence} {lines : List LineFacts}
    (h : InOrder source lo (l :: lines)) :
    TakesRun source l (fenceBlock source l f lines) (fenceRun f lines) := by
  have hsplit : lines = fenceRun f lines ++ (fenceBlock source l f lines).rest :=
    (closedRun_append _ lines).symm
  have hrun : InOrder source lo (l :: fenceRun f lines) := by
    rw [hsplit] at h
    exact h.left_cons
  have hbody : InOrder source l.line.stop (fenceBody f lines) := hrun.2.2.left
  have hin : ∀ c ∈ fenceBody f lines, c.stop ≤ (lastLine l (fenceRun f lines)).stop :=
    fun c hc => hrun.stop_le_lastLine (List.mem_cons_of_mem l (List.mem_append_left _ hc))
  have hstart := hrun.start_le_lastLine
  have hline := h.2.1.stop_le_line_stop
  have hle := l.start_le_stop
  have hlast := hrun.sound_lastLine.boundary_stop
  obtain ⟨tag, hblock⟩ := exists_fenceBlock_eq source l f lines
  rw [Nat.max_eq_left hstart] at hblock
  -- Where the body stops: at the closing line, or with the block when there is none.
  have hclosing : Boundary source (((fenceClosing? f lines).map fun c => c.line.start).getD
      (lastLine l (fenceRun f lines)).stop) ∧
      ((fenceClosing? f lines).map fun c => c.line.start).getD
        (lastLine l (fenceRun f lines)).stop ≤ (lastLine l (fenceRun f lines)).stop := by
    cases hc : fenceClosing? f lines with
    | none => exact ⟨hlast, Nat.le_refl _⟩
    | some c =>
      have hmem : c ∈ l :: fenceRun f lines := by
        refine List.mem_cons_of_mem l (List.mem_append_right _ ?_)
        rw [show (lines.dropWhile fun c => !f.isClosedBy c.fence).head? = some c from hc]
        exact List.mem_singleton_self c
      have hsound := hrun.sound_of_mem hmem
      have h1 := hsound.line_start_le
      have h2 := c.content_start_le_start
      have h3 := c.start_le_stop
      have h4 := hrun.stop_le_lastLine hmem
      refine ⟨hsound.line_start, ?_⟩
      show c.line.start ≤ _
      omega
  refine ⟨hsplit, by rw [hblock]; rfl, ?_⟩
  rw [hblock]
  refine laid_run hrun rfl rfl ?_ ?_ rfl
  · exact (laid_fenceChildren hbody hin).weaken (by omega) (Nat.le_refl _)
  · refine Block.innerFits_of_boundaries (Block.not_overhangs nofun nofun) rfl rfl
      (h.2.1.line_stop.min hlast) (hclosing.1.max (h.2.1.line_stop.min hlast)) ?_
      (Nat.le_max_right _ _) ?_
    · exact Nat.le_min.mpr ⟨hle.trans hline, hstart⟩
    · exact Nat.max_le.mpr ⟨hclosing.2, Nat.min_le_right _ _⟩

/-! ## Alerts -/

/-- The quoted lines that an alert takes. -/
def noteRun (lines : List LineFacts) : List LineFacts :=
  lines.takeWhile fun c => c.quote.depth > 0

/-- The links in the quoted lines of an alert. -/
def noteChildren (lines : List LineFacts) : List Block :=
  (noteRun lines).flatMap fun c => linkBlocks (c.content.start + c.quote.offset) c.unquoted

/-- The block of an alert; its content runs from the first quoted line to the end. -/
theorem exists_noteBlock_eq (source : List Char) (l : LineFacts) (name : List Char)
    (lines : List LineFacts) :
    let stop := max (lastLine l (noteRun lines)).stop l.start
    ∃ content, (noteBlock source l name lines).block =
        { ((Block.ofSource source .note l.start stop).withTag name)
          with content, children := noteChildren lines } ∧
      ∀ s, content = some s → ∃ first ∈ noteRun lines,
        s = ⟨max first.start l.start, max stop (max first.start l.start)⟩ := by
  unfold noteBlock noteChildren noteRun
  simp only
  cases lines.takeWhile fun c => c.quote.depth > 0 with
  | nil =>
    refine ⟨none, rfl, ?_⟩
    intro s hs
    cases hs
  | cons first rest =>
    refine ⟨_, rfl, ?_⟩
    intro s hs
    exact ⟨first, List.mem_cons_self, (Option.some.inj hs).symm⟩

theorem laid_noteChildren {lo hi : Nat} {lines : List LineFacts}
    (h : InOrder source lo (noteRun lines)) (hhi : ∀ c ∈ noteRun lines, c.stop ≤ hi) :
    Block.Laid source lo hi (noteChildren lines) := by
  refine h.laid_flatMap ?_ hhi
  intro c _ hc
  obtain ⟨marks, htext, hsize⟩ := hc.exists_quoteMarks
  have hstands := hc.stands
  have hink := hc.inkStopsBy
  rw [htext] at hstands hink
  rw [← hsize]
  exact (laid_linkBlocks hstands.right hink.right).weaken
    (hc.line_start_le.trans (Nat.le_add_right _ _)) (Nat.le_refl _)

/-- An alert takes the quoted lines after it. -/
theorem takesRun_noteBlock {lo : Nat} {l : LineFacts} {lines : List LineFacts} (name : List Char)
    (h : InOrder source lo (l :: lines)) :
    TakesRun source l (noteBlock source l name lines) (noteRun lines) := by
  have hsplit : lines = noteRun lines ++ (noteBlock source l name lines).rest :=
    List.takeWhile_append_dropWhile.symm
  have hrun : InOrder source lo (l :: noteRun lines) := by
    rw [hsplit] at h
    exact h.left_cons
  have hstart := hrun.start_le_lastLine
  have hline := h.2.1.stop_le_line_stop
  have hle := l.start_le_stop
  have hlast := hrun.sound_lastLine.boundary_stop
  have hin : ∀ c ∈ noteRun lines, c.stop ≤ (lastLine l (noteRun lines)).stop :=
    fun c hc => hrun.stop_le_lastLine (List.mem_cons_of_mem l hc)
  obtain ⟨content, hblock, hcontent⟩ := exists_noteBlock_eq source l name lines
  rw [Nat.max_eq_left hstart] at hblock hcontent
  refine ⟨hsplit, by rw [hblock]; rfl, ?_⟩
  rw [hblock]
  refine laid_run hrun rfl rfl ?_ ?_ rfl
  · exact (laid_noteChildren hrun.2.2 hin).weaken (by omega) (Nat.le_refl _)
  · cases content with
    | none => exact Block.innerFits_of_none rfl rfl
    | some s =>
      obtain ⟨first, hfirst, rfl⟩ := hcontent s rfl
      have hfirstStop : first.start ≤ (lastLine l (noteRun lines)).stop :=
        first.start_le_stop.trans (hin first hfirst)
      have hbodyStart := (hrun.2.2.sound_of_mem hfirst).boundary_start.max h.2.1.boundary_start
      exact Block.innerFits_of_boundaries (Block.not_overhangs nofun nofun) rfl rfl hbodyStart
        (hlast.max hbodyStart) (Nat.le_max_right _ _) (Nat.le_max_right _ _)
        (Nat.max_le.mpr ⟨Nat.le_refl _, Nat.max_le.mpr ⟨hfirstStop, hstart⟩⟩)

/-! ## Tables -/

/-- A table takes the rows after its first one. -/
theorem takesRun_tableBlock {lo : Nat} {l : LineFacts} {lines : List LineFacts}
    (h : InOrder source lo (l :: lines)) :
    TakesRun source l (tableBlock source l lines) (lines.takeWhile LineFacts.isRow) := by
  have hsplit : lines = lines.takeWhile LineFacts.isRow ++ (tableBlock source l lines).rest :=
    List.takeWhile_append_dropWhile.symm
  have hrun : InOrder source lo (l :: lines.takeWhile LineFacts.isRow) := by
    rw [hsplit] at h
    exact h.left_cons
  have hstart := hrun.start_le_lastLine
  have hline := h.2.1.stop_le_line_stop
  have hle := l.start_le_stop
  have hspan : (tableBlock source l lines).block.span =
      ⟨l.start, (lastLine l (lines.takeWhile LineFacts.isRow)).stop⟩ := by
    show (⟨l.start, max _ l.start⟩ : Span) = _
    rw [Nat.max_eq_left hstart]
  have hrows : Block.Laid source l.line.stop (lastLine l (lines.takeWhile LineFacts.isRow)).stop
      ((lines.takeWhile LineFacts.isRow).filterMap (rowBlock? source)) := by
    rw [List.filterMap_eq_flatMap_toList]
    refine hrun.2.2.laid_flatMap ?_ fun c hc => hrun.stop_le_lastLine (List.mem_cons_of_mem l hc)
    intro c _ hc
    have hlow := hc.line_start_le.trans c.content_start_le_start
    unfold rowBlock?
    split
    · exact .nil source _ _
    · have hcells := laid_cellBlocks hc .tableRowValue nofun nofun
      have hrow : Block.Laid source c.start c.stop
          [(Block.ofSource source .tableRow c.start c.stop).withChildren
            (cellBlocks source .tableRowValue c)] :=
        .singleton rfl rfl hc.boundary_start hc.boundary_stop c.start_le_stop hcells
          (Block.innerFits_of_none rfl rfl) rfl
      exact hrow.weaken hlow (Nat.le_refl _)
  refine ⟨hsplit, hspan, laid_run hrun hspan ?_ ?_ (Block.innerFits_of_none rfl rfl) rfl⟩
  · show String.ofList (slice source ⟨l.start, max _ l.start⟩) = _
    rw [Nat.max_eq_left hstart]
  · exact (laid_cellBlocks h.2.1 .tableColumn nofun nofun).append
      (hrows.weaken hline (Nat.le_refl _)) hle (hrun.stop_le_lastLine List.mem_cons_self)

end ArticleAudit.Markdown
