import ArticleAudit.Markdown.Leaf
import ArticleAudit.Proofs.Markdown.Lines
import ArticleAudit.Proofs.Markdown.Links

/-!
# Where table cells stand

The parts of a row, joined by pipes, are the row (`intercalate_splitAtPipes`), so each cell is cut
out of its part and the cells follow one another (`cutsInOrder_cellsOf`). The blocks of the cells
are laid out between the `start` and the `stop` of their line (`laid_cellBlocks`).
-/

set_option autoImplicit false

namespace ArticleAudit.Markdown

open ArticleAudit.Text

variable {source : List Char}

/-! ## Parts of a row -/

theorem splitAtPipes_ne_nil (row : List Char) : splitAtPipes row ≠ [] := by
  fun_cases splitAtPipes row with
  | case1 => simp
  | case2 => simp
  | case3 c rest => cases splitAtPipes rest <;> simp [splitAtPipes.addFront]
  | case4 c rest => cases splitAtPipes rest <;> simp [splitAtPipes.addFront]

theorem intercalate_addFront (cs : List Char) {parts : List (List Char)} (h : parts ≠ []) :
    List.intercalate ['|'] (splitAtPipes.addFront cs parts) =
      cs ++ List.intercalate ['|'] parts := by
  obtain ⟨part, rest, rfl⟩ := List.exists_cons_of_ne_nil h
  cases rest with
  | nil => simp [splitAtPipes.addFront]
  | cons next rest => simp [splitAtPipes.addFront]

/-- The parts joined by pipes are the row. -/
theorem intercalate_splitAtPipes (row : List Char) :
    List.intercalate ['|'] (splitAtPipes row) = row := by
  fun_induction splitAtPipes row with
  | case1 => rfl
  | case2 rest ih =>
    rw [List.intercalate_cons_of_ne_nil (splitAtPipes_ne_nil rest), ih]
    rfl
  | case3 c rest ih => rw [intercalate_addFront _ (splitAtPipes_ne_nil rest), ih]; rfl
  | case4 c rest _ _ ih => rw [intercalate_addFront _ (splitAtPipes_ne_nil rest), ih]; rfl

/-! ## Spans of cells -/

/-- Spans that are cut out of the source, from `lo` to `hi`, each after the one before. -/
def CutsInOrder (source : List Char) (hi : Nat) : Nat → List Span → Prop
  | _, [] => True
  | lo, s :: rest =>
    lo ≤ s.start ∧ s.stop ≤ hi ∧ (∃ cs, slice? source s = some cs) ∧
      CutsInOrder source hi s.stop rest

theorem CutsInOrder.weaken {lo lo' hi : Nat} {spans : List Span}
    (h : CutsInOrder source hi lo spans) (hle : lo' ≤ lo) : CutsInOrder source hi lo' spans := by
  cases spans with
  | nil => trivial
  | cons s rest => exact ⟨hle.trans h.1, h.2⟩

/-- A cell is cut out of its part. -/
theorem cellSpan_cut {start : Nat} {part : List Char} (h : Stands source start part) :
    start ≤ (cellSpan start part).start ∧ (cellSpan start part).stop ≤ start + byteSize part ∧
      ∃ cs, slice? source (cellSpan start part) = some cs := by
  unfold cellSpan
  split
  · exact ⟨Nat.le_refl start, Nat.le_add_right _ _, [], h.boundary.slice?⟩
  · obtain ⟨tail, hpart, -⟩ := exists_trim_append part
    have hsize := congrArg byteSize hpart
    simp only [byteSize_append] at hsize
    have htrim : Stands source (start + byteSize (part.takeWhile isBlank)) (trim part) := by
      conv at h => rw [hpart]
      exact h.middle
    refine ⟨Nat.le_add_right _ _, ?_, _, htrim.slice?⟩
    show start + byteSize (part.takeWhile isBlank) + byteSize (trim part) ≤ start + byteSize part
    omega

/-- The cells after the first pipe follow one another within the rest of the row. -/
theorem cutsInOrder_laterCells {start hi : Nat} {parts : List (List Char)}
    (h : Stands source start (List.intercalate ['|'] parts))
    (hhi : start + byteSize (List.intercalate ['|'] parts) ≤ hi) :
    CutsInOrder source hi start (laterCells start parts) := by
  induction parts generalizing start with
  | nil => trivial
  | cons part rest ih =>
    cases rest with
    | nil =>
      rw [List.intercalate_singleton] at h hhi
      obtain ⟨hlo, hstop, hcut⟩ := cellSpan_cut h
      simp only [laterCells]
      split
      · trivial
      · exact ⟨hlo, hstop.trans hhi, hcut, trivial⟩
    | cons next rest =>
      have hpipe : byteSize ['|'] = 1 := rfl
      rw [List.intercalate_cons_cons] at h hhi
      simp only [byteSize_append, hpipe] at hhi
      obtain ⟨hlo, hstop, hcut⟩ := cellSpan_cut h.left.left
      have hrest := h.right
      rw [byteSize_append, hpipe, ← Nat.add_assoc] at hrest
      have hmore := ih hrest (by omega)
      exact ⟨hlo, by omega, hcut, hmore.weaken (by omega)⟩

/-- A first cell starts with the first character of its line that is not blank. -/
theorem start_le_cellSpan {l : LineFacts} {part after : List Char} (h : l.Sound source)
    (htext : l.text = part ++ after) (hpart : ¬ part.all isBlank = true) :
    l.start ≤ (cellSpan l.content.start part).start := by
  have hne : trimStart part ≠ [] := by
    intro hnil
    exact hpart (by simpa [trimStart] using hnil)
  obtain ⟨c, cs, hcs⟩ := List.exists_cons_of_ne_nil hne
  have hc : isBlank c = false := by
    have := List.head?_dropWhile_not isBlank part
    rw [show part.dropWhile isBlank = c :: cs from hcs] at this
    simpa using this
  have hsplit : l.text = part.takeWhile isBlank ++ c :: (cs ++ after) := by
    rw [htext]
    conv_lhs => rw [← trimStart_append_takeWhile part, hcs]
    simp
  have hle := (h.contains_of_not_blank hsplit hc).2.1
  unfold cellSpan
  rw [if_neg hpart]
  exact hle

/-- The cells of a line follow one another between its `start` and its `stop`. -/
theorem cutsInOrder_cellsOf {l : LineFacts} (h : l.Sound source) :
    CutsInOrder source l.stop l.start (cellsOf l.text l.content.start) := by
  obtain ⟨tail, htail, -⟩ := exists_trimEnd_append l.text
  have hjoin := intercalate_splitAtPipes (trimEnd l.text)
  have hrow : Stands source l.content.start (trimEnd l.text) :=
    h.stands.of_prefix (trimEnd_isPrefix _)
  have hstop : l.stop = l.content.start + byteSize (trimEnd l.text) := rfl
  unfold cellsOf
  generalize splitAtPipes (trimEnd l.text) = parts at *
  cases parts with
  | nil => trivial
  | cons part rest =>
    rw [← hjoin] at hrow
    have hinit : ∃ after, trimEnd l.text = part ++ after := by
      rw [← hjoin]
      cases rest with
      | nil => exact ⟨[], by simp⟩
      | cons next rest => exact ⟨_, by rw [List.intercalate_cons_cons, List.append_assoc]⟩
    obtain ⟨after, hafter⟩ := hinit
    have hsize := congrArg byteSize hafter
    rw [byteSize_append] at hsize
    have hpart : Stands source l.content.start part := by
      rw [hjoin, hafter] at hrow
      exact hrow.left
    have hlater : CutsInOrder source l.stop (l.content.start + byteSize part)
        (laterCells (l.content.start + byteSize part + 1) rest) ∧
          (rest = [] ∨ l.start ≤ l.content.start + byteSize part) := by
      cases rest with
      | nil => exact ⟨trivial, Or.inl rfl⟩
      | cons next rest =>
        have hpipe : byteSize ['|'] = 1 := rfl
        rw [List.intercalate_cons_cons] at hjoin hrow
        have hrest := hrow.right
        rw [byteSize_append, hpipe, ← Nat.add_assoc] at hrest
        have hsize' := congrArg byteSize hjoin
        simp only [byteSize_append, hpipe] at hsize'
        have htext : l.text = part ++ '|' :: (List.intercalate ['|'] (next :: rest) ++ tail) := by
          rw [htail, ← hjoin]
          simp
        exact ⟨(cutsInOrder_laterCells hrest (by omega)).weaken (Nat.le_succ _),
          Or.inr (h.contains_of_not_blank htext rfl).2.1⟩
    show CutsInOrder source l.stop l.start
      ((if part.all isBlank then [] else [cellSpan l.content.start part]) ++
        laterCells (l.content.start + byteSize part + 1) rest)
    split
    · next hblank =>
      rcases hlater.2 with rfl | hstart
      · trivial
      · exact hlater.1.weaken hstart
    · next hblank =>
      obtain ⟨-, hcell, hcut⟩ := cellSpan_cut hpart
      have htext : l.text = part ++ (after ++ tail) := by
        rw [htail, hafter, List.append_assoc]
      exact ⟨start_le_cellSpan h htext hblank, by omega, hcut, hlater.1.weaken hcell⟩

/-! ## Blocks of cells -/

/-- Blocks that stand where spans are cut out are laid out as the spans are. -/
theorem CutsInOrder.laid_map {lo hi : Nat} {spans : List Span} {f : Span → Block}
    (h : CutsInOrder source hi lo spans) (hle : lo ≤ hi)
    (hf : ∀ s cs, slice? source s = some cs → Block.Laid source s.start s.stop [f s]) :
    Block.Laid source lo hi (spans.map f) := by
  induction spans generalizing lo with
  | nil => exact .nil source lo hi
  | cons s rest ih =>
    obtain ⟨hlo, hstop, ⟨cs, hcs⟩, hrest⟩ := h
    have hs := (slice?_eq_some_iff.mp hcs).2
    exact ((hf s cs hcs).weaken hlo (Nat.le_refl _)).append (ih hrest hstop) (by omega) hstop

theorem laid_cellBlocks {l : LineFacts} (h : l.Sound source) (kind : BlockKind)
    (h1 : kind ≠ .header) (h2 : kind ≠ .metadataField) :
    Block.Laid source l.start l.stop (cellBlocks source kind l) := by
  refine (cutsInOrder_cellsOf h).laid_map l.start_le_stop ?_
  intro s cs hcs
  obtain ⟨hstands, hstop⟩ := slice?_eq_some_iff.mp hcs
  have hboundary : Boundary source s.stop := by
    rw [hstop]
    exact hstands.boundary_stop
  have hlinks := laid_linkBlocks_slice hstands.boundary hboundary (by omega)
  refine .singleton rfl rfl hstands.boundary hboundary (by omega) hlinks ?_ rfl
  refine Block.innerFits_of_within (Block.not_overhangs h1 h2) ?_ nofun
  rintro t ht
  obtain rfl := Option.some.inj ht
  exact ⟨⟨cs, hcs⟩, Nat.le_refl _, Nat.le_refl _⟩

end ArticleAudit.Markdown
