import ArticleAudit.Markdown.ListBlock
import ArticleAudit.Proofs.Markdown.Runs

/-!
# Where list items stand

A marker is one-byte characters after the indentation, so the text of an item starts on a character
boundary of its line. An item reaches to the end of the last block of its deeper lines, a list to
the end of its last item: siblings in order all stop by the end of the last one (`laid_lastStop`).
Main statements: `laid_itemBlock`, `laid_listBlock`, `laid_listRow`.
-/

set_option autoImplicit false

namespace ArticleAudit.Markdown

open ArticleAudit.Text

variable {source : List Char}

/-! ## Markers -/

theorem utf8Size_of_isBullet {c : Char} (h : isBullet c = true) : c.utf8Size = 1 := by
  rcases (by simpa [isBullet, or_assoc] using h : c = '-' ∨ c = '*' ∨ c = '+') with
    rfl | rfl | rfl <;> rfl

theorem utf8Size_of_endsNumber {c : Char} (h : endsNumber c = true) : c.utf8Size = 1 := by
  rcases (by simpa [endsNumber] using h : c = '.' ∨ c = ')') with rfl | rfl <;> rfl

/-- The text starts with as many one-byte characters as its marker is long. -/
theorem exists_of_markerLength? {text : List Char} {ordered : Bool} {length : Nat}
    (h : markerLength? text = some (ordered, length)) :
    ∃ mark rest, text = mark ++ rest ∧ mark.length = length ∧ byteSize mark = length := by
  unfold markerLength? at h
  split at h
  · simp at h
  · next c rest =>
    split at h
    · next hbullet =>
      simp only [Option.some.injEq, Prod.mk.injEq] at h
      obtain ⟨-, rfl⟩ := h
      refine ⟨[c], rest, rfl, rfl, ?_⟩
      simp [utf8Size_of_isBullet hbullet]
    · simp only at h
      split at h
      · simp at h
      · have hsplit := List.takeWhile_append_dropWhile (p := Char.isDigit) (l := c :: rest)
        split at h
        · next d after hafter =>
          split at h
          · next hends =>
            simp only [Option.some.injEq, Prod.mk.injEq] at h
            obtain ⟨-, rfl⟩ := h
            refine ⟨(c :: rest).takeWhile Char.isDigit ++ [d], after, ?_, by simp, ?_⟩
            · conv_lhs => rw [← hsplit, hafter]
              simp
            · rw [byteSize_append, byteSize_eq_length]
              · simp [utf8Size_of_endsNumber hends]
              · intro x hx
                apply utf8Size_of_isAlphanum
                simp [Char.isAlphanum, List.mem_takeWhile_imp hx]
          · simp at h
        · simp at h

/-- What stands before the text of an item starts with the indentation. -/
theorem exists_of_marker {line : List Char} {marker : ListMarker}
    (h : ListMarker.ofLine? line = some marker) :
    ∃ mark rest, line = leadingIndent line ++ mark ++ rest ∧
      byteSize (leadingIndent line ++ mark) = marker.contentOffset := by
  unfold ListMarker.ofLine? at h
  simp only at h
  split at h
  · simp at h
  · next ordered length hlength =>
    obtain ⟨mark, rest, htext, hlen, hsize⟩ := exists_of_markerLength? hlength
    rw [htext, ← hlen, List.drop_left] at h
    split at h
    · obtain rfl := Option.some.inj h
      refine ⟨mark ++ rest.takeWhile isIndent, rest.dropWhile isIndent, ?_, ?_⟩
      · conv_lhs => rw [← List.takeWhile_append_dropWhile (p := isIndent) (l := line), htext]
        simp [leadingIndent]
      · have hspaces : byteSize (rest.takeWhile isIndent) = (rest.takeWhile isIndent).length :=
          byteSize_of_all_isIndent fun _ hc => isIndent_of_mem_takeWhile hc
        simp only [byteSize_append, LineFacts.Sound.byteSize_leadingIndent, hspaces, hsize, hlen]
        omega
    · simp at h

/-- The text of an item starts on a character boundary within its line. -/
theorem boundary_of_marker {l : LineFacts} {marker : ListMarker} (hl : l.Sound source)
    (hmarker : l.marker = some marker) :
    Boundary source (min (l.content.start + marker.contentOffset) l.stop) ∧
      l.start ≤ min (l.content.start + marker.contentOffset) l.stop := by
  obtain ⟨mark, rest, htext, hsize⟩ := exists_of_marker (hl.marker_eq hmarker)
  have hstands := hl.stands
  rw [htext] at hstands
  rw [← hsize]
  refine ⟨hstands.right.boundary.min hl.boundary_stop, Nat.le_min.mpr ⟨?_, l.start_le_stop⟩⟩
  have hindent := hl.indentBytes_eq
  rw [← LineFacts.Sound.byteSize_leadingIndent] at hindent
  simp only [LineFacts.start, byteSize_append, hindent]
  omega

/-! ## The end of the last block -/

/-- Blocks that are laid out stop by the end of the last one. -/
theorem laid_lastStop {lo hi : Nat} {blocks : List Block} (start : Nat)
    (h : Block.Laid source lo hi blocks) :
    Block.Laid source lo (lastStop start blocks) blocks := by
  refine ⟨h.sound, h.inOrder, ?_⟩
  rcases List.eq_nil_or_concat blocks with rfl | ⟨init, last, rfl⟩
  · exact Block.within_nil _ _
  · rw [List.concat_eq_append] at h ⊢
    have hstop : lastStop start (init ++ [last]) = last.span.stop := by simp [lastStop]
    have hlast : last ∈ init ++ [last] := by simp
    have hle := (h.sound_of_mem hlast).start_le_stop
    intro b hb
    refine ⟨(h.within b hb).1, ?_⟩
    rw [hstop]
    exact h.inOrder.stop_le_last hle hb

/-- The end of the last block is a boundary from `start` on, and within the bounds of the blocks. -/
theorem lastStop_spec {lo hi start : Nat} {blocks : List Block}
    (h : Block.Laid source lo hi blocks) (hboundary : Boundary source start) (hlo : start ≤ lo)
    (hhi : start ≤ hi) :
    Boundary source (lastStop start blocks) ∧ start ≤ lastStop start blocks ∧
      lastStop start blocks ≤ hi := by
  unfold lastStop
  cases hlast : blocks.getLast? with
  | none => exact ⟨hboundary, Nat.le_refl _, hhi⟩
  | some last =>
    have hmem := List.mem_of_getLast? hlast
    have hsound := h.sound_of_mem hmem
    obtain ⟨h1, h2⟩ := h.within last hmem
    have h3 := hsound.start_le_stop
    exact ⟨hsound.boundary_stop, hlo.trans (h1.trans h3), h2⟩

/-! ## Blocks -/

/-- A further line of an item. -/
theorem laid_listRow {l : LineFacts} (hl : l.Sound source) :
    Block.Laid source l.start l.stop [listRow source l] := by
  have hlinks := laid_linkBlocks_slice hl.boundary_start hl.boundary_stop l.start_le_stop
  exact .singleton rfl rfl hl.boundary_start hl.boundary_stop l.start_le_stop hlinks
    (Block.innerFits_of_none rfl rfl) rfl

/-- An item around the blocks of its deeper lines. -/
theorem laid_itemBlock {hi : Nat} {l : LineFacts} {marker : ListMarker} {inner : List Block}
    (depth : Nat) (hl : l.Sound source) (hmarker : l.marker = some marker)
    (hinner : Block.Laid source l.line.stop hi inner) (hhi : l.stop ≤ hi) :
    Block.Laid source l.start hi [itemBlock source depth marker l inner] := by
  obtain ⟨htext, hstart⟩ := boundary_of_marker hl hmarker
  have hline := hl.stop_le_line_stop
  have hle := l.start_le_stop
  obtain ⟨hboundary, hstop, hbound⟩ := lastStop_spec hinner hl.boundary_stop hline hhi
  have hlinks : Block.Laid source l.start l.stop (linkBlocks
      (min (l.content.start + marker.contentOffset) l.stop)
      (slice source ⟨min (l.content.start + marker.contentOffset) l.stop, l.stop⟩)) :=
    (laid_linkBlocks_slice htext hl.boundary_stop (Nat.min_le_right _ _)).weaken hstart
      (Nat.le_refl _)
  have hitem : Block.Laid source l.start (lastStop l.stop inner)
      [itemBlock source depth marker l inner] := by
    refine .singleton rfl rfl hl.boundary_start hboundary (hle.trans hstop) ?_ ?_ rfl
    · exact hlinks.append ((laid_lastStop l.stop hinner).weaken hline (Nat.le_refl _)) hle hstop
    · exact Block.innerFits_of_boundaries (Block.not_overhangs nofun nofun) rfl rfl htext
        hl.boundary_stop hstart (Nat.min_le_right _ _) hstop
  exact hitem.weaken (Nat.le_refl _) hbound

/-- A list around its items. -/
theorem laid_listBlock {lo hi : Nat} {item : Block} {items : List Block} (depth : Nat)
    (marker : ListMarker) (start : Nat) (h : Block.Laid source lo hi (item :: items)) :
    Block.Laid source lo hi [listBlock source depth marker start (item :: items)] := by
  have hitem := h.sound_of_mem List.mem_cons_self
  obtain ⟨hlo, hstop⟩ := h.within item List.mem_cons_self
  have hle := hitem.start_le_stop
  have hfrom : Block.Laid source item.span.start hi (item :: items) := by
    refine ⟨h.sound, h.inOrder, ?_⟩
    intro b hb
    refine ⟨?_, (h.within b hb).2⟩
    rcases List.mem_cons.mp hb with rfl | hb
    · exact Nat.le_refl _
    · exact hle.trans ((List.pairwise_cons.mp h.inOrder).1 b hb)
  obtain ⟨hboundary, hbelow, hbound⟩ :=
    lastStop_spec hfrom hitem.boundary_start (Nat.le_refl _) (hle.trans hstop)
  have hlist : Block.Laid source item.span.start (lastStop item.span.start (item :: items))
      [listBlock source depth marker start (item :: items)] :=
    .singleton rfl rfl hitem.boundary_start hboundary hbelow (laid_lastStop _ hfrom)
      (Block.innerFits_of_none rfl rfl) rfl
  exact hlist.weaken hlo hbound

end ArticleAudit.Markdown
