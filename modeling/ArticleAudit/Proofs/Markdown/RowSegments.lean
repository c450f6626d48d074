import ArticleAudit.Proofs.Markdown.Cells
import ArticleAudit.Proofs.Text.Bytes

/-!
# The cells of a row and its pipes

A row is cut at the pipes that a scan over its bytes reaches, where a backslash takes the next byte
along (`pipePositions`). The byte that it takes may be the first one of several, but none of the
others is a pipe or a backslash, so the scan finds the pipes between the parts of the row
(`segmentsAt_pipePositions`). What stands in a segment gives a cell as `CellOf` says, and from this
alone the cells follow one another and keep clear of the pipes. Main statement: `cellsOf_segments`.
-/

set_option autoImplicit false

namespace ArticleAudit.Markdown

open ArticleAudit.Text

variable {row source : List Char} {start stop : Nat}

/-! ## Pipes and segments -/

/-- The positions of the pipes that a scan over bytes reaches, the first byte standing at `i`. A
backslash takes the next byte along, so that byte is `taken`. -/
def pipePositions (taken : Bool) (i : Nat) : List UInt8 → List Nat
  | [] => []
  | b :: rest =>
    if taken then pipePositions false (i + 1) rest
    else if b = '\\'.toUInt8 then pipePositions true (i + 1) rest
    else if b = '|'.toUInt8 then i :: pipePositions false (i + 1) rest
    else pipePositions false (i + 1) rest

/-- The segments between positions: each one ends at a position, and the next one starts behind
it. -/
def segmentsAt (start stop : Nat) : List Nat → List Span
  | [] => [⟨start, stop⟩]
  | p :: rest => ⟨start, p⟩ :: segmentsAt (p + 1) stop rest

/-- The pipes between the cells of a row. -/
def pipesOf (row : List Char) : List Nat :=
  pipePositions false 0 (bytesOf row)

/-- The segments of a row between its pipes. -/
def segmentsOf (row : List Char) : List Span :=
  segmentsAt 0 (byteSize (trimEnd row)) (pipesOf row)

/-- The cell of a segment: none for an outer one that is blank, an empty one right behind its pipe
for another one that is blank, and else the segment without the blanks on both sides. -/
inductive CellOf (row : List Char) (outer : Prop) (s : Span) : Option Span → Prop
  | none {cs : List Char} : outer → slice? row s = some cs → (∀ c ∈ cs, isBlank c = true) →
    CellOf row outer s none
  | empty {cs : List Char} : ¬ outer → slice? row s = some cs → (∀ c ∈ cs, isBlank c = true) →
    CellOf row outer s (some (.point s.start))
  | ink {lead body tail : List Char} : slice? row s = some (lead ++ body ++ tail) →
    (∀ c ∈ lead, isBlank c = true) → (∀ c ∈ tail, isBlank c = true) → body ≠ [] →
    trim body = body →
    CellOf row outer s
      (some ⟨s.start + byteSize lead, s.start + byteSize lead + byteSize body⟩)

/-- Each segment gives its cell, where `outer` tells by their number which segments are outer
ones. -/
structure GiveCells (row : List Char) (outer : Nat → Prop) (segments : List Span)
    (cells : List (Option Span)) : Prop where
  length_eq : cells.length = segments.length
  cell : ∀ k s t, segments[k]? = some s → cells[k]? = some t → CellOf row (outer k) s t

/-! ## The scan -/

/-- Bytes that are no ASCII bytes are passed. -/
theorem pipePositions_append_of_high {bs : List UInt8} (h : ∀ b ∈ bs, 128 ≤ b.toNat) (i : Nat)
    (rest : List UInt8) :
    pipePositions false i (bs ++ rest) = pipePositions false (i + bs.length) rest := by
  induction bs generalizing i with
  | nil => rfl
  | cons b bs ih =>
    obtain ⟨hb, hbs⟩ := List.forall_mem_cons.mp h
    have hslash : b ≠ '\\'.toUInt8 := by
      rintro rfl
      revert hb
      decide
    have hpipe : b ≠ '|'.toUInt8 := by
      rintro rfl
      revert hb
      decide
    rw [List.cons_append, pipePositions, if_neg Bool.false_ne_true, if_neg hslash, if_neg hpipe,
      ih hbs, List.length_cons, Nat.add_assoc, Nat.add_comm 1]

theorem pipePositions_pipe (i : Nat) (rest : List Char) :
    pipePositions false i (bytesOf ('|' :: rest)) =
      i :: pipePositions false (i + 1) (bytesOf rest) := by
  have hbytes : bytesOf ('|' :: rest) = '|'.toUInt8 :: bytesOf rest := rfl
  rw [hbytes, pipePositions, if_neg Bool.false_ne_true, if_neg (by decide), if_pos rfl]

/-- A character that is neither a pipe nor a backslash is passed, and so is one that is taken: of
its bytes at most the first one could be a pipe or a backslash. -/
theorem pipePositions_passed {c : Char} {taken : Bool}
    (h : taken = true ∨ c ≠ '\\' ∧ c ≠ '|') (i : Nat) (rest : List Char) :
    pipePositions taken i (bytesOf (c :: rest)) =
      pipePositions false (i + c.utf8Size) (bytesOf rest) := by
  obtain ⟨first, more, hbytes, hmore, hfirst⟩ := exists_utf8EncodeChar c
  have hsize : c.utf8Size = more.length + 1 := by
    rw [← String.length_utf8EncodeChar, hbytes, List.length_cons]
  have hstep : pipePositions taken i (first :: (more ++ bytesOf rest)) =
      pipePositions false (i + 1) (more ++ bytesOf rest) := by
    rw [pipePositions]
    rcases h with htaken | ⟨hslash, hpipe⟩
    · rw [if_pos htaken]
    · have hslash' : first ≠ '\\'.toUInt8 := fun h => hslash ((hfirst '\\' (by decide)).mp h)
      have hpipe' : first ≠ '|'.toUInt8 := fun h => hpipe ((hfirst '|' (by decide)).mp h)
      rw [if_neg hslash', if_neg hpipe', ite_self]
  rw [bytesOf_cons, hbytes, List.cons_append, hstep, pipePositions_append_of_high hmore, hsize,
    Nat.add_assoc, Nat.add_comm 1]

/-- A backslash takes the whole next character along. -/
theorem pipePositions_escape (c : Char) (i : Nat) (rest : List Char) :
    pipePositions false i (bytesOf ('\\' :: c :: rest)) =
      pipePositions false (i + byteSize ['\\', c]) (bytesOf rest) := by
  have hslash : bytesOf ('\\' :: c :: rest) = '\\'.toUInt8 :: bytesOf (c :: rest) := rfl
  have hsize : byteSize ['\\', c] = 1 + c.utf8Size := rfl
  rw [hslash, pipePositions, if_neg Bool.false_ne_true, if_pos rfl, pipePositions_passed (.inl rfl),
    hsize, Nat.add_assoc]

/-- Bytes without pipes at the end add no positions, whatever is taken of them. -/
theorem pipePositions_append_of_not_mem {bs : List UInt8} (h : '|'.toUInt8 ∉ bs) (taken : Bool)
    (i : Nat) (as : List UInt8) : pipePositions taken i (as ++ bs) = pipePositions taken i as := by
  have hnone : ∀ taken i, pipePositions taken i bs = [] := by
    induction bs with
    | nil => exact fun _ _ => rfl
    | cons b bs ih =>
      intro taken i
      rw [List.mem_cons, not_or] at h
      simp only [pipePositions, ih h.2, if_neg (Ne.symm h.1), ite_self]
  induction as generalizing taken i with
  | nil => exact hnone taken i
  | cons b as ih => simp only [List.cons_append, pipePositions, ih]

/-! ## Parts and segments -/

/-- The spans of parts with a pipe between each and the next. -/
def placeParts (start : Nat) : List (List Char) → List Span
  | [] => []
  | part :: rest => ⟨start, start + byteSize part⟩ :: placeParts (start + byteSize part + 1) rest

theorem length_placeParts (start : Nat) (parts : List (List Char)) :
    (placeParts start parts).length = parts.length := by
  induction parts generalizing start with
  | nil => rfl
  | cons part rest ih => rw [placeParts, List.length_cons, ih, List.length_cons]

theorem length_segmentsAt (start stop : Nat) (positions : List Nat) :
    (segmentsAt start stop positions).length = positions.length + 1 := by
  induction positions generalizing start with
  | nil => rfl
  | cons p rest ih => rw [segmentsAt, List.length_cons, ih, List.length_cons]

/-- The positions are where the segments stop, all but the last one. -/
theorem mem_positions {p : Nat} {positions : List Nat} (h : p ∈ positions) (start stop : Nat) :
    ∃ s ∈ segmentsAt start stop positions, s.stop = p := by
  induction positions generalizing start with
  | nil => exact absurd h List.not_mem_nil
  | cons q rest ih =>
    rw [segmentsAt]
    rcases List.mem_cons.mp h with rfl | h
    · exact ⟨_, List.mem_cons_self, rfl⟩
    · obtain ⟨s, hs, hstop⟩ := ih h (q + 1)
      exact ⟨s, List.mem_cons_of_mem _ hs, hstop⟩

theorem addFront_addFront (a b : List Char) (parts : List (List Char)) :
    splitAtPipes.addFront a (splitAtPipes.addFront b parts) =
      splitAtPipes.addFront (a ++ b) parts := by
  cases parts with
  | nil => rfl
  | cons part rest => simp [splitAtPipes.addFront]

theorem addFront_nil {parts : List (List Char)} (h : parts ≠ []) :
    splitAtPipes.addFront [] parts = parts := by
  cases parts with
  | nil => exact absurd rfl h
  | cons part rest => rfl

/-- A character that starts no other part is passed by the scan. -/
theorem pipePositions_inPart {c : Char} {rest : List Char} (hpipe : c ≠ '|')
    (hslash : c = '\\' → rest = []) (i : Nat) :
    pipePositions false i (bytesOf (c :: rest)) =
      pipePositions false (i + byteSize [c]) (bytesOf rest) := by
  by_cases hc : c = '\\'
  · -- A backslash at the end has nothing to take along.
    rw [hslash hc, hc]
    rfl
  · exact pipePositions_passed (.inr ⟨hc, hpipe⟩) i rest

/-- The pipes that the scan reaches cut a text into its parts. The induction is on the text behind
`front`, which the scan has passed since the last pipe. -/
theorem segmentsAt_addFront (start : Nat) (front cs : List Char) :
    segmentsAt start (start + byteSize (front ++ cs))
        (pipePositions false (start + byteSize front) (bytesOf cs)) =
      placeParts start (splitAtPipes.addFront front (splitAtPipes cs)) := by
  fun_induction splitAtPipes cs generalizing start front with
  | case1 => simp [pipePositions, segmentsAt, splitAtPipes.addFront, placeParts]
  | case2 rest ih =>
    have hrest := ih (start + byteSize front + 1) []
    rw [addFront_nil (splitAtPipes_ne_nil rest)] at hrest
    have hstop : start + byteSize (front ++ '|' :: rest) =
        start + byteSize front + 1 + byteSize ([] ++ rest) := by
      have hpipe : Char.utf8Size '|' = 1 := rfl
      simp only [byteSize_append, byteSize_cons, hpipe, List.nil_append]
      omega
    rw [pipePositions_pipe, segmentsAt, hstop]
    simp only [splitAtPipes.addFront, List.append_nil, placeParts]
    exact congrArg _ hrest
  | case3 c rest ih =>
    rw [addFront_addFront, ← ih start (front ++ ['\\', c]), List.append_assoc,
      byteSize_append front ['\\', c], ← Nat.add_assoc, ← pipePositions_escape]
    rfl
  | case4 c rest hpipe hslash ih =>
    have hlast : c = '\\' → rest = [] := by
      intro hc
      cases rest with
      | nil => rfl
      | cons d rest => exact (hslash d rest hc rfl).elim
    have hpassed := pipePositions_inPart hpipe hlast (start + byteSize front)
    rw [addFront_addFront, ← ih start (front ++ [c]), List.append_assoc,
      byteSize_append front [c], ← Nat.add_assoc, ← hpassed]
    rfl

/-- The white space that is trimmed off a row has no pipe. -/
theorem pipePositions_trimEnd (row : List Char) :
    pipePositions false 0 (bytesOf row) = pipePositions false 0 (bytesOf (trimEnd row)) := by
  obtain ⟨tail, hrow, htail⟩ := exists_trimEnd_append row
  have hnone : '|'.toUInt8 ∉ bytesOf tail := by
    intro hmem
    obtain ⟨c, hc, hbyte⟩ := List.mem_flatMap.mp hmem
    obtain rfl := (toUInt8_mem_utf8EncodeChar_iff (by decide)).mp hbyte
    exact absurd (htail _ hc) (by decide)
  conv_lhs => rw [hrow, bytesOf_append]
  exact pipePositions_append_of_not_mem hnone false 0 _

/-- The segments of a row are where its parts stand. -/
theorem segmentsOf_eq (row : List Char) :
    segmentsOf row = placeParts 0 (splitAtPipes (trimEnd row)) := by
  have h := segmentsAt_addFront 0 [] (trimEnd row)
  rw [addFront_nil (splitAtPipes_ne_nil _), List.nil_append, Nat.zero_add] at h
  rw [segmentsOf, pipesOf, pipePositions_trimEnd]
  exact h

/-! ## Cells of parts -/

/-- A part that stands in the row and the cell that it gives. -/
theorem cellOf_part {outer : Prop} {part : List Char} (h : Stands row start part)
    (hblank : part.all isBlank = true → ¬ outer) :
    CellOf row outer ⟨start, start + byteSize part⟩ (some (cellSpan start part)) := by
  unfold cellSpan
  split
  · next hall => exact .empty (hblank hall) h.slice? (List.all_eq_true.mp hall)
  · next hall =>
    obtain ⟨tail, hpart, hends⟩ := exists_trim_append part
    have hslice := h.slice?
    conv at hslice => rhs; rw [hpart]
    refine .ink hslice (fun c hc => List.mem_takeWhile_imp hc) hends ?_ (trim_trim part)
    intro hnil
    exact hall (List.all_eq_true.mpr (trim_eq_nil_iff.mp hnil))

theorem giveCells_nil (outer : Nat → Prop) : GiveCells row outer [] [] :=
  ⟨rfl, nofun⟩

theorem GiveCells.cons {outer : Nat → Prop} {s : Span} {t : Option Span} {segments : List Span}
    {cells : List (Option Span)} (hcell : CellOf row (outer 0) s t)
    (hmore : GiveCells row (fun k => outer (k + 1)) segments cells) :
    GiveCells row outer (s :: segments) (t :: cells) := by
  refine ⟨congrArg (· + 1) hmore.length_eq, ?_⟩
  intro k s' t' hs ht
  cases k with
  | zero =>
    obtain rfl := Option.some.inj hs
    obtain rfl := Option.some.inj ht
    exact hcell
  | succ k => exact hmore.cell k s' t' hs ht

/-- What follows the first pipe gives the cells of its parts. The last part is trimmed with the row,
so it is empty where it is blank. -/
theorem exists_cells_laterCells {outer : Nat → Prop} {parts : List (List Char)}
    (h : Stands row start (List.intercalate ['|'] parts))
    (hlast : ∀ part ∈ parts.getLast?, trimEnd part = part)
    (houter : ∀ k, outer k ↔ k + 1 = parts.length) :
    ∃ cells, laterCells start parts = cells.filterMap id ∧
      GiveCells row outer (placeParts start parts) cells := by
  induction parts generalizing start outer with
  | nil => exact ⟨[], rfl, giveCells_nil outer⟩
  | cons part rest ih =>
    cases rest with
    | nil =>
      -- Behind the last pipe nothing or ink stands, as the row is trimmed.
      rw [List.intercalate_singleton] at h
      have hout : outer 0 := (houter 0).mpr rfl
      rw [laterCells]
      split
      · next hempty =>
        obtain rfl := List.isEmpty_iff.mp hempty
        exact ⟨[none], rfl, .cons (.none hout h.slice? (List.forall_mem_nil _)) (giveCells_nil _)⟩
      · next hne =>
        refine ⟨[some (cellSpan start part)], rfl, .cons (cellOf_part h ?_) (giveCells_nil _)⟩
        intro hblank
        have hnil := trimEnd_eq_nil_iff.mpr (List.all_eq_true.mp hblank)
        rw [hlast part rfl] at hnil
        exact absurd (List.isEmpty_iff.mpr hnil) hne
    | cons next rest =>
      rw [List.intercalate_cons_cons] at h
      have hrest := h.right
      have hpipe : byteSize ['|'] = 1 := rfl
      rw [byteSize_append, hpipe, ← Nat.add_assoc] at hrest
      have hlater : ∀ k, outer (k + 1) ↔ k + 1 = (next :: rest).length :=
        fun k => (houter (k + 1)).trans Nat.add_right_cancel_iff
      obtain ⟨cells, hcells, hgive⟩ := ih hrest hlast hlater
      have hin : ¬ outer 0 := by
        rw [houter]
        simp
      exact ⟨some (cellSpan start part) :: cells, congrArg _ hcells,
        .cons (cellOf_part h.left.left fun _ => hin) hgive⟩

/-- The last of joined texts ends the joined text. -/
theorem getLast?_isSuffix_intercalate (sep : List Char) {parts : List (List Char)}
    {part : List Char} (h : part ∈ parts.getLast?) : part <:+ List.intercalate sep parts := by
  induction parts with
  | nil => cases h
  | cons first rest ih =>
    cases rest with
    | nil =>
      obtain rfl := Option.some.inj h
      rw [List.intercalate_singleton]
      exact List.suffix_refl _
    | cons next rest =>
      rw [List.intercalate_cons_cons]
      exact (ih h).trans (List.suffix_append _ _)

/-- The last part of a trimmed row is trimmed, as what ends it ends the row. -/
theorem trimEnd_getLast?_splitAtPipes (row : List Char) :
    ∀ part ∈ (splitAtPipes (trimEnd row)).getLast?, trimEnd part = part := by
  intro part hpart
  obtain ⟨front, hfront⟩ := getLast?_isSuffix_intercalate ['|'] hpart
  rw [intercalate_splitAtPipes] at hfront
  have hrow : trimEnd (trimEnd row) = trimEnd row := trimEnd_trimEnd row
  rw [← hfront] at hrow
  apply dropEndWhile_eq_self_iff.mpr
  intro c hc
  apply dropEndWhile_eq_self_iff.mp hrow c
  rw [List.getLast?_append, hc]
  rfl

/-- The row gives the cells of its segments. -/
theorem exists_cells_cellsOf (row : List Char) :
    ∃ cells, cellsOf row 0 = cells.filterMap id ∧
      GiveCells row (fun k => k = 0 ∨ k = (pipesOf row).length) (segmentsOf row) cells := by
  have hsegments := segmentsOf_eq row
  have hlength := congrArg List.length hsegments
  rw [segmentsOf, length_segmentsAt, length_placeParts] at hlength
  have hrow : Stands row 0 (List.intercalate ['|'] (splitAtPipes (trimEnd row))) := by
    rw [intercalate_splitAtPipes]
    exact Stands.of_prefix (stands_self row) (trimEnd_isPrefix row)
  have hlast := trimEnd_getLast?_splitAtPipes row
  rw [hsegments]
  unfold cellsOf
  generalize splitAtPipes (trimEnd row) = parts at hlength hrow hlast ⊢
  cases parts with
  | nil => cases hlength
  | cons part rest =>
    rw [List.length_cons, Nat.add_right_cancel_iff] at hlength
    -- The first part stands before the first pipe, so it is an outer one.
    have hpart : Stands row 0 part := by
      cases rest with
      | nil => rwa [List.intercalate_singleton] at hrow
      | cons next rest =>
        rw [List.intercalate_cons_cons] at hrow
        exact hrow.left.left
    have hlater : ∃ cells, laterCells (0 + byteSize part + 1) rest = cells.filterMap id ∧
        GiveCells row (fun k => k + 1 = 0 ∨ k + 1 = (pipesOf row).length)
          (placeParts (0 + byteSize part + 1) rest) cells := by
      cases rest with
      | nil => exact ⟨[], rfl, giveCells_nil _⟩
      | cons next rest =>
        have hpipe : byteSize ['|'] = 1 := rfl
        rw [List.intercalate_cons_cons] at hrow
        have hrest := hrow.right
        rw [byteSize_append, hpipe, ← Nat.add_assoc] at hrest
        refine exists_cells_laterCells hrest hlast fun k => ?_
        rw [hlength]
        simp
    obtain ⟨cells, hcells, hgive⟩ := hlater
    simp only [hcells]
    split
    · next hblank =>
      have hcell : CellOf row (0 = 0 ∨ 0 = (pipesOf row).length) ⟨0, 0 + byteSize part⟩ none :=
        .none (.inl rfl) hpart.slice? (List.all_eq_true.mp hblank)
      exact ⟨none :: cells, rfl, .cons hcell hgive⟩
    · next hblank =>
      have hcell : CellOf row (0 = 0 ∨ 0 = (pipesOf row).length) ⟨0, 0 + byteSize part⟩
          (some (cellSpan 0 part)) :=
        cellOf_part hpart fun hall => absurd hall hblank
      exact ⟨some (cellSpan 0 part) :: cells, rfl, .cons hcell hgive⟩

/-! ## Order of the cells -/

/-- A cell lies within its segment, on character boundaries. -/
theorem CellOf.within {outer : Prop} {s t : Span} (h : CellOf row outer s (some t)) :
    s.start ≤ t.start ∧ t.start ≤ t.stop ∧ t.stop ≤ s.stop ∧ ∃ cs, slice? row t = some cs := by
  cases h with
  | empty _ hslice _ =>
    obtain ⟨hstands, hstop⟩ := slice?_eq_some_iff.mp hslice
    refine ⟨Nat.le_refl _, Nat.le_refl _, ?_, [], hstands.boundary.slice?⟩
    show s.start ≤ s.stop
    omega
  | @ink lead body tail hslice _ _ _ _ =>
    obtain ⟨hstands, hstop⟩ := slice?_eq_some_iff.mp hslice
    simp only [byteSize_append] at hstop
    refine ⟨Nat.le_add_right _ _, Nat.le_add_right _ _, ?_, body, hstands.middle.slice?⟩
    show s.start + byteSize lead + byteSize body ≤ s.stop
    omega

theorem le_start_of_mem_placeParts {parts : List (List Char)} {s : Span}
    (h : s ∈ placeParts start parts) : start ≤ s.start ∧ s.start ≤ s.stop := by
  induction parts generalizing start with
  | nil => exact absurd h List.not_mem_nil
  | cons part rest ih =>
    rcases List.mem_cons.mp h with rfl | h
    · exact ⟨Nat.le_refl _, Nat.le_add_right _ _⟩
    · obtain ⟨hle, hstop⟩ := ih h
      exact ⟨by omega, hstop⟩

/-- Between a segment and a later one there is a pipe. -/
theorem pairwise_placeParts (start : Nat) (parts : List (List Char)) :
    (placeParts start parts).Pairwise fun a b => a.stop < b.start := by
  induction parts generalizing start with
  | nil => exact .nil
  | cons part rest ih =>
    refine List.pairwise_cons.mpr ⟨?_, ih _⟩
    intro s hs
    have hle := (le_start_of_mem_placeParts hs).1
    show start + byteSize part < s.start
    omega

namespace GiveCells

variable {outer : Nat → Prop} {segments : List Span} {cells : List (Option Span)}

/-- Where a cell is, its segment is. -/
theorem exists_segment (h : GiveCells row outer segments cells) {k : Nat} {t : Option Span}
    (ht : cells[k]? = some t) : ∃ s, segments[k]? = some s ∧ CellOf row (outer k) s t := by
  have hk : k < segments.length := by
    rw [← h.length_eq]
    exact (List.getElem?_eq_some_iff.mp ht).1
  have hs := List.getElem?_eq_getElem hk
  exact ⟨_, hs, h.cell k _ _ hs ht⟩

/-- Cells of ordered segments are ordered. -/
theorem pairwise (h : GiveCells row outer segments cells)
    (hsegments : segments.Pairwise fun a b => a.stop < b.start) :
    (cells.filterMap id).Pairwise fun a b => a.stop < b.start := by
  rw [List.pairwise_filterMap, List.pairwise_iff_getElem]
  intro i j hi hj hij a ha b hb
  have ha' : cells[i]? = some (some a) := (List.getElem?_eq_getElem hi).trans (congrArg some ha)
  have hb' : cells[j]? = some (some b) := (List.getElem?_eq_getElem hj).trans (congrArg some hb)
  obtain ⟨s, hs, hcell⟩ := h.exists_segment ha'
  obtain ⟨t, ht, hcell'⟩ := h.exists_segment hb'
  obtain ⟨hi', rfl⟩ := List.getElem?_eq_some_iff.mp hs
  obtain ⟨hj', rfl⟩ := List.getElem?_eq_some_iff.mp ht
  have hlt := List.pairwise_iff_getElem.mp hsegments i j hi' hj' hij
  have hstop := hcell.within.2.2.1
  have hstart := hcell'.within.1
  omega

/-- Where a segment stops there is no cell. -/
theorem not_in_cell (h : GiveCells row outer segments cells)
    (hsegments : segments.Pairwise fun a b => a.stop < b.start)
    (hspans : ∀ s ∈ segments, s.start ≤ s.stop) {s t : Span} (hs : s ∈ segments)
    (ht : t ∈ cells.filterMap id) : ¬ (t.start ≤ s.stop ∧ s.stop < t.stop) := by
  obtain ⟨t', ht', rfl⟩ := List.mem_filterMap.mp ht
  obtain ⟨j, hj⟩ := List.getElem?_of_mem ht'
  obtain ⟨s', hs', hcell⟩ := h.exists_segment hj
  obtain ⟨i, hi, rfl⟩ := List.getElem_of_mem hs
  obtain ⟨hj', rfl⟩ := List.getElem?_eq_some_iff.mp hs'
  obtain ⟨hstart, -, hstop, -⟩ := hcell.within
  have hle := hspans _ (List.getElem_mem hi)
  have hle' := hspans _ (List.getElem_mem hj')
  rintro ⟨hfrom, hto⟩
  -- The segment is the cell's own, an earlier one or a later one.
  rcases Nat.lt_trichotomy i j with hij | rfl | hij
  · have hlt := List.pairwise_iff_getElem.mp hsegments i j hi hj' hij
    omega
  · omega
  · have hlt := List.pairwise_iff_getElem.mp hsegments j i hj' hi hij
    omega

end GiveCells

/-! ## Rows that stand somewhere -/

theorem cellSpan_shift (base start : Nat) (part : List Char) :
    cellSpan (base + start) part = (cellSpan start part).shift base := by
  unfold cellSpan
  split
  · rfl
  · simp [Span.shift, Nat.add_assoc]

theorem laterCells_shift (base start : Nat) (parts : List (List Char)) :
    laterCells (base + start) parts = (laterCells start parts).map (·.shift base) := by
  induction parts generalizing start with
  | nil => rfl
  | cons part rest ih =>
    cases rest with
    | nil =>
      simp only [laterCells]
      split
      · rfl
      · rw [cellSpan_shift, List.map_cons, List.map_nil]
    | cons next rest =>
      have hnext : base + start + byteSize part + 1 = base + (start + byteSize part + 1) := by
        omega
      show cellSpan (base + start) part ::
          laterCells (base + start + byteSize part + 1) (next :: rest) =
        (cellSpan start part :: laterCells (start + byteSize part + 1) (next :: rest)).map _
      rw [hnext, ih, cellSpan_shift, List.map_cons]

/-- The cells move with the row. -/
theorem cellsOf_shift (row : List Char) (base : Nat) :
    cellsOf row base = (cellsOf row 0).map (·.shift base) := by
  unfold cellsOf
  split
  · rfl
  · next part rest _ =>
    have hlater : laterCells (base + byteSize part + 1) rest =
        (laterCells (0 + byteSize part + 1) rest).map (·.shift base) := by
      rw [← laterCells_shift, Nat.zero_add, Nat.add_assoc]
    have hfirst : cellSpan base part = (cellSpan 0 part).shift base := cellSpan_shift base 0 part
    simp only [hlater, hfirst, List.map_append]
    split <;> rfl

/-! ## Rows that are written -/

/-- A text that can be written as a cell: it is not empty, no white space is around it, and nothing
in it is a pipe or a backslash. -/
structure IsCellText (cs : List Char) : Prop where
  ne_nil : cs ≠ []
  trimmed : trim cs = cs
  no_pipe : '|' ∉ cs
  no_slash : '\\' ∉ cs

/-- A row with cells, up to the end of the last one. -/
def rowText (cells : List (List Char)) : List Char :=
  '|' :: ' ' :: List.intercalate [' ', '|', ' '] cells

/-- How a row may end, and the part behind its last pipe if it ends with one. -/
inductive RowEnd : List Char → List (List Char) → Prop
  | opened : RowEnd [] []
  | closed : RowEnd ['|'] [[]]

/-- Plain text stays in one part. -/
theorem splitAtPipes_plain_append {cs : List Char} (hpipe : '|' ∉ cs) (hslash : '\\' ∉ cs)
    (rest : List Char) :
    splitAtPipes (cs ++ rest) = splitAtPipes.addFront cs (splitAtPipes rest) := by
  induction cs with
  | nil => rw [List.nil_append, addFront_nil (splitAtPipes_ne_nil rest)]
  | cons c cs ih =>
    rw [List.mem_cons, not_or] at hpipe hslash
    rw [List.cons_append, splitAtPipes, ih hpipe.2 hslash.2, addFront_addFront]
    · rfl
    · exact fun h => hpipe.1 h.symm
    · exact fun _ _ h => (hslash.1 h.symm).elim

/-- The text of a cell is its part, trimmed. -/
theorem slice_cellSpan {part : List Char} (h : Stands source start part) :
    slice source (cellSpan start part) = trim part := by
  unfold cellSpan
  split
  · next hblank =>
    rw [trim_eq_nil_iff.mpr (List.all_eq_true.mp hblank)]
    exact h.boundary.slice
  · obtain ⟨tail, hpart, -⟩ := exists_trim_append part
    have hslice : Stands source start (part.takeWhile isBlank ++ trim part ++ tail) := by
      rw [← hpart]
      exact h
    exact hslice.middle.slice

/-- The texts of the cells behind the first pipe. -/
theorem map_slice_laterCells {parts tail : List (List Char)} {ends : List Char}
    (hend : RowEnd ends tail) (hparts : ∀ part ∈ parts, part ≠ [])
    (h : Stands source start (List.intercalate ['|'] (parts ++ tail))) :
    (laterCells start (parts ++ tail)).map (slice source) = parts.map trim := by
  induction parts generalizing start with
  | nil => cases hend <;> rfl
  | cons part rest ih =>
    obtain ⟨hne, hrest⟩ := List.forall_mem_cons.mp hparts
    rw [List.cons_append] at h ⊢
    -- An open row ends with its last part, a closed one with an empty part behind the last pipe.
    cases hmore : rest ++ tail with
    | nil =>
      obtain ⟨rfl, rfl⟩ := List.append_eq_nil_iff.mp hmore
      rw [List.append_nil, List.intercalate_singleton] at h
      have hempty : ¬ part.isEmpty = true := by simpa using hne
      rw [laterCells, if_neg hempty, List.map_singleton, slice_cellSpan h, List.map_singleton]
    | cons next more =>
      have hpipe : byteSize ['|'] = 1 := rfl
      rw [hmore, List.intercalate_cons_cons] at h
      have hlater := h.right
      rw [byteSize_append, hpipe, ← Nat.add_assoc, ← hmore] at hlater
      have hcells := ih hrest hlater
      rw [hmore] at hcells
      show slice source (cellSpan start part) ::
        (laterCells (start + byteSize part + 1) (next :: more)).map (slice source) = _
      rw [slice_cellSpan h.left.left, hcells, List.map_cons]

/-- Blanks around the text of a cell stay in its part. -/
theorem IsCellText.padded {cs blanks : List Char} (h : IsCellText cs)
    (hblanks : ∀ x ∈ blanks, isBlank x = true) :
    trim (' ' :: cs ++ blanks) = cs ∧ '|' ∉ ' ' :: cs ++ blanks ∧ '\\' ∉ ' ' :: cs ++ blanks := by
  have hspace : ∀ x ∈ [' '], isBlank x = true := List.all_eq_true.mp rfl
  have hpipe : '|' ∉ blanks := fun hmem => absurd (hblanks _ hmem) (by decide)
  have hslash : '\\' ∉ blanks := fun hmem => absurd (hblanks _ hmem) (by decide)
  refine ⟨?_, ?_, ?_⟩
  · calc trim ([' '] ++ (cs ++ blanks)) = trim (cs ++ blanks) := trim_blank_append hspace _
      _ = trim cs := trim_append_blank cs hblanks
      _ = cs := h.trimmed
  · simp [h.no_pipe, hpipe]
  · simp [h.no_slash, hslash]

/-- The parts of a row that is written, behind its first pipe. -/
theorem exists_parts_rowText {cells : List (List Char)} {gap : List Char} (hne : cells ≠ [])
    (hcells : ∀ c ∈ cells, IsCellText c) (hgap : ∀ x ∈ gap, isBlank x = true) :
    ∃ parts, parts.map trim = cells ∧ (∀ part ∈ parts, part ≠ []) ∧
      ∀ ends tail, RowEnd ends tail →
        splitAtPipes (' ' :: List.intercalate [' ', '|', ' '] cells ++ gap ++ ends) =
          parts ++ tail := by
  induction cells with
  | nil => exact absurd rfl hne
  | cons c rest ih =>
    obtain ⟨hc, hrest⟩ := List.forall_mem_cons.mp hcells
    cases rest with
    | nil =>
      obtain ⟨htrim, hpipe, hslash⟩ := hc.padded hgap
      rw [List.intercalate_singleton]
      refine ⟨[' ' :: c ++ gap], by rw [List.map_singleton, htrim], by simp, ?_⟩
      intro ends tail hend
      rw [splitAtPipes_plain_append hpipe hslash]
      cases hend <;> simp [splitAtPipes, splitAtPipes.addFront]
    | cons next more =>
      have hspace : ∀ x ∈ [' '], isBlank x = true := List.all_eq_true.mp rfl
      obtain ⟨htrim, hpipe, hslash⟩ := hc.padded hspace
      obtain ⟨parts, hparts, hfull, hsplit⟩ := ih (List.cons_ne_nil _ _) hrest
      refine ⟨(' ' :: c ++ [' ']) :: parts, ?_, ?_, ?_⟩
      · rw [List.map_cons, htrim, hparts]
      · exact List.forall_mem_cons.mpr ⟨by simp, hfull⟩
      · intro ends tail hend
        -- The blank behind a cell ends its part, the one behind the pipe starts the next part.
        have h := splitAtPipes_plain_append hpipe hslash
          ('|' :: (' ' :: List.intercalate [' ', '|', ' '] (next :: more) ++ gap ++ ends))
        rw [splitAtPipes, hsplit ends tail hend] at h
        rw [List.intercalate_cons_cons]
        simpa [splitAtPipes.addFront] using h

/-- A row that is written ends with its last cell, which is trimmed. -/
theorem trimEnd_rowText {cells : List (List Char)} (hne : cells ≠ [])
    (hcells : ∀ c ∈ cells, IsCellText c) : trimEnd (rowText cells) = rowText cells := by
  have hlast := List.getLast?_eq_some_getLast hne
  have hcell := hcells _ (List.getLast_mem hne)
  obtain ⟨front, hfront⟩ := getLast?_isSuffix_intercalate [' ', '|', ' '] hlast
  generalize cells.getLast hne = cell at hcell hfront
  apply dropEndWhile_eq_self_iff.mpr
  intro x hx
  have hx' : cell.getLast? = some x := by
    rw [rowText, ← hfront, ← List.cons_append, ← List.cons_append,
      List.getLast?_append_of_ne_nil _ hcell.ne_nil] at hx
    exact hx
  rw [← hcell.trimmed] at hx'
  exact isBlank_of_getLast?_trim hx'

/-- A row that is written has the cells that it is written with. -/
theorem map_slice_cellsOf {cells : List (List Char)} {gap ends blanks : List Char} {base : Nat}
    (hne : cells ≠ []) (hcells : ∀ c ∈ cells, IsCellText c) (hgap : ∀ x ∈ gap, isBlank x = true)
    (hblanks : ∀ x ∈ blanks, isBlank x = true) (hends : ends = [] ∨ ends = ['|'])
    (h : Stands source base (rowText cells ++ gap ++ ends ++ blanks)) :
    (cellsOf (rowText cells ++ gap ++ ends ++ blanks) base).map (slice source) = cells := by
  -- Of an open row the blanks behind the last cell are trimmed off too.
  have hrow : ∃ gap' tail, (∀ x ∈ gap', isBlank x = true) ∧ RowEnd ends tail ∧
      trimEnd (rowText cells ++ gap ++ ends ++ blanks) = rowText cells ++ gap' ++ ends := by
    rcases hends with rfl | rfl
    · refine ⟨[], [], List.forall_mem_nil _, .opened, ?_⟩
      have hall : ∀ x ∈ gap ++ blanks, isBlank x = true := by
        intro x hx
        exact (List.mem_append.mp hx).elim (hgap x) (hblanks x)
      have htrim : trimEnd (rowText cells ++ (gap ++ blanks)) = trimEnd (rowText cells) :=
        dropEndWhile_append_of_all hall
      rw [trimEnd_rowText hne hcells] at htrim
      simpa using htrim
    · refine ⟨gap, [[]], hgap, .closed, ?_⟩
      have htrim : trimEnd (rowText cells ++ gap ++ ['|'] ++ blanks) =
          trimEnd (rowText cells ++ gap ++ ['|']) := dropEndWhile_append_of_all hblanks
      rw [htrim]
      exact trimEnd_concat _ rfl
  obtain ⟨gap', tail, hgap', hend, htrim⟩ := hrow
  obtain ⟨parts, hparts, hfull, hsplit⟩ := exists_parts_rowText hne hcells hgap'
  have hstands := Stands.of_prefix h (trimEnd_isPrefix _)
  unfold cellsOf
  rw [htrim] at hstands ⊢
  have hall : splitAtPipes (rowText cells ++ gap' ++ ends) = [] :: (parts ++ tail) := by
    rw [← hsplit ends tail hend]
    rfl
  have hlater : Stands source (base + 0 + 1) (List.intercalate ['|'] (parts ++ tail)) := by
    rw [← hsplit ends tail hend, intercalate_splitAtPipes]
    have hsize : byteSize ['|'] = 1 := rfl
    have hright := Stands.right (a := ['|']) hstands
    rw [hsize] at hright
    exact hright
  rw [hall]
  show (laterCells (base + 0 + 1) (parts ++ tail)).map (slice source) = cells
  rw [map_slice_laterCells hend hfull hlater, hparts]

/-! ## The cells of a row -/

/-- The cells of a row that stands at `base`:

* are those of the segments between the pipes that the scan over its bytes reaches, in their order,
  where the segments before the first pipe and behind the last one are outer ones;
* follow one another with a byte between them;
* are cut out of the row on character boundaries, and no pipe that the scan reaches lies in one.

A row that is written with texts as its cells, with blanks and a pipe behind the last of them or
without, has these texts as its cells. -/
theorem cellsOf_segments (row : List Char) (base : Nat) :
    (∃ cells, cellsOf row base = (cells.filterMap id).map (·.shift base) ∧
      GiveCells row (fun k => k = 0 ∨ k = (pipesOf row).length) (segmentsOf row) cells) ∧
    ((cellsOf row base).Pairwise fun a b => a.stop < b.start) ∧
    (∀ s ∈ cellsOf row base, ∃ t : Span, s = t.shift base ∧ t.isValidFor (byteSize row) = true ∧
      (∃ cs, slice? row t = some cs) ∧ ∀ p ∈ pipesOf row, ¬ (t.start ≤ p ∧ p < t.stop)) ∧
    (∀ (cells : List (List Char)) (gap ends blanks source : List Char),
      cells ≠ [] → (∀ c ∈ cells, IsCellText c) → (∀ x ∈ gap, isBlank x = true) →
      (∀ x ∈ blanks, isBlank x = true) → (ends = [] ∨ ends = ['|']) →
      row = rowText cells ++ gap ++ ends ++ blanks → Stands source base row →
      (cellsOf row base).map (slice source) = cells) := by
  obtain ⟨cells, hcells, hgive⟩ := exists_cells_cellsOf row
  have hshift : cellsOf row base = (cells.filterMap id).map (·.shift base) := by
    rw [cellsOf_shift, hcells]
  have hsegments : (segmentsOf row).Pairwise fun a b => a.stop < b.start := by
    rw [segmentsOf_eq]
    exact pairwise_placeParts 0 _
  have hspans : ∀ s ∈ segmentsOf row, s.start ≤ s.stop := by
    intro s hs
    rw [segmentsOf_eq] at hs
    exact (le_start_of_mem_placeParts hs).2
  refine ⟨⟨cells, hshift, hgive⟩, ?_, ?_, ?_⟩
  · rw [hshift, List.pairwise_map]
    refine (hgive.pairwise hsegments).imp ?_
    intro a b hab
    exact Nat.add_lt_add_left hab base
  · intro s hs
    rw [hshift] at hs
    obtain ⟨t, ht, rfl⟩ := List.mem_map.mp hs
    obtain ⟨t', ht', rfl⟩ := List.mem_filterMap.mp ht
    obtain ⟨k, hk⟩ := List.getElem?_of_mem ht'
    obtain ⟨segment, -, hcell⟩ := hgive.exists_segment hk
    obtain ⟨-, hle, -, cs, hcs⟩ := hcell.within
    obtain ⟨hstands, hstop⟩ := slice?_eq_some_iff.mp hcs
    have hsize := hstands.stop_le
    refine ⟨t, rfl, Span.isValidFor_iff.mpr ⟨hle, by omega⟩, ⟨cs, hcs⟩, ?_⟩
    intro p hp
    -- A pipe stands where a segment stops.
    obtain ⟨s, hs, rfl⟩ := mem_positions hp 0 (byteSize (trimEnd row))
    exact hgive.not_in_cell hsegments hspans hs ht
  · rintro cells gap ends blanks source hne hall hgap hblanks hends rfl hstands
    exact map_slice_cellsOf hne hall hgap hblanks hends hstands

/-- A row with an escaped pipe and an empty cell, and a row that is written with two cells. -/
theorem cellsOf_segments_escapedPipe :
    let row := "|a \\| b|| é".toList
    let written := "| a | é b |".toList
    pipesOf row = [0, 7, 8] ∧
    cellsOf row 10 = [⟨11, 17⟩, ⟨18, 18⟩, ⟨20, 22⟩] ∧
    (∃ t : Span, (⟨11, 17⟩ : Span) = t.shift 10 ∧ ¬ (t.start ≤ 7 ∧ 7 < t.stop)) ∧
    Stands written 0 written ∧
    (cellsOf written 0).map (slice written) = ["a".toList, "é b".toList] := by
  intro row written
  have hpipes : pipesOf row = [0, 7, 8] := by
    decide +kernel
  have hcells : cellsOf row 10 = [⟨11, 17⟩, ⟨18, 18⟩, ⟨20, 22⟩] := by
    decide +kernel
  obtain ⟨t, ht, -, -, hclear⟩ :=
    (cellsOf_segments row 10).2.2.1 ⟨11, 17⟩ (by rw [hcells]; exact List.mem_cons_self)
  have hseven : ¬ (t.start ≤ 7 ∧ 7 < t.stop) := by
    refine hclear 7 ?_
    rw [hpipes]
    exact List.mem_cons_of_mem _ List.mem_cons_self
  have htexts : ∀ c ∈ ["a".toList, "é b".toList], IsCellText c := by
    intro c hc
    rcases List.mem_pair.mp hc with rfl | rfl
    · exact ⟨by decide, by decide +kernel, by decide, by decide⟩
    · exact ⟨by decide, by decide +kernel, by decide, by decide⟩
  have hspace : ∀ x ∈ [' '], isBlank x = true := List.all_eq_true.mp rfl
  exact ⟨hpipes, hcells, ⟨t, ht, hseven⟩, stands_self written,
    (cellsOf_segments written 0).2.2.2 ["a".toList, "é b".toList] [' '] ['|'] [] written
      (List.cons_ne_nil _ _) htexts hspace (List.forall_mem_nil _) (.inr rfl) rfl
      (stands_self written)⟩

end ArticleAudit.Markdown
