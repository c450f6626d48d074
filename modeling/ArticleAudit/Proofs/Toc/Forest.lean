import ArticleAudit.Document
import ArticleAudit.Proofs.Toc.Listing
import Mathlib.Data.List.Nodup

/-!
# Items of a table of contents form the forest of their indentation

The region of the items runs from the first item line up to the first line that ends it. In
pre-order the items are the item lines of the region, in the order of the lines, and each of them
hangs under the item of the latest line that encloses its own (`isForestOf_blocksOf`). So the blocks
of a table of contents are the forest that the indentation of its item lines tells
(`Document.segment_toc_forest`).
-/

set_option autoImplicit false

namespace ArticleAudit.Toc

open ArticleAudit.Text ArticleAudit.Markdown

variable {source : List Char} {lines : List LineFacts}

/-! ## The region -/

/-- The line is not passed over, and it is at the left of the first item line, or at the same column
and no item. -/
def endsRegion (first l : LineFacts) : Bool :=
  !isPassed l && (l.indent < first.indent || (l.indent == first.indent && !isItem l))

/-- The lines from the first item line on, up to the first one that ends the region. -/
def region (lines : List LineFacts) : List LineFacts :=
  match lines.dropWhile fun l => !isItem l with
  | [] => []
  | first :: later => first :: later.takeWhile fun l => !endsRegion first l

/-- The lines of an item at the column of the first one are those that do not end the region. -/
theorem isAmong_eq_not_endsRegion (first : LineFacts) :
    isAmong first.indent = fun l => !endsRegion first l := by
  funext l
  simp only [isAmong, isInner, endsRegion, Bool.not_and, Bool.not_or, Bool.not_not, Bool.or_assoc]
  congr 1
  rw [Bool.eq_iff_iff]
  simp only [Bool.or_eq_true, Bool.and_eq_true, Bool.not_eq_true', decide_eq_true_eq,
    decide_eq_false_iff_not, beq_iff_eq, beq_eq_false_iff_ne]
  by_cases hitem : isItem l = true
  · simp only [hitem, and_true, or_true]
    omega
  · simp only [hitem, and_false, or_false, Bool.false_eq_true]
    omega

theorem isComment_of_isItem {l : LineFacts} (h : isItem l = true) : isComment l = false := by
  unfold isComment
  rw [head?_trimStart_of_isItem h]
  decide

theorem region_sublist (lines : List LineFacts) : (region lines).Sublist lines := by
  unfold region
  have hdrop : (lines.dropWhile fun l => !isItem l).Sublist lines := List.dropWhile_sublist _
  split
  · exact List.nil_sublist _
  · next first later hlines =>
    rw [hlines] at hdrop
    exact ((List.takeWhile_sublist _).cons_cons first).trans hdrop

/-- A first part of an outline with as many entries as the first lines list is theirs. -/
theorem outline_left_of_append {around used rest : List LineFacts}
    {entries : List (LineFacts × List LineFacts)}
    (h : outline around (used ++ rest) = entries ++ outline around rest) :
    entries = outline around used := by
  rw [outline_append] at h
  have hlength : (outline (used.foldl openAfter around) rest).length =
      (outline around rest).length := by
    rw [← List.length_map Prod.fst, map_fst_outline, ← map_fst_outline around, List.length_map]
  exact (List.append_inj_left' h hlength).symm

/-- The items of a table of contents are those that the outline of the region lists. -/
theorem hangs_blocksOf (source : List Char)
    (hitems : ∀ l ∈ lines, isItem l = true → isPassed l = false) :
    List.Forall₂ Hangs (outline [] (region lines)) (tocNodes [] (blocksOf source lines)) := by
  have hfirst : (fun l => !(isItem l && !isComment l)) = fun l => !isItem l := by
    funext l
    cases hitem : isItem l with
    | true => rw [isComment_of_isItem hitem]; rfl
    | false => rfl
  unfold region blocksOf
  rw [hfirst]
  have hhead := List.head?_dropWhile_not (fun l => !isItem l) lines
  have hsub : (lines.dropWhile fun l => !isItem l).Sublist lines := List.dropWhile_sublist _
  cases hlines : lines.dropWhile fun l => !isItem l with
  | nil =>
    simp only [tocNodes_nil]
    exact .nil
  | cons first later =>
    rw [hlines] at hhead hsub
    have hitem : isItem first = true := by simpa using hhead
    have hpassed := hitems first (hsub.subset List.mem_cons_self) hitem
    have hstop : ∀ l ∈ ((first :: later).dropWhile isPassed).head?, l.indent ≤ first.indent := by
      intro l hl
      rw [List.dropWhile_cons_of_neg (by simp [hpassed])] at hl
      obtain rfl := Option.some.inj hl
      exact Nat.le_refl _
    obtain ⟨entries, houtline, hangs⟩ := (listed_take source).1 0 first.indent (first :: later)
      [] [] ⟨rfl, nofun⟩ rfl nofun hstop
    rw [(rest_take source).1, isAmong_eq_not_endsRegion] at houtline
    have hsplit := List.takeWhile_append_dropWhile (p := fun l => !endsRegion first l)
      (l := first :: later)
    have hregion : (first :: later).takeWhile (fun l => !endsRegion first l) =
        first :: later.takeWhile fun l => !endsRegion first l :=
      List.takeWhile_cons_of_pos (by simp [endsRegion, hitem])
    conv at houtline => lhs; rw [← hsplit]
    show List.Forall₂ Hangs
      (outline [] (first :: later.takeWhile fun l => !endsRegion first l)) _
    rw [← hregion, ← outline_left_of_append houtline]
    exact hangs

/-! ## The forest -/

/-- The items of a forest start on the item lines, at their first character that is not blank and in
the order of the lines. Each one hangs under the item of the latest line that encloses its own, or
under none; how many items are around it tells its level and its kind. -/
structure IsForestOf (lines : List LineFacts) (blocks : List Block) : Prop where
  starts : (tocNodes [] blocks).map (·.1.span.start) = (lines.filter isItem).map inkStart
  increasing : ((tocNodes [] blocks).map (·.1.span.start)).Pairwise (· < ·)
  shape : ∀ node ∈ tocNodes [] blocks, ItemShape node.1 node.2
  parent : ∀ earlier l later, lines = earlier ++ l :: later → isItem l = true →
    ∃ b ancestors, (tocNodes [] blocks)[(earlier.filter isItem).length]? = some (b, ancestors) ∧
      b.span.start = inkStart l ∧
      ((∀ before p between, earlier = before ++ p :: between → ¬ Encloses p between l) →
        ancestors = []) ∧
      ∀ before p between, earlier = before ++ p :: between → Encloses p between l →
        (∀ first q last, between = first ++ q :: last → ¬ Encloses q last l) →
        ∃ parent rest,
          (tocNodes [] blocks)[(before.filter isItem).length]? = some (parent, rest) ∧
          ancestors = parent :: rest

/-- Item lines that are in order start one after another. -/
theorem pairwise_start {lo : Nat} (h : InOrder source lo lines)
    (hblank : ∀ l ∈ lines, l.isBlank = false) : lines.Pairwise fun l m => l.start < m.start := by
  induction lines generalizing lo with
  | nil => exact .nil
  | cons l lines ih =>
    refine List.pairwise_cons.mpr ⟨?_, ih h.2.2 fun m hm => hblank m (List.mem_cons_of_mem l hm)⟩
    intro m hm
    have hlt := h.2.1.start_lt_stop (hblank l List.mem_cons_self)
    have hstop := h.2.1.stop_le_line_stop
    have hnext := h.2.2.le_line_start hm
    have hstart := (h.2.2.sound_of_mem hm).line_start_le
    have := m.content_start_le_start
    omega

/-- Related lists have related elements at every index. -/
theorem exists_getElem?_of_forall₂ {α β : Type} {R : α → β → Prop} {xs : List α} {ys : List β}
    (h : List.Forall₂ R xs ys) {i : Nat} {x : α} (hx : xs[i]? = some x) :
    ∃ y, ys[i]? = some y ∧ R x y := by
  induction h generalizing i with
  | nil => simp at hx
  | cons hxy _ ih =>
    cases i with
    | zero =>
      obtain rfl := Option.some.inj hx
      exact ⟨_, rfl, hxy⟩
    | succ i => exact ih hx

theorem map_fst_outline_eq_filter (around : List LineFacts)
    (hitems : ∀ l ∈ lines, isItem l = true → isPassed l = false) :
    (outline around lines).map Prod.fst = lines.filter isItem := by
  rw [map_fst_outline]
  refine List.filter_congr fun l hl => ?_
  cases hitem : isItem l with
  | true => rw [hitems l hl hitem]; rfl
  | false => exact Bool.and_false _

/-- A line and its item have the same place in the outline and in the pre-order. -/
theorem exists_node {blocks : List Block}
    (hangs : List.Forall₂ Hangs (outline [] lines) (tocNodes [] blocks))
    (hitems : ∀ l ∈ lines, isItem l = true → isPassed l = false)
    {earlier later : List LineFacts} {l : LineFacts} (hlines : lines = earlier ++ l :: later)
    (hitem : isItem l = true) :
    ∃ node, (tocNodes [] blocks)[(earlier.filter isItem).length]? = some node ∧
      Hangs (l, enclosing l earlier) node := by
  subst hlines
  obtain ⟨more, houtline⟩ := outline_append_item hitem hitems
  have hlength : (earlier.filter isItem).length = (outline [] earlier).length := by
    rw [← map_fst_outline_eq_filter [] fun p hp => hitems p (List.mem_append_left _ hp),
      List.length_map]
  refine exists_getElem?_of_forall₂ hangs ?_
  rw [houtline, hlength, List.getElem?_append_right (Nat.le_refl _), Nat.sub_self]
  rfl

/-- The item around another one is an item of the forest, with the blocks around it. -/
theorem mem_tocNodes_of_parent {blocks : List Block} {b parent : Block} {rest : List Block}
    (h : (b, parent :: rest) ∈ tocNodes [] blocks) (hparent : isTocKind parent.kind = true) :
    (parent, rest) ∈ tocNodes [] blocks := by
  rcases Block.mem_lineageAll_of_parent (List.mem_filter.mp h).1 with heq | hmem
  · cases heq
  · exact List.mem_filter.mpr ⟨hmem, hparent⟩

theorem map_start_of_hangs {entries : List (LineFacts × List LineFacts)}
    {nodes : List (Block × List Block)} (h : List.Forall₂ Hangs entries nodes) :
    nodes.map (·.1.span.start) = entries.map (·.1.start) := by
  induction h with
  | nil => rfl
  | cons hangs _ ih => rw [List.map_cons, List.map_cons, hangs.start, ih]

theorem shape_of_hangs {entries : List (LineFacts × List LineFacts)}
    {nodes : List (Block × List Block)} (h : List.Forall₂ Hangs entries nodes) :
    ∀ node ∈ nodes, ItemShape node.1 node.2 := by
  induction h with
  | nil => nofun
  | cons hangs _ ih => exact List.forall_mem_cons.mpr ⟨hangs.shape, ih⟩

/-- The item of a line that nothing encloses has nothing around it. -/
theorem Around.eq_nil {ancestors : List Block} (h : Around ancestors []) : ancestors = [] :=
  List.map_eq_nil_iff.mp h.starts

/-- What the outline lists is a forest of its lines. -/
theorem isForestOf_of_hangs {lo : Nat} {blocks : List Block} (horder : InOrder source lo lines)
    (hangs : List.Forall₂ Hangs (outline [] lines) (tocNodes [] blocks)) :
    IsForestOf lines blocks := by
  have hsound : ∀ l ∈ lines, l.Sound source := fun l hl => horder.sound_of_mem hl
  have hitems : ∀ l ∈ lines, isItem l = true → isPassed l = false :=
    fun l hl => isPassed_of_isItem (hsound l hl)
  have hstarts : (tocNodes [] blocks).map (·.1.span.start) =
      (lines.filter isItem).map LineFacts.start := by
    rw [map_start_of_hangs hangs, ← map_fst_outline_eq_filter [] hitems, List.map_map]
    rfl
  have hincreasing : ((tocNodes [] blocks).map (·.1.span.start)).Pairwise (· < ·) := by
    rw [hstarts, List.pairwise_map]
    refine pairwise_start (horder.filter isItem) fun l hl => ?_
    obtain ⟨hmem, hitem⟩ := List.mem_filter.mp hl
    exact (Bool.or_eq_false_iff.mp (hitems l hmem hitem)).1
  refine ⟨?_, hincreasing, shape_of_hangs hangs, ?_⟩
  · rw [hstarts]
    refine List.map_congr_left fun l hl => ?_
    obtain ⟨hmem, hitem⟩ := List.mem_filter.mp hl
    exact start_eq_inkStart (hsound l hmem) hitem
  · intro earlier l later hlines hitem
    have hl : l ∈ lines := by simp [hlines]
    obtain ⟨⟨b, ancestors⟩, hnode, hhangs⟩ := exists_node hangs hitems hlines hitem
    refine ⟨b, ancestors, hnode, hhangs.start.trans (start_eq_inkStart (hsound l hl) hitem), ?_, ?_⟩
    · intro hnone
      have haround := hhangs.around
      rw [enclosing_eq_nil_iff.mpr hnone] at haround
      exact haround.eq_nil
    · intro before p between hearlier hencloses hlatest
      have hbefore : lines = before ++ p :: (between ++ l :: later) := by
        rw [hlines, hearlier, List.append_assoc, List.cons_append]
      have hp : isPassed p = false := hitems p (by simp [hbefore]) hencloses.1
      have haround := hhangs.around
      rw [hearlier, enclosing_eq_cons hp hencloses (enclosing_eq_nil_iff.mpr hlatest)] at haround
      obtain ⟨parent, rest, rfl⟩ := List.exists_cons_of_ne_nil
        (show ancestors ≠ [] by rintro rfl; exact List.cons_ne_nil _ _ haround.starts.symm)
      -- The block around is an item, and no other item starts on the line `p`.
      obtain ⟨node, hplace, hhangsNode⟩ := exists_node hangs hitems hbefore hencloses.1
      have hmem := mem_tocNodes_of_parent (List.mem_of_getElem? hnode)
        (haround.items parent List.mem_cons_self)
      have hsame : parent.span.start = node.1.span.start :=
        (List.cons.inj haround.starts).1.trans hhangsNode.start.symm
      have hdistinct := hincreasing.imp (fun h => Nat.ne_of_lt h)
      obtain rfl : (parent, rest) = node :=
        List.inj_on_of_nodup_map hdistinct hmem (List.mem_of_getElem? hplace) hsame
      exact ⟨parent, rest, hplace, rfl⟩

/-- The blocks of a table of contents are the forest of its region. -/
theorem isForestOf_blocksOf {lo : Nat} (horder : InOrder source lo lines) :
    IsForestOf (region lines) (blocksOf source lines) := by
  refine isForestOf_of_hangs (horder.sublist (region_sublist lines)) (hangs_blocksOf source ?_)
  exact fun l hl => isPassed_of_isItem (horder.sound_of_mem hl)

end ArticleAudit.Toc

namespace ArticleAudit.Document

open ArticleAudit.Text ArticleAudit.Markdown

/-- The items of a table of contents are the forest of the item lines of its region. -/
theorem segment_toc_forest (fileName : String) (source : List Char) (strict : Bool)
    (h : Toc.isToc fileName (LineFacts.ofText strict source) = true) :
    Toc.IsForestOf (Toc.region (LineFacts.ofText strict source))
      (segment fileName source strict) := by
  unfold segment
  simp only [h, if_true]
  exact Toc.isForestOf_blocksOf (inOrder_ofText strict source)

/-- Three items; the third one stands between the columns of the first two, and the comment at the
left does not end the region. -/
theorem segment_toc_forest_starts :
    Toc.isToc "toc.yml"
        (LineFacts.ofText false "- name: A\n    - name: B\n# c\n  - name: C\n".toList) = true ∧
      (Toc.tocNodes [] (segment "toc.yml"
        "- name: A\n    - name: B\n# c\n  - name: C\n".toList false)).map (·.1.span.start) =
        [0, 14, 30] := by
  have htoc : Toc.isToc "toc.yml"
      (LineFacts.ofText false "- name: A\n    - name: B\n# c\n  - name: C\n".toList) = true := by
    decide
  refine ⟨htoc, ?_⟩
  rw [(segment_toc_forest "toc.yml" _ false htoc).starts]
  decide

end ArticleAudit.Document
