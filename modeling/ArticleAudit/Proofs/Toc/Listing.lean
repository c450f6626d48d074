import ArticleAudit.Proofs.Block.Lineage
import ArticleAudit.Proofs.Toc.Items
import ArticleAudit.Proofs.Toc.Outline
import Mathlib.Data.List.Forall2

/-!
# Items of a table of contents are listed by their outline

What is read of some lines ends at the first line that does not belong to it (`rest_take`). The
items that are read, each with the items around it, are those that the outline lists: they start on
the listed lines, in the same order, inside the items of the lines that are open there
(`listed_take`).
-/

set_option autoImplicit false

namespace ArticleAudit.Toc

open ArticleAudit.Text ArticleAudit.Markdown

variable {source : List Char}

/-! ## Where items end -/

/-- Dropping fewer elements first makes no difference. -/
theorem dropWhile_dropWhile_of_imp {α : Type} {p q : α → Bool} (h : ∀ x, q x = true → p x = true)
    (xs : List α) : (xs.dropWhile q).dropWhile p = xs.dropWhile p := by
  induction xs with
  | nil => rfl
  | cons x xs ih =>
    cases hx : q x with
    | true => simp [hx, h x hx, ih]
    | false => simp [hx]

theorem dropWhile_eq_self_of_head? {α : Type} {p : α → Bool} {xs : List α}
    (h : ∀ x ∈ xs.head?, p x = false) : xs.dropWhile p = xs := by
  cases xs with
  | nil => rfl
  | cons x xs => simp [h x rfl]

/-- Items, one item and the lines of an item leave the lines from the first one on that does not
belong to them. -/
theorem rest_take (source : List Char) :
    (∀ depth indent lines,
      (takeItems source depth indent lines).rest = lines.dropWhile (isAmong indent)) ∧
    (∀ depth l lines,
      (takeItem source depth l lines).rest = lines.dropWhile (isInner l.indent)) ∧
    ∀ depth indent lines,
      (takeParts source depth indent lines).rest = lines.dropWhile (isInner indent) := by
  apply take_induction source
  case noItem =>
    intro depth indent lines hstop
    rw [takeItems_of_stops hstop, dropWhile_eq_self_of_head? hstop]
    rfl
  case skip =>
    intro depth indent l lines hinner ih
    rw [takeItems_of_inner hinner, List.dropWhile_cons_of_pos (isAmong_of_isInner hinner)]
    exact ih
  case nextItem =>
    intro depth l lines hpassed hitem ihitem ihitems
    have hamong : isAmong l.indent l = true := by simp [isAmong, hitem]
    rw [takeItems_of_item hpassed hitem rfl, List.dropWhile_cons_of_pos hamong]
    show (takeItems source depth l.indent (takeItem source depth l lines).rest).rest = _
    rw [ihitems, ihitem, dropWhile_dropWhile_of_imp fun _ => isAmong_of_isInner]
  case item =>
    intro depth l lines ih
    rw [takeItem]
    exact ih
  case noPart =>
    intro depth indent lines hstop
    rw [takeParts_of_stops hstop, dropWhile_eq_self_of_head? hstop]
  case passed =>
    intro depth indent l lines hpassed ih
    rw [takeParts_of_passed hpassed,
      List.dropWhile_cons_of_pos (isInner_of_isPassed indent hpassed)]
    exact ih
  case nested =>
    intro depth indent l lines hpassed hlt hitem ihitems ih
    rw [takeParts_of_item hpassed hlt hitem]
    show (takeParts source depth indent
      (takeItems source (deeper depth) l.indent (l :: lines)).rest).rest = _
    rw [ih, ihitems, dropWhile_dropWhile_of_imp fun _ => isInner_of_isAmong hlt]
  case property =>
    intro depth indent l lines hpassed hlt hitem ih
    rw [takeParts_of_property hpassed hlt hitem,
      List.dropWhile_cons_of_pos (isInner_of_lt hlt)]
    exact ih

/-! ## Items and the lines they start on -/

/-- The kinds of items. -/
def isTocKind : BlockKind → Bool
  | .tocTopNode | .tocNode | .tocEntry | .tocTopEntry => true
  | _ => false

/-- The items of a forest in pre-order, each with the blocks around it, the innermost first. -/
def tocNodes (ancestors blocks : List Block) : List (Block × List Block) :=
  (Block.lineageAll ancestors blocks).filter fun node => isTocKind node.1.kind

/-- The level and the kind of an item below its ancestors. -/
structure ItemShape (b : Block) (ancestors : List Block) : Prop where
  level : b.level = min maxDepth ancestors.length
  top : b.kind = .tocTopNode ∨ b.kind = .tocTopEntry ↔ ancestors = []
  entry : b.kind = .tocEntry ∨ b.kind = .tocTopEntry → ∀ c ∈ b.children, isTocKind c.kind = false

/-- The blocks are the items of the lines that are open. -/
structure Around (ancestors : List Block) (around : List LineFacts) : Prop where
  starts : ancestors.map (·.span.start) = around.map LineFacts.start
  items : ∀ a ∈ ancestors, isTocKind a.kind = true

/-- An item starts on a listed line, within the items of the lines that are open there. -/
structure Hangs (entry : LineFacts × List LineFacts) (node : Block × List Block) : Prop where
  start : node.1.span.start = entry.1.start
  around : Around node.2 entry.2
  shape : ItemShape node.1 node.2

/-- Up to the lines that are left, the outline lists the items. -/
def Listed (around lines rest : List LineFacts) (ancestors blocks : List Block) : Prop :=
  ∃ entries, outline around lines = entries ++ outline around rest ∧
    List.Forall₂ Hangs entries (tocNodes ancestors blocks)

section Listed

variable {around lines mid rest : List LineFacts} {ancestors a b : List Block}

theorem tocNodes_nil (ancestors : List Block) : tocNodes ancestors [] = [] := by
  simp [tocNodes]

theorem tocNodes_append (ancestors a b : List Block) :
    tocNodes ancestors (a ++ b) = tocNodes ancestors a ++ tocNodes ancestors b := by
  simp [tocNodes, Block.lineageAll_append]

theorem tocNodes_singleton {b : Block} (h : isTocKind b.kind = true) :
    tocNodes ancestors [b] = (b, ancestors) :: tocNodes (b :: ancestors) b.children := by
  simp [tocNodes, Block.lineage_eq, h]

theorem Listed.nil (h : outline around lines = outline around rest) :
    Listed around lines rest ancestors [] := by
  refine ⟨[], h, ?_⟩
  rw [tocNodes_nil]
  exact .nil

theorem Listed.append (ha : Listed around lines mid ancestors a)
    (hb : Listed around mid rest ancestors b) : Listed around lines rest ancestors (a ++ b) := by
  obtain ⟨first, hfirst, hangsFirst⟩ := ha
  obtain ⟨second, hsecond, hangsSecond⟩ := hb
  refine ⟨first ++ second, ?_, ?_⟩
  · rw [hfirst, hsecond, List.append_assoc]
  · rw [tocNodes_append]
    exact List.rel_append hangsFirst hangsSecond

/-- Lines that list nothing come before what is listed. -/
theorem Listed.of_outline_eq (h : outline around lines = outline around mid)
    (hb : Listed around mid rest ancestors b) : Listed around lines rest ancestors b :=
  Listed.append (Listed.nil h) hb

end Listed

/-- A line that the next one closes is no longer open. -/
theorem outline_cons_closed {p : LineFacts} {around rest : List LineFacts}
    (h : ∀ m ∈ rest.head?, isPassed m = false ∧ m.indent ≤ p.indent) :
    outline (p :: around) rest = outline around rest := by
  cases rest with
  | nil => rfl
  | cons m rest =>
    obtain ⟨hm, hle⟩ := h m rfl
    have houter : outer (p :: around) m = outer around m :=
      List.filter_cons_of_neg (by simpa using hle)
    cases hitem : isItem m with
    | true => rw [outline_cons_of_item _ _ hm hitem, outline_cons_of_item _ _ hm hitem, houter]
    | false =>
      rw [outline_cons_of_not_item _ _ hm hitem, outline_cons_of_not_item _ _ hm hitem, houter]

/-- The lines after an item start with one that is not deeper. -/
theorem head?_dropWhile_isInner {indent : Nat} {lines : List LineFacts} :
    ∀ m ∈ (lines.dropWhile (isInner indent)).head?, isPassed m = false ∧ m.indent ≤ indent := by
  intro m hm
  have hnot := List.head?_dropWhile_not (isInner indent) lines
  rw [Option.mem_def.mp hm] at hnot
  exact isInner_eq_false (by simpa using hnot)

/-- After an item the next line that is not passed over is not deeper than it. -/
theorem head?_rest_takeItem (depth : Nat) (l : LineFacts) (lines : List LineFacts) :
    ∀ m ∈ ((takeItem source depth l lines).rest.dropWhile isPassed).head?,
      m.indent ≤ l.indent := by
  intro m hm
  rw [(rest_take source).2.1] at hm
  have hhead := @head?_dropWhile_isInner l.indent lines
  cases hdrop : lines.dropWhile (isInner l.indent) with
  | nil =>
    rw [hdrop] at hm
    cases hm
  | cons first later =>
    rw [hdrop] at hm hhead
    obtain ⟨hfirst, hle⟩ := hhead first rfl
    rw [List.dropWhile_cons_of_neg (by simp [hfirst])] at hm
    obtain rfl := Option.some.inj hm
    exact hle

/-! ## One item -/

theorem Parts.ofProperty_children (property : Option Property) :
    ∀ c ∈ (Parts.ofProperty property).children, c.kind = .fileName ∧ c.children = [] := by
  unfold Parts.ofProperty
  split
  · simp [Parts.empty]
  · simp [Parts.empty]
  · simp [Parts.empty]
  · simp [Block.leaf, Block.withTag, Block.withTarget]

theorem Parts.ofItems_children (items : List Block) : (Parts.ofItems items).children = items := by
  unfold Parts.ofItems
  split
  · next hlast => exact (List.getLast?_eq_none_iff.mp hlast).symm
  · rfl

theorem firstProperty_children (source : List Char) (l : LineFacts) :
    ∀ c ∈ (firstProperty source l).children, c.kind = .fileName ∧ c.children = [] := by
  unfold firstProperty
  split
  · exact Parts.ofProperty_children _
  · simp [Parts.empty]

/-- Files are no items. -/
theorem tocNodes_files (ancestors : List Block) {files : List Block}
    (h : ∀ c ∈ files, c.kind = .fileName ∧ c.children = []) : tocNodes ancestors files = [] := by
  induction files with
  | nil => exact tocNodes_nil ancestors
  | cons c files ih =>
    obtain ⟨hkind, hchildren⟩ := h c List.mem_cons_self
    have hc : tocNodes ancestors [c] = [] := by
      simp [tocNodes, Block.lineage_eq, hkind, hchildren, isTocKind]
    rw [← List.singleton_append, tocNodes_append, hc,
      ih fun d hd => h d (List.mem_cons_of_mem c hd)]
    rfl

theorem itemBlock_fields (source : List Char) (depth : Nat) (l : LineFacts) (parts : Parts) :
    (itemBlock source depth l parts).span.start = l.start ∧
      (itemBlock source depth l parts).level = depth ∧
      (itemBlock source depth l parts).children = parts.children ∧
      (itemBlock source depth l parts).kind = itemKind depth parts.hasItems := by
  unfold itemBlock
  cases parts.name with
  | none => exact ⟨rfl, rfl, rfl, rfl⟩
  | some name => exact ⟨rfl, rfl, rfl, rfl⟩

theorem isTocKind_itemKind (depth : Nat) (hasItems : Bool) :
    isTocKind (itemKind depth hasItems) = true := by
  unfold itemKind
  split <;> rfl

/-- An item is top level at depth zero, and an entry when it has no items. -/
theorem itemKind_spec (depth : Nat) (hasItems : Bool) :
    (itemKind depth hasItems = .tocTopNode ∨ itemKind depth hasItems = .tocTopEntry ↔ depth = 0) ∧
      (itemKind depth hasItems = .tocEntry ∨ itemKind depth hasItems = .tocTopEntry →
        hasItems = false) := by
  unfold itemKind
  split <;> simp

/-- An item with its parts has the shape of an item. -/
theorem itemShape_itemBlock {depth : Nat} {ancestors : List Block} (source : List Char)
    (l : LineFacts) {parts : Parts} (hlevel : depth = min maxDepth ancestors.length)
    (hparts : parts.hasItems = false → ∀ c ∈ parts.children, isTocKind c.kind = false) :
    ItemShape (itemBlock source depth l parts) ancestors := by
  obtain ⟨-, hdepth, hchildren, hkind⟩ := itemBlock_fields source depth l parts
  obtain ⟨htop, hentry⟩ := itemKind_spec depth parts.hasItems
  have hzero : depth = 0 ↔ ancestors = [] := by
    rw [hlevel, Nat.min_eq_zero_iff, List.length_eq_zero_iff]
    exact or_iff_right (by decide)
  refine ⟨hdepth.trans hlevel, ?_, ?_⟩
  · rw [hkind, htop, hzero]
  · rw [hkind, hchildren]
    exact fun hkinds => hparts (hentry hkinds)

/-- Below an item its line is open. -/
theorem Around.below {ancestors : List Block} {around : List LineFacts} {b : Block} {l : LineFacts}
    (h : Around ancestors around) (hb : b.span.start = l.start) (hkind : isTocKind b.kind = true) :
    Around (b :: ancestors) (l :: around) := by
  refine ⟨?_, ?_⟩
  · rw [List.map_cons, List.map_cons, hb, h.starts]
  · exact List.forall_mem_cons.mpr ⟨hkind, h.items⟩

/-- Below an item the level is the next deeper one. -/
theorem deeper_min_length {depth : Nat} {ancestors : List Block} (b : Block)
    (h : depth = min maxDepth ancestors.length) :
    deeper depth = min maxDepth (b :: ancestors).length := by
  rw [h, deeper, List.length_cons]
  omega

/-! ## All items -/

/-- What lines say about an item is listed, and no item is among it unless it has items. -/
structure PartsListed (around lines rest : List LineFacts) (ancestors : List Block)
    (parts : Parts) : Prop where
  listed : Listed around lines rest ancestors parts.children
  noItems : parts.hasItems = false → ∀ c ∈ parts.children, isTocKind c.kind = false

namespace PartsListed

variable {around lines mid rest : List LineFacts} {ancestors : List Block} {earlier later : Parts}

theorem append (h : PartsListed around lines mid ancestors earlier)
    (hlater : PartsListed around mid rest ancestors later) :
    PartsListed around lines rest ancestors (earlier.append later) := by
  refine ⟨h.listed.append hlater.listed, ?_⟩
  intro hnone c hc
  obtain ⟨hearlier, hrest⟩ := Bool.or_eq_false_iff.mp hnone
  rcases List.mem_append.mp hc with hc | hc
  · exact h.noItems hearlier c hc
  · exact hlater.noItems hrest c hc

/-- Lines that list nothing say nothing but files. -/
theorem of_files {parts : Parts} (houtline : outline around lines = outline around rest)
    (h : ∀ c ∈ parts.children, c.kind = .fileName ∧ c.children = []) :
    PartsListed around lines rest ancestors parts := by
  refine ⟨⟨[], houtline, ?_⟩, ?_⟩
  · rw [tocNodes_files ancestors h]
    exact .nil
  · intro _ c hc
    rw [(h c hc).1]
    rfl

/-- Lines that list nothing may say nothing. -/
theorem empty (houtline : outline around lines = outline around rest) :
    PartsListed around lines rest ancestors .empty :=
  of_files houtline (List.forall_mem_nil _)

/-- Nested items are listed as items. -/
theorem ofItems {items : List Block} (h : Listed around lines rest ancestors items) :
    PartsListed around lines rest ancestors (Parts.ofItems items) := by
  cases hlast : items.getLast? with
  | none =>
    obtain rfl := List.getLast?_eq_none_iff.mp hlast
    exact ⟨h, fun _ => List.forall_mem_nil _⟩
  | some last =>
    simp only [Parts.ofItems, hlast]
    exact ⟨h, nofun⟩

end PartsListed

/-- The item on a line that is deeper than the open ones, around what its inner lines say. -/
theorem listed_item {depth : Nat} {l : LineFacts} {lines : List LineFacts} {inner : Parts}
    {ancestors : List Block} {around : List LineFacts} (h : Around ancestors around)
    (hlevel : depth = min maxDepth ancestors.length) (hdeeper : ∀ p ∈ around, p.indent < l.indent)
    (hl : isPassed l = false) (hitem : isItem l = true)
    (hinner : ∀ b : Block, b.span.start = l.start → isTocKind b.kind = true →
      PartsListed (l :: around) lines (lines.dropWhile (isInner l.indent)) (b :: ancestors) inner) :
    Listed around (l :: lines) (lines.dropWhile (isInner l.indent)) ancestors
      [itemBlock source depth l ((firstProperty source l).append inner)] := by
  have hfields := itemBlock_fields source depth l ((firstProperty source l).append inner)
  have hfirst : PartsListed (l :: around) lines lines
      (itemBlock source depth l ((firstProperty source l).append inner) :: ancestors)
      (firstProperty source l) :=
    PartsListed.of_files rfl (firstProperty_children source l)
  have htoc :
      isTocKind (itemBlock source depth l ((firstProperty source l).append inner)).kind := by
    rw [hfields.2.2.2]
    exact isTocKind_itemKind _ _
  have hall := hfirst.append (hinner _ hfields.1 htoc)
  have hshape := itemShape_itemBlock source l hlevel hall.noItems
  generalize itemBlock source depth l ((firstProperty source l).append inner) = b at *
  obtain ⟨hstart, -, hchildren, -⟩ := hfields
  obtain ⟨entries, houtline, hangs⟩ := hall.listed
  refine ⟨(l, around) :: entries, ?_, ?_⟩
  · rw [outline_cons_of_item _ _ hl hitem, outer_eq_self hdeeper, houtline,
      outline_cons_closed head?_dropWhile_isInner]
    rfl
  · rw [tocNodes_singleton htoc, hchildren]
    exact .cons ⟨hstart, h, hshape⟩ hangs

/-- What items, one item and the lines of an item read is listed by the outline. The induction is on
the lines that are left; the blocks around and the lines that are open move with the depth. -/
theorem listed_take (source : List Char) :
    (∀ depth indent lines, ∀ ancestors around, Around ancestors around →
      depth = min maxDepth ancestors.length → (∀ p ∈ around, p.indent < indent) →
      (∀ l ∈ (lines.dropWhile isPassed).head?, l.indent ≤ indent) →
      Listed around lines (takeItems source depth indent lines).rest ancestors
        (takeItems source depth indent lines).blocks) ∧
    (∀ depth l lines, ∀ ancestors around, Around ancestors around →
      depth = min maxDepth ancestors.length → (∀ p ∈ around, p.indent < l.indent) →
      isPassed l = false → isItem l = true →
      Listed around (l :: lines) (takeItem source depth l lines).rest ancestors
        [(takeItem source depth l lines).block]) ∧
    ∀ depth indent lines, ∀ ancestors around, Around ancestors around →
      deeper depth = min maxDepth ancestors.length → (∀ p ∈ around, p.indent ≤ indent) →
      PartsListed around lines (takeParts source depth indent lines).rest ancestors
        (takeParts source depth indent lines).parts := by
  apply take_induction source
  case noItem =>
    intro depth indent lines hstop ancestors around _ _ _ _
    rw [takeItems_of_stops hstop]
    exact Listed.nil rfl
  case skip =>
    -- No deeper line is left between items, so the line is passed over.
    intro depth indent l lines hinner ih ancestors around h hlevel hlt hle
    cases hpassed : isPassed l with
    | true =>
      rw [List.dropWhile_cons_of_pos hpassed] at hle
      rw [takeItems_of_inner hinner]
      exact Listed.of_outline_eq (outline_cons_of_passed around lines hpassed)
        (ih ancestors around h hlevel hlt hle)
    | false =>
      have hdeeper : indent < l.indent := by simpa [isInner, hpassed] using hinner
      rw [List.dropWhile_cons_of_neg (by simp [hpassed])] at hle
      exact absurd (hle l rfl) (Nat.not_le.mpr hdeeper)
  case nextItem =>
    intro depth l lines hpassed hitem ihitem ihitems ancestors around h hlevel hlt _
    rw [takeItems_of_item hpassed hitem rfl]
    have hfirst := ihitem ancestors around h hlevel hlt hpassed hitem
    exact hfirst.append (ihitems ancestors around h hlevel hlt (head?_rest_takeItem depth l lines))
  case item =>
    -- An item is its first line and its deeper lines.
    intro depth l lines ih ancestors around h hlevel hlt hl hitem
    rw [takeItem]
    simp only [(rest_take source).2.2]
    refine listed_item h hlevel hlt hl hitem ?_
    intro b hb hkind
    have hinner := ih (b :: ancestors) (l :: around) (h.below hb hkind)
      (deeper_min_length b hlevel) ?_
    · rwa [(rest_take source).2.2] at hinner
    · intro p hp
      rcases List.mem_cons.mp hp with rfl | hp
      · exact Nat.le_refl _
      · exact (hlt p hp).le
  case noPart =>
    intro depth indent lines hstop ancestors around _ _ _
    rw [takeParts_of_stops hstop]
    exact PartsListed.empty rfl
  case passed =>
    intro depth indent l lines hpassed ih ancestors around h hlevel hle
    have hempty : PartsListed around (l :: lines) lines ancestors .empty :=
      PartsListed.empty (outline_cons_of_passed around lines hpassed)
    rw [takeParts_of_passed hpassed]
    exact hempty.append (ih ancestors around h hlevel hle)
  case nested =>
    intro depth indent l lines hpassed hdeeper hitem ihitems ih ancestors around h hlevel hindent
    have hlt : ∀ p ∈ around, p.indent < l.indent := fun p hp => (hindent p hp).trans_lt hdeeper
    have hnext : ∀ m ∈ ((l :: lines).dropWhile isPassed).head?, m.indent ≤ l.indent := by
      rw [List.dropWhile_cons_of_neg (by simp [hpassed])]
      simp
    have hitems := ihitems ancestors around h hlevel hlt hnext
    rw [takeParts_of_item hpassed hdeeper hitem]
    exact (PartsListed.ofItems hitems).append (ih ancestors around h hlevel hindent)
  case property =>
    intro depth indent l lines hpassed hdeeper hitem ih ancestors around h hlevel hindent
    have houter : outer around l = around :=
      outer_eq_self fun p hp => (hindent p hp).trans_lt hdeeper
    have houtline : outline around (l :: lines) = outline around lines := by
      rw [outline_cons_of_not_item _ _ hpassed hitem, houter]
    have hproperty : PartsListed around (l :: lines) lines ancestors
        { Parts.ofProperty (property? source l l.indentBytes) with stop := some l.stop } :=
      PartsListed.of_files houtline (Parts.ofProperty_children _)
    rw [takeParts_of_property hpassed hdeeper hitem]
    exact hproperty.append (ih ancestors around h hlevel hindent)

end ArticleAudit.Toc
