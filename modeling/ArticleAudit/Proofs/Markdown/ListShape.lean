import ArticleAudit.Proofs.Block.Lineage
import ArticleAudit.Proofs.Markdown.Code
import ArticleAudit.Proofs.Markdown.ListSteps
import Mathlib.Data.List.Chain

/-!
# The shape of lists

A list has items of its own type, column and level, and an item has links and then the blocks of its
deeper lines (`ListOf`). Two lists that follow one another among siblings cannot be one list
(`Apart`): the line that opens the second one is the one at which the first one ends. What is built
from the lines of a document has this shape at every depth (`shaped_take` for lists,
`shaped_blocksOf` for all lines).
-/

set_option autoImplicit false

namespace ArticleAudit.Markdown

open ArticleAudit.Text

variable {source : List Char} {strict : Bool}

/-! ## The lines that blocks start on -/

/-- The line in which a block starts. -/
def startLine? (lines : List LineFacts) (b : Block) : Option LineFacts :=
  lines.find? fun l => l.line.start ≤ b.span.start && b.span.start < l.line.stop

/-- A block that starts with the text of a line starts in that line. -/
theorem startLine?_eq {lo : Nat} {lines : List LineFacts} (horder : InOrder source lo lines)
    {l : LineFacts} (hl : l ∈ lines) (hink : l.isBlank = false) {b : Block}
    (hb : b.span.start = l.start) : startLine? lines b = some l := by
  obtain ⟨before, after, rfl⟩ := List.append_of_mem hl
  obtain ⟨mid, -, hbefore, hrest⟩ := horder.right
  have hstart := hrest.2.1.line_start_le.trans l.content_start_le_start
  have hstop := (hrest.2.1.start_lt_stop hink).trans_le hrest.2.1.stop_le_line_stop
  refine List.find?_eq_some_iff_append.mpr ⟨?_, before, after, rfl, ?_⟩
  · rw [hb]
    simp [hstart, hstop]
  · intro u hu
    have hle := (hbefore u hu).trans hrest.le_start
    rw [hb]
    simp [hle]

/-- The column of a marker is that of its line. -/
theorem indent_of_marker {l : LineFacts} {marker : ListMarker} (hl : l.Sound source)
    (h : l.marker = some marker) : marker.indent = l.indent := by
  have hline := hl.marker_eq h
  obtain ⟨strict, raw, rfl⟩ := hl.described
  unfold ListMarker.ofLine? at hline
  simp only at hline
  split at hline
  · cases hline
  · split at hline
    · obtain rfl := Option.some.inj hline
      rfl
    · cases hline

/-! ## Shapes -/

/-- The block is a list. -/
def IsList (b : Block) : Prop :=
  b.kind = .bulletedList ∨ b.kind = .numberedList

/-- A block of a deeper line of an item: a list of the next level if the line has a marker, else
fenced code if the line opens a fence, else a row of that line. -/
def InnerOf (lines : List LineFacts) (indent level : Nat) (b : Block) : Prop :=
  ∃ l, startLine? lines b = some l ∧ indent < l.indent ∧
    match l.marker, l.fence with
    | some _, _ => IsList b ∧ b.level = min maxDepth (level + 1)
    | none, some _ => b.kind = .codeFence
    | none, none => b.kind = .listRow ∧ b.span = ⟨l.start, l.stop⟩

/-- An item of a list of some type at a column: links, then the blocks of deeper lines. -/
structure ItemOf (lines : List LineFacts) (ordered : Bool) (indent depth : Nat) (item : Block) :
    Prop where
  kind : item.kind = .listItem
  level : item.level = depth
  line : ∃ l marker, startLine? lines item = some l ∧ l.marker = some marker ∧
    marker.ordered = ordered ∧ l.indent = indent
  children : ∃ links inner, item.children = links ++ inner ∧ (∀ b ∈ links, b.kind = .link) ∧
    ∀ b ∈ inner, InnerOf lines indent depth b

/-- A list: at least one item, all of them of the type, the column and the level of the list, whose
first line has a marker of that type. -/
structure ListOf (lines : List LineFacts) (list : Block) : Prop where
  nonempty : list.children ≠ []
  items : ∃ first marker, startLine? lines list = some first ∧ first.marker = some marker ∧
    list.kind = listKind marker ∧
    ∀ item ∈ list.children, ItemOf lines marker.ordered first.indent list.level item

/-- Of two lists the second one starts no deeper, and they differ in type or in column. -/
def Apart (lines : List LineFacts) (a b : Block) : Prop :=
  IsList a → IsList b → ∃ l m, startLine? lines a = some l ∧ startLine? lines b = some m ∧
    m.indent ≤ l.indent ∧ (b.kind ≠ a.kind ∨ m.indent ≠ l.indent)

/-- The block is a list of the lines if it is a list, and lists that follow one another among its
children are apart. -/
structure Shaped (lines : List LineFacts) (b : Block) : Prop where
  list : IsList b → ListOf lines b
  siblings : b.children.IsChain (Apart lines)

/-! ## Blocks that are no lists -/

section NoList

variable {lines : List LineFacts} {a b : List Block}

theorem not_isList_of_plain {b : Block} (h : Plain b) : ¬ IsList b := by
  rintro (hkind | hkind) <;>
  · rw [Plain, hkind] at h
    cases h

theorem not_isList_of_kind {b : Block} {kind : BlockKind} (h : b.kind = kind)
    (hkind : kind ≠ .bulletedList ∧ kind ≠ .numberedList) : ¬ IsList b := by
  rw [IsList, h]
  exact not_or.mpr hkind

theorem isList_listKind (marker : ListMarker) :
    listKind marker = .bulletedList ∨ listKind marker = .numberedList := by
  unfold listKind
  split
  · exact Or.inr rfl
  · exact Or.inl rfl

theorem ordered_of_listKind {a b : ListMarker} (h : listKind a = listKind b) :
    a.ordered = b.ordered := by
  unfold listKind at h
  cases ha : a.ordered <;> cases hb : b.ordered <;> simp [ha, hb] at h ⊢

theorem kind_of_mem_linkBlocks {base : Nat} {cs : List Char} {b : Block}
    (h : b ∈ linkBlocks base cs) : b.kind = .link := by
  obtain ⟨node, -, hnode⟩ := List.mem_filterMap.mp h
  unfold linkBlock? at hnode
  split at hnode
  · obtain rfl := Option.some.inj hnode
    rfl
  · cases hnode

/-- Blocks that are no lists come before any siblings. -/
theorem isChain_append_of_no_list (ha : ∀ x ∈ a, ¬ IsList x) (hb : b.IsChain (Apart lines)) :
    (a ++ b).IsChain (Apart lines) := by
  induction a with
  | nil => exact hb
  | cons x a ih =>
    obtain ⟨hx, ha⟩ := List.forall_mem_cons.mp ha
    exact (ih ha).cons fun _ _ hlist => absurd hlist hx

theorem isChain_of_no_list (ha : ∀ x ∈ a, ¬ IsList x) : a.IsChain (Apart lines) := by
  simpa using isChain_append_of_no_list ha (.nil : List.IsChain (Apart lines) [])

/-- A forest without lists is shaped. -/
theorem shaped_of_no_list (h : Block.Throughout (fun b => ¬ IsList b) a) :
    Block.Throughout (Shaped lines) a := by
  induction ([] : List Block), a using Block.lineageAll_induction with
  | nil _ => exact Block.throughout_nil
  | cons _ b rest ihchildren ihrest =>
    obtain ⟨hb, hchildren, hrest⟩ := Block.throughout_cons.mp h
    refine Block.throughout_cons.mpr ⟨⟨fun hlist => absurd hlist hb, ?_⟩, ihchildren hchildren,
      ihrest hrest⟩
    exact isChain_of_no_list fun x hx => (hchildren.of_mem hx).1

theorem shaped_of_plain (h : Block.Throughout Plain a) : Block.Throughout (Shaped lines) a :=
  shaped_of_no_list (h.mono fun _ => not_isList_of_plain)

theorem no_list_leaf {opener : Opener} {l : LineFacts} {rest : List LineFacts}
    {taken : Taken rest} (h : leafBlock? source opener l rest = some taken) :
    Block.Throughout (fun b => ¬ IsList b) [taken.block] :=
  throughout_leaf (fun _ => not_isList_of_plain)
    (fun _ hkind => not_isList_of_kind hkind (by simp)) h

end NoList

/-! ## Lists that lines open -/

/-- The block is a list that a line opens. -/
structure OpensList (l : LineFacts) (own : ListMarker) (list : Block) : Prop where
  marker : l.marker = some own
  kind : list.kind = listKind own
  start : list.span.start = l.start

theorem OpensList.isList {l : LineFacts} {own : ListMarker} {list : Block}
    (h : OpensList l own list) : IsList list := by
  rw [IsList, h.kind]
  exact isList_listKind own

theorem fenceBlock_kind_start (source : List Char) (l : LineFacts) (f : Fence)
    (lines : List LineFacts) :
    (fenceBlock source l f lines).block.kind = .codeFence ∧
      (fenceBlock source l f lines).block.span.start = l.start := by
  obtain ⟨tag, hblock⟩ := exists_fenceBlock_eq source l f lines
  rw [hblock]
  exact ⟨rfl, rfl⟩

theorem start_takeItem (depth : Nat) (marker : ListMarker) (l : LineFacts)
    (lines : List LineFacts) :
    (takeItem source depth marker l lines).block.span.start = l.start := by
  rw [takeItem]
  rfl

theorem opensList_takeList {depth : Nat} {marker : ListMarker} {l : LineFacts}
    (lines : List LineFacts) (h : l.marker = some marker) :
    OpensList l marker (takeList source depth marker l lines).block ∧
      (takeList source depth marker l lines).block.level = depth := by
  rw [takeList]
  exact ⟨⟨h, rfl, start_takeItem depth marker l lines⟩, rfl⟩

/-- The first of the blocks of deeper lines is a list only if the next line opens it. -/
theorem head?_takeInner {depth indent : Nat} {lines : List LineFacts} :
    ∀ b ∈ (takeInner source depth indent lines).blocks.head?, IsList b →
      ∃ m ∈ nextInk? lines, ∃ marker, OpensList m marker b := by
  -- After blank lines the next line decides.
  have hink : ∀ (l : LineFacts) (lines : List LineFacts), ¬ l.isBlank = true →
      ∀ b ∈ (takeInner source depth indent (l :: lines)).blocks.head?, IsList b →
        ∃ marker, OpensList l marker b := by
    intro l lines hl b hb hlist
    by_cases hindent : indent < l.indent
    · cases hmarker : l.marker with
      | some own =>
        rw [takeInner_of_marker hl hindent hmarker] at hb
        obtain rfl := Option.some.inj hb
        exact ⟨own, (opensList_takeList lines hmarker).1⟩
      | none =>
        cases hf : l.fence with
        | some f =>
          have hleaf : leafBlock? source (.fence f) l lines = some (fenceBlock source l f lines) :=
            rfl
          rw [takeInner_of_fence hl hindent hmarker hf] at hb
          obtain rfl := Option.some.inj hb
          exact absurd hlist ((no_list_leaf hleaf).of_mem (List.mem_singleton_self _)).1
        | none =>
          rw [takeInner_of_row hl hindent hmarker hf] at hb
          obtain rfl := Option.some.inj hb
          exact absurd hlist (not_isList_of_plain rfl)
    · rw [takeInner_of_ends (endsItem_of_le hl (Nat.le_of_not_lt hindent))] at hb
      cases hb
  intro b hb hlist
  by_cases hends : EndsItem indent lines
  · rw [takeInner_of_ends hends] at hb
    cases hb
  · cases lines with
    | nil => exact absurd (EndsItem.nil indent) hends
    | cons l lines =>
      by_cases hl : l.isBlank = true
      · cases hdrop : lines.dropWhile LineFacts.isBlank with
        | nil => exact absurd (endsItem_of_blanks hl hdrop) hends
        | cons next later =>
          have hnext : indent < next.indent := by
            by_contra hle
            exact hends (endsItem_of_dropWhile hl hdrop (Nat.le_of_not_lt hle))
          rw [(takeInner_of_blanks hl hdrop hnext).1] at hb
          exact ⟨next, nextInk?_of_dropWhile hl hdrop,
            hink next later (not_isBlank_of_dropWhile hdrop) b hb hlist⟩
      · exact ⟨l, nextInk?_cons_of_ink lines hl, hink l lines hl b hb hlist⟩

section Document

variable {lo : Nat} {all : List LineFacts} (horder : InOrder source lo all)

include horder

/-- A list and the list that the next line after it opens are apart. -/
theorem apart_of_endsList {l : LineFacts} {marker : ListMarker} {rest : List LineFacts}
    {a b : Block} (hl : l ∈ all) (hink : l.isBlank = false) (ha : OpensList l marker a)
    (hrest : ∀ u ∈ rest, u ∈ all) (hends : EndsList marker rest)
    (hb : IsList b → ∃ m ∈ nextInk? rest, ∃ own, OpensList m own b) : Apart all a b := by
  intro _ hlist
  obtain ⟨m, hm, own, hopens⟩ := hb hlist
  obtain ⟨hmem, hmink⟩ := mem_of_nextInk? hm
  obtain ⟨hle, hnone⟩ := hends m hm
  have hindent := indent_of_marker (horder.sound_of_mem hl) ha.marker
  have hown := indent_of_marker (horder.sound_of_mem (hrest m hmem)) hopens.marker
  refine ⟨l, m, startLine?_eq horder hl hink ha.start,
    startLine?_eq horder (hrest m hmem) hmink hopens.start, hindent ▸ hle, ?_⟩
  have hjoins : own.joins marker = false := by
    simpa [itemMarker?, hopens.marker, Option.filter] using hnone
  rw [ha.kind, hopens.kind, ← hindent, ← hown]
  by_cases hcolumn : own.indent = marker.indent
  · refine Or.inl fun hkind => ?_
    simp [ListMarker.joins, hcolumn, ordered_of_listKind hkind] at hjoins
  · exact Or.inr hcolumn

/-! ## Lists, items and their deeper lines -/

/-- The block of an item whose line has the marker. -/
theorem itemOf_itemBlock {depth : Nat} {marker : ListMarker} {l : LineFacts} {inner : List Block}
    (hl : l ∈ all) (hink : l.isBlank = false) (hmarker : l.marker = some marker)
    (hinner : ∀ b ∈ inner, InnerOf all marker.indent depth b) :
    ItemOf all marker.ordered marker.indent depth (itemBlock source depth marker l inner) where
  kind := rfl
  level := rfl
  line := ⟨l, marker, startLine?_eq horder hl hink rfl, hmarker, rfl,
    (indent_of_marker (horder.sound_of_mem hl) hmarker).symm⟩
  children := ⟨_, inner, rfl, fun _ => kind_of_mem_linkBlocks, hinner⟩

/-- A list around its items. -/
theorem listOf_listBlock {depth : Nat} {marker : ListMarker} {l : LineFacts} {item : Block}
    {items : List Block} (hl : l ∈ all) (hink : l.isBlank = false)
    (hmarker : l.marker = some marker) (hstart : item.span.start = l.start)
    (hitems : ∀ b ∈ item :: items, ItemOf all marker.ordered marker.indent depth b) :
    ListOf all (listBlock source depth marker l.start (item :: items)) where
  nonempty := List.cons_ne_nil item items
  items := by
    refine ⟨l, marker, startLine?_eq horder hl hink hstart, hmarker, rfl, ?_⟩
    rw [← indent_of_marker (horder.sound_of_mem hl) hmarker]
    exact hitems

omit horder in
theorem ItemOf.not_isList {ordered : Bool} {indent depth : Nat} {b : Block}
    (h : ItemOf all ordered indent depth b) : ¬ IsList b :=
  not_isList_of_kind h.kind (by simp)

omit horder in
theorem not_isList_of_mem_linkBlocks {base : Nat} {cs : List Char} {b : Block}
    (h : b ∈ linkBlocks base cs) : ¬ IsList b :=
  not_isList_of_kind (kind_of_mem_linkBlocks h) (by simp)

/-- What holds of the blocks that are built from the deeper lines of an item. -/
structure InnerShaped (all : List LineFacts) (depth indent : Nat) (blocks : List Block) : Prop where
  shaped : Block.Throughout (Shaped all) blocks
  inner : ∀ b ∈ blocks, InnerOf all indent depth b
  siblings : blocks.IsChain (Apart all)

omit horder in
theorem InnerShaped.nil {depth indent : Nat} : InnerShaped all depth indent [] :=
  ⟨Block.throughout_nil, List.forall_mem_nil _, .nil⟩

omit horder in
theorem InnerShaped.cons {depth indent : Nat} {b : Block} {blocks : List Block}
    (h : InnerShaped all depth indent blocks) (hshaped : Block.Throughout (Shaped all) [b])
    (hinner : InnerOf all indent depth b) (hnext : ∀ c ∈ blocks.head?, Apart all b c) :
    InnerShaped all depth indent (b :: blocks) :=
  ⟨Block.throughout_append.mpr ⟨hshaped, h.shaped⟩, List.forall_mem_cons.mpr ⟨hinner, h.inner⟩,
    h.siblings.cons hnext⟩

/-- Lists, their items, an item and its deeper lines are shaped as the lines say. -/
theorem shaped_take :
    (∀ depth marker l lines, (∀ u ∈ l :: lines, u ∈ all) → l.isBlank = false →
      l.marker = some marker →
      Block.Throughout (Shaped all) [(takeList source depth marker l lines).block]) ∧
    (∀ depth marker lines, (∀ u ∈ lines, u ∈ all) →
      Block.Throughout (Shaped all) (takeItems source depth marker lines).blocks ∧
      ∀ b ∈ (takeItems source depth marker lines).blocks,
        ItemOf all marker.ordered marker.indent depth b) ∧
    (∀ depth marker l lines, (∀ u ∈ l :: lines, u ∈ all) → l.isBlank = false →
      l.marker = some marker →
      Block.Throughout (Shaped all) [(takeItem source depth marker l lines).block] ∧
      ItemOf all marker.ordered marker.indent depth (takeItem source depth marker l lines).block) ∧
    ∀ depth indent lines, (∀ u ∈ lines, u ∈ all) →
      InnerShaped all depth indent (takeInner source depth indent lines).blocks := by
  apply take_induction source
  case list =>
    intro depth marker l lines hitem hitems hlines hink hmarker
    obtain ⟨hshaped, hfirst⟩ := hitem hlines hink hmarker
    obtain ⟨hmore, hlater⟩ := hitems fun u hu =>
      hlines u (List.mem_cons_of_mem l ((takeItem source depth marker l lines).isSuffix.subset hu))
    have hall := List.forall_mem_cons.mpr ⟨hfirst, hlater⟩
    rw [takeList]
    refine Block.throughout_cons.mpr ⟨⟨fun _ => ?_, ?_⟩,
      Block.throughout_append.mpr ⟨hshaped, hmore⟩, Block.throughout_nil⟩
    · exact listOf_listBlock horder (hlines l List.mem_cons_self) hink hmarker
        (start_takeItem depth marker l lines) hall
    · exact isChain_of_no_list fun b hb => (hall b hb).not_isList
  case noItem =>
    intro depth marker lines hstop _
    rw [takeItems_of_stops hstop]
    exact ⟨Block.throughout_nil, List.forall_mem_nil _⟩
  case blankItems =>
    intro depth marker l lines next later hl hdrop hnext ih hlines
    rw [(takeItems_of_blanks hl hdrop hnext).1]
    exact ih fun u hu => hlines u
      (List.mem_cons_of_mem l ((List.dropWhile_sublist _).subset (hdrop ▸ hu)))
  case nextItem =>
    -- The marker of the item is of the type and the column of the list.
    intro depth marker own l lines hl hown hitem hitems hlines
    obtain ⟨hmarker, hindent, hordered⟩ := itemMarker?_eq_some hown
    obtain ⟨hshaped, hfirst⟩ := hitem hlines (by simpa using hl) hmarker
    obtain ⟨hmore, hlater⟩ := hitems fun u hu =>
      hlines u (List.mem_cons_of_mem l ((takeItem source depth own l lines).isSuffix.subset hu))
    rw [hindent, hordered] at hfirst
    rw [takeItems_of_item hl hown]
    exact ⟨Block.throughout_append.mpr ⟨hshaped, hmore⟩, List.forall_mem_cons.mpr ⟨hfirst, hlater⟩⟩
  case item =>
    -- An item is the links of its line and the blocks of its deeper lines.
    intro depth marker l lines ih hlines hink hmarker
    have hinner := ih fun u hu => hlines u (List.mem_cons_of_mem l hu)
    have hitem := itemOf_itemBlock horder (hlines l List.mem_cons_self) hink hmarker hinner.inner
    rw [takeItem]
    refine ⟨Block.throughout_cons.mpr ⟨⟨fun hlist => absurd hlist hitem.not_isList, ?_⟩,
      Block.throughout_append.mpr ⟨shaped_of_plain (plain_linkBlocks _ _), hinner.shaped⟩,
      Block.throughout_nil⟩, hitem⟩
    exact isChain_append_of_no_list (fun _ => not_isList_of_mem_linkBlocks) hinner.siblings
  case noInner =>
    intro depth indent lines hends _
    rw [takeInner_of_ends hends]
    exact .nil
  case blankInner =>
    intro depth indent l lines next later hl hdrop hnext ih hlines
    rw [(takeInner_of_blanks hl hdrop hnext).1]
    exact ih fun u hu => hlines u
      (List.mem_cons_of_mem l ((List.dropWhile_sublist _).subset (hdrop ▸ hu)))
  case innerList =>
    -- A nested list, apart from the list that the next line may open.
    intro depth indent own l lines hl hindent hown hlist hinner hlines
    have hmem := hlines l List.mem_cons_self
    have hrest : ∀ u ∈ (takeList source (deeper depth) own l lines).rest, u ∈ all := fun u hu =>
      hlines u (List.mem_cons_of_mem l ((takeList source _ own l lines).isSuffix.subset hu))
    have hink : l.isBlank = false := by simpa using hl
    obtain ⟨hopens, hlevel⟩ := @opensList_takeList source (deeper depth) own l lines hown
    rw [takeInner_of_marker hl hindent hown]
    refine (hinner hrest).cons (hlist hlines hink hown) ?_ ?_
    · refine ⟨l, startLine?_eq horder hmem hink hopens.start, hindent, ?_⟩
      rw [hown]
      exact ⟨hopens.isList, hlevel⟩
    · intro c hc
      exact apart_of_endsList horder hmem hink hopens hrest
        ((ends_take source).1 _ own l lines) (head?_takeInner c hc)
  case innerFence =>
    intro depth indent f l lines hl hindent hmarker hf hinner hlines
    have hmem := hlines l List.mem_cons_self
    have hrest : ∀ u ∈ (fenceBlock source l f lines).rest, u ∈ all := fun u hu =>
      hlines u (List.mem_cons_of_mem l ((fenceBlock source l f lines).isSuffix.subset hu))
    have hleaf : leafBlock? source (.fence f) l lines = some (fenceBlock source l f lines) := rfl
    have hno := no_list_leaf hleaf
    obtain ⟨hkind, hstart⟩ := fenceBlock_kind_start source l f lines
    rw [takeInner_of_fence hl hindent hmarker hf]
    refine (hinner hrest).cons (shaped_of_no_list hno) ?_ ?_
    · refine ⟨l, startLine?_eq horder hmem (by simpa using hl) hstart, hindent, ?_⟩
      rw [hmarker, hf]
      exact hkind
    · exact fun c _ hlist => absurd hlist (hno.of_mem (List.mem_singleton_self _)).1
  case innerRow =>
    intro depth indent l lines hl hindent hmarker hf hinner hlines
    have hmem := hlines l List.mem_cons_self
    have hrest : ∀ u ∈ lines, u ∈ all := fun u hu => hlines u (List.mem_cons_of_mem l hu)
    rw [takeInner_of_row hl hindent hmarker hf]
    refine (hinner hrest).cons (shaped_of_plain (plain_listRow l)) ?_ ?_
    · refine ⟨l, startLine?_eq horder hmem (by simpa using hl) rfl, hindent, ?_⟩
      rw [hmarker, hf]
      exact ⟨rfl, rfl⟩
    · exact fun c _ hlist => absurd hlist (not_isList_of_plain rfl)

omit horder

/-! ## Lists among other blocks -/

theorem openBlock_list (strict : Bool) (marker : ListMarker) (l : LineFacts)
    (lines : List LineFacts) :
    openBlock source strict (.list marker) l lines = takeList source 0 marker l lines := by
  rw [openBlock]

theorem not_isList_zoneBlock (l : LineFacts) (attributes : List Char) (lines : List LineFacts)
    (children : List Block) : ¬ IsList (zoneBlock source l attributes lines children) :=
  not_isList_of_kind (show _ = BlockKind.zonePivot from rfl) (by simp)

/-- Of the blocks that lines open only the list of a marker is a list. -/
theorem isList_openBlock {opener : Opener} {l : LineFacts} {lines : List LineFacts}
    (h : IsList (openBlock source strict opener l lines).block) :
    ∃ marker, opener = .list marker := by
  have hleaf : ∀ taken, leafBlock? source opener l lines = some taken → ¬ IsList taken.block :=
    fun taken htaken => ((no_list_leaf htaken).of_mem (List.mem_singleton_self _)).1
  cases opener with
  | list marker => exact ⟨marker, rfl⟩
  | zone attributes =>
    rw [openBlock] at h
    exact absurd h (not_isList_zoneBlock l attributes lines _)
  | fence f =>
    rw [openBlock] at h
    exact absurd h (hleaf _ rfl)
  | heading heading =>
    rw [openBlock] at h
    exact absurd h (hleaf ⟨headingBlock source l heading, lines, List.suffix_rfl⟩ rfl)
  | note name =>
    rw [openBlock] at h
    exact absurd h (hleaf _ rfl)
  | table =>
    rw [openBlock] at h
    exact absurd h (hleaf _ rfl)

theorem not_isList_of_mem_paragraph (pending : Option Span) {b : Block}
    (h : b ∈ paragraph source pending) : ¬ IsList b :=
  not_isList_of_plain ((plain_paragraph pending).of_mem h).1

/-- A pending paragraph comes first. -/
theorem head?_readLines_pending {s : Span} {lines : List LineFacts} :
    ∀ b ∈ (readLines source strict (some s) lines).head?, ¬ IsList b := by
  induction lines generalizing s with
  | nil =>
    intro b hb
    rw [readLines] at hb
    exact not_isList_of_mem_paragraph _ (List.mem_of_head? hb)
  | cons l lines ih =>
    -- The paragraph ends here, or the line goes on with it.
    intro b hb
    rw [readLines] at hb
    split at hb
    · exact not_isList_of_mem_paragraph (some s) (List.mem_singleton.mpr
        (Option.some.inj hb).symm)
    · split at hb
      · exact not_isList_of_mem_paragraph (some s) (List.mem_singleton.mpr
          (Option.some.inj hb).symm)
      · exact ih b hb

/-- The first of the blocks of lines is a list only if the next line opens it. -/
theorem head?_readLines {lines : List LineFacts} :
    ∀ b ∈ (readLines source strict none lines).head?, IsList b →
      ∃ m ∈ nextInk? lines, ∃ marker, OpensList m marker b := by
  induction lines with
  | nil =>
    intro b hb
    rw [readLines] at hb
    cases hb
  | cons l lines ih =>
    intro b hb hlist
    by_cases hl : l.isBlank = true
    · rw [readLines, if_pos hl] at hb
      rw [nextInk?_cons_of_blank lines hl]
      exact ih b hb hlist
    · refine ⟨l, nextInk?_cons_of_ink lines hl, ?_⟩
      cases hopener : openerOf? strict l lines with
      | some opener =>
        rw [readLines, if_neg hl, hopener] at hb
        obtain rfl := Option.some.inj hb
        obtain ⟨marker, rfl⟩ := isList_openBlock hlist
        refine ⟨marker, ?_⟩
        rw [openBlock]
        exact (opensList_takeList lines (openedBy_of_openerOf? hopener)).1
      | none =>
        rw [readLines, if_neg hl, hopener] at hb
        exact absurd hlist (head?_readLines_pending b hb)

include horder

/-- The blocks that lines open, and the blocks of lines, are shaped as the lines say. -/
theorem shaped_documentStages :
    (∀ opener l lines, (∀ u ∈ l :: lines, u ∈ all) → l.isBlank = false → opener.OpenedBy l →
      Block.Throughout (Shaped all) [(openBlock source strict opener l lines).block]) ∧
    ∀ pending lines, (∀ u ∈ lines, u ∈ all) →
      Block.Throughout (Shaped all) (readLines source strict pending lines) ∧
      (readLines source strict pending lines).IsChain (Apart all) := by
  have hleaf : ∀ opener l lines {taken : Taken lines},
      leafBlock? source opener l lines = some taken →
      Block.Throughout (Shaped all) [taken.block] :=
    fun _ _ _ _ h => shaped_of_no_list (no_list_leaf h)
  apply openBlock.mutual_induct source strict
  case case1 =>
    intro l lines f _ _ _
    rw [openBlock]
    exact hleaf (.fence f) l lines rfl
  case case2 =>
    -- A zone around the blocks of its inner lines.
    intro l lines attributes hinner hlines _ _
    obtain ⟨hshaped, hsiblings⟩ := hinner fun u hu =>
      hlines u (List.mem_cons_of_mem l ((List.takeWhile_sublist _).subset hu))
    rw [openBlock]
    refine Block.throughout_cons.mpr ⟨⟨fun hlist => absurd hlist ?_, hsiblings⟩, hshaped,
      Block.throughout_nil⟩
    exact not_isList_zoneBlock l attributes lines _
  case case3 =>
    intro l lines heading _ _ _
    rw [openBlock]
    exact hleaf (.heading heading) l lines rfl
  case case4 =>
    intro l lines name _ _ _
    rw [openBlock]
    exact hleaf (.note name) l lines rfl
  case case5 =>
    intro l lines _ _ _
    rw [openBlock]
    exact hleaf .table l lines rfl
  case case6 =>
    intro l lines marker hlines hink hopened
    rw [openBlock]
    exact (shaped_take horder).1 0 marker l lines hlines hink hopened
  case case7 =>
    intro pending _
    rw [readLines]
    exact ⟨shaped_of_plain (plain_paragraph pending),
      isChain_of_no_list fun _ => not_isList_of_mem_paragraph _⟩
  case case8 =>
    intro pending l lines hl ih hlines
    obtain ⟨hshaped, hsiblings⟩ := ih fun u hu => hlines u (List.mem_cons_of_mem l hu)
    rw [readLines, if_pos hl]
    exact ⟨Block.throughout_append.mpr ⟨shaped_of_plain (plain_paragraph pending), hshaped⟩,
      isChain_append_of_no_list (fun _ => not_isList_of_mem_paragraph _) hsiblings⟩
  case case9 =>
    -- A block ends the pending paragraph; a list is apart from the list that the next line opens.
    intro pending l lines hl opener hopener taken hblock ih hlines
    have hink : l.isBlank = false := by simpa using hl
    have hopened := openedBy_of_openerOf? hopener
    have hrest : ∀ u ∈ taken.rest, u ∈ all := fun u hu =>
      hlines u (List.mem_cons_of_mem l (taken.isSuffix.subset hu))
    obtain ⟨hshaped, hsiblings⟩ := ih hrest
    have hnext : ∀ c ∈ (readLines source strict none taken.rest).head?,
        Apart all taken.block c := by
      intro c hc hlist
      obtain ⟨marker, rfl⟩ := isList_openBlock hlist
      have htaken : taken = takeList source 0 marker l lines := openBlock_list strict marker l lines
      rw [htaken] at hc hrest hlist ⊢
      exact apart_of_endsList horder (hlines l List.mem_cons_self) hink
        (opensList_takeList lines hopened).1 hrest ((ends_take source).1 0 marker l lines)
        (head?_readLines c hc) hlist
    rw [readLines, if_neg hl, hopener]
    refine ⟨Block.throughout_append.mpr ⟨shaped_of_plain (plain_paragraph pending),
      Block.throughout_append.mpr ⟨hblock hlines hink hopened, hshaped⟩⟩, ?_⟩
    exact isChain_append_of_no_list (fun _ => not_isList_of_mem_paragraph _)
      (hsiblings.cons hnext)
  case case10 =>
    intro pending l lines hl hopener ih hlines
    rw [readLines, if_neg hl, hopener]
    exact ih fun u hu => hlines u (List.mem_cons_of_mem l hu)

/-- The blocks of lines of a document are shaped as its lines say. -/
theorem shaped_blocksOf {lines : List LineFacts} (hlines : ∀ u ∈ lines, u ∈ all) :
    Block.Throughout (Shaped all) (blocksOf source strict lines) ∧
      (blocksOf source strict lines).IsChain (Apart all) :=
  (shaped_documentStages horder).2 none lines hlines

end Document

end ArticleAudit.Markdown
