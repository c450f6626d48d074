import ArticleAudit.Proofs.Toc.Properties
import ArticleAudit.Proofs.Toc.Steps

/-!
# Items of a table of contents fit their lines

Items, the properties of an item and its nested items are read by functions that call one another.
What each of them reads ends where the lines it leaves start (`UpTo`), so what two of them read one
after the other can be joined; what holds of single lines and can be joined holds of all that is
read (`ItemLayout`). An item is cut out of its source, its children follow one another from its
start on, and each of them stops within it unless it is a file that overhangs (`ItemFits`). Main
statement: `itemsFit_blocksOf`.
-/

set_option autoImplicit false

namespace ArticleAudit.Toc

open ArticleAudit.Text ArticleAudit.Markdown

variable {source : List Char}

/-- A block of a table of contents fits its source. -/
structure ItemFits (source : List Char) (b : Block) : Prop where
  text : slice? source b.span = some b.text.toList
  starts : ∀ c ∈ b.children, b.span.start ≤ c.span.start
  stops : ∀ c ∈ b.children, c.span.stop ≤ b.span.stop ↔ ¬ FileOverhangs source b.span.stop c
  inOrder : Block.InDocumentOrder b.children
  content : b.content = none
  target : ∀ s, b.target = some s → s = b.span
  region : b.region = none

/-- Items that follow one another between two offsets. -/
structure ItemsFit (source : List Char) (lo hi : Nat) (items : List Block) : Prop where
  fits : Block.Throughout (ItemFits source) items
  inOrder : Block.InDocumentOrder items
  within : Block.Within lo hi items
  items : ∀ b ∈ items, b.kind ≠ .fileName ∧ b.span.start < b.span.stop

/-- What lines between two offsets say about an item. The last line that says something is where the
item ends, unless later lines say more; then no file overhangs. -/
structure PartsFit (source : List Char) (lo hi : Nat) (parts : Parts) : Prop where
  fits : Block.Throughout (ItemFits source) parts.children
  inOrder : Block.InDocumentOrder parts.children
  within : Block.Within lo hi parts.children
  stop : ∀ n, parts.stop = some n → Boundary source n ∧ lo < n ∧ n ≤ hi ∧
    ∀ c ∈ parts.children, c.span.stop ≤ n ↔ ¬ FileOverhangs source n c
  noStop : parts.stop = none → parts.children = []
  later : ∀ n, Boundary source n → hi < n → ∀ c ∈ parts.children, ¬ FileOverhangs source n c

/-- What was read from `lo` on ends where the lines that are left start. -/
def UpTo (source : List Char) (lo : Nat) (rest : List LineFacts) (P : Nat → Prop) : Prop :=
  ∃ mid, lo ≤ mid ∧ InOrder source mid rest ∧ P mid

theorem UpTo.imp {lo lo' : Nat} {rest : List LineFacts} {P Q : Nat → Prop}
    (h : UpTo source lo rest P) (hlo : lo' ≤ lo) (hPQ : ∀ mid, lo ≤ mid → P mid → Q mid) :
    UpTo source lo' rest Q := by
  obtain ⟨mid, hmid, hrest, hP⟩ := h
  exact ⟨mid, hlo.trans hmid, hrest, hPQ mid hmid hP⟩

namespace ItemsFit

variable {lo mid hi lo' hi' : Nat} {items more : List Block}

theorem nil (source : List Char) (lo hi : Nat) : ItemsFit source lo hi [] :=
  ⟨Block.throughout_nil, List.Pairwise.nil, Block.within_nil lo hi, nofun⟩

theorem weaken (h : ItemsFit source lo hi items) (hlo : lo' ≤ lo) (hhi : hi ≤ hi') :
    ItemsFit source lo' hi' items :=
  ⟨h.fits, h.inOrder, h.within.weaken hlo hhi, h.items⟩

theorem append (h : ItemsFit source lo mid items) (hmore : ItemsFit source mid hi more)
    (hlo : lo ≤ mid) (hhi : mid ≤ hi) : ItemsFit source lo hi (items ++ more) := by
  refine ⟨Block.throughout_append.mpr ⟨h.fits, hmore.fits⟩,
    h.inOrder.append hmore.inOrder h.within hmore.within,
    (h.within.weaken (Nat.le_refl lo) hhi).append (hmore.within.weaken hlo (Nat.le_refl hi)), ?_⟩
  intro b hb
  rcases List.mem_append.mp hb with hb | hb
  · exact h.items b hb
  · exact hmore.items b hb

end ItemsFit

/-! ## What lines say -/

theorem partsFit_of_no_children {lo hi : Nat} {parts : Parts} (hchildren : parts.children = [])
    (hstop : ∀ n, parts.stop = some n → Boundary source n ∧ lo < n ∧ n ≤ hi) :
    PartsFit source lo hi parts := by
  refine ⟨?_, ?_, ?_, ?_, fun _ => hchildren, ?_⟩
  · rw [hchildren]
    exact Block.throughout_nil
  · rw [hchildren]
    exact List.Pairwise.nil
  · rw [hchildren]
    exact Block.within_nil lo hi
  · intro n hn
    obtain ⟨h1, h2, h3⟩ := hstop n hn
    exact ⟨h1, h2, h3, by simp [hchildren]⟩
  · simp [hchildren]

theorem partsFit_empty (source : List Char) (lo hi : Nat) : PartsFit source lo hi .empty :=
  partsFit_of_no_children rfl nofun

theorem PartsFit.weaken {lo lo' hi : Nat} {parts : Parts} (h : PartsFit source lo hi parts)
    (hlo : lo' ≤ lo) : PartsFit source lo' hi parts := by
  refine ⟨h.fits, h.inOrder, h.within.weaken hlo (Nat.le_refl hi), ?_, h.noStop, h.later⟩
  intro n hn
  obtain ⟨h1, h2, h3⟩ := h.stop n hn
  exact ⟨h1, by omega, h3⟩

/-- What two runs of lines say fits together. -/
theorem PartsFit.append {lo mid hi : Nat} {earlier later : Parts}
    (h : PartsFit source lo mid earlier) (hlater : PartsFit source mid hi later) (hlo : lo ≤ mid)
    (hhi : mid ≤ hi) : PartsFit source lo hi (earlier.append later) := by
  have hchild : ∀ c ∈ (earlier.append later).children,
      c ∈ earlier.children ∨ c ∈ later.children := fun c hc => List.mem_append.mp hc
  refine ⟨Block.throughout_append.mpr ⟨h.fits, hlater.fits⟩,
    h.inOrder.append hlater.inOrder h.within hlater.within,
    (h.within.weaken (Nat.le_refl lo) hhi).append (hlater.within.weaken hlo (Nat.le_refl hi)),
    ?_, ?_, ?_⟩
  · intro n hn
    cases hstop : later.stop with
    | some m =>
      -- The item ends on the later lines.
      obtain rfl : m = n := by simpa [Parts.append, hstop] using hn
      obtain ⟨h1, h2, h3, h4⟩ := hlater.stop m hstop
      refine ⟨h1, by omega, h3, ?_⟩
      intro c hc
      rcases hchild c hc with hc | hc
      · have hwithin := h.within c hc
        exact iff_of_true (by omega) (h.later m h1 h2 c hc)
      · exact h4 c hc
    | none =>
      have hearlier : earlier.stop = some n := by simpa [Parts.append, hstop] using hn
      obtain ⟨h1, h2, h3, h4⟩ := h.stop n hearlier
      refine ⟨h1, h2, h3.trans hhi, ?_⟩
      intro c hc
      rcases hchild c hc with hc | hc
      · exact h4 c hc
      · simp [hlater.noStop hstop] at hc
  · intro hnone
    obtain ⟨hstop, hearlier⟩ : later.stop = none ∧ earlier.stop = none := by
      simpa [Parts.append] using hnone
    show earlier.children ++ later.children = []
    rw [h.noStop hearlier, hlater.noStop hstop]
    rfl
  · intro n hn hlt c hc
    rcases hchild c hc with hc | hc
    · exact h.later n hn (by omega) c hc
    · exact hlater.later n hn hlt c hc

/-- A line that is not blank may be where an item ends. -/
theorem stop_spec_of_line {l : LineFacts} (hl : l.Sound source) (hblank : l.isBlank = false) :
    ∀ n, some l.stop = some n → Boundary source n ∧ l.start < n ∧ n ≤ l.line.stop := by
  intro n hn
  obtain rfl := Option.some.inj hn
  exact ⟨hl.boundary_stop, hl.start_lt_stop hblank, hl.stop_le_line_stop⟩

/-- What a property on a line says, where the line ends the item so far. -/
theorem partsFit_ofProperty {l : LineFacts} {offset : Nat} (hl : l.Sound source)
    (hblank : l.isBlank = false) (hoffset : l.indentBytes ≤ offset) :
    PartsFit source l.start l.line.stop
      { Parts.ofProperty (property? source l offset) with stop := some l.stop } := by
  have hstop := stop_spec_of_line hl hblank
  cases hproperty : property? source l offset with
  | none => exact partsFit_of_no_children rfl hstop
  | some property =>
    cases property with
    | name name => exact partsFit_of_no_children rfl hstop
    | items => exact partsFit_of_no_children rfl hstop
    | file span target =>
      have hfile := fileOn_of_property? hl hblank hoffset hproperty
      refine ⟨?_, Block.inDocumentOrder_singleton _, ?_, ?_, nofun, ?_⟩
      · refine Block.throughout_cons.mpr ⟨?_, Block.throughout_nil, Block.throughout_nil⟩
        refine ⟨hfile.text, nofun, nofun, List.Pairwise.nil, hfile.content, ?_, hfile.region⟩
        intro s hs
        exact (Option.some.inj (hfile.target.symm.trans hs)).symm
      · exact Block.within_cons.mpr ⟨⟨hfile.start, hfile.stop⟩, Block.within_nil _ _⟩
      · intro n hn
        obtain ⟨h1, h2, h3⟩ := hstop n hn
        refine ⟨h1, h2, h3, ?_⟩
        intro c hc
        obtain rfl := Option.some.inj hn
        obtain rfl := List.mem_singleton.mp hc
        exact hfile.onLine
      · intro n hn hlt c hc
        obtain rfl := List.mem_singleton.mp hc
        exact hfile.later n hn hlt

/-- What nested items say. -/
theorem partsFit_ofItems {lo hi : Nat} {items : List Block} (h : ItemsFit source lo hi items) :
    PartsFit source lo hi (Parts.ofItems items) := by
  unfold Parts.ofItems
  cases hlast : items.getLast? with
  | none => exact partsFit_empty source lo hi
  | some last =>
    obtain ⟨init, rfl⟩ := List.getLast?_eq_some_iff.mp hlast
    have hmem : last ∈ init ++ [last] := by simp
    have hwithin := h.within last hmem
    have hpos := (h.items last hmem).2
    have hover : ∀ n, ∀ c ∈ init ++ [last], ¬ FileOverhangs source n c :=
      fun n c hc hover => (h.items c hc).1 hover.1
    refine ⟨h.fits, h.inOrder, h.within, ?_, nofun, fun n _ _ => hover n⟩
    intro n hn
    obtain rfl := Option.some.inj hn
    have hboundary : Boundary source last.span.stop := by
      obtain ⟨hstands, hstop⟩ := slice?_eq_some_iff.mp (h.fits.of_mem hmem).1.text
      rw [hstop]
      exact hstands.boundary_stop
    refine ⟨hboundary, by omega, hwithin.2, ?_⟩
    intro c hc
    exact iff_of_true (h.inOrder.stop_le_last hpos.le hc) (hover _ c hc)

/-! ## One item -/

theorem itemBlock_spec (source : List Char) (depth : Nat) (l : LineFacts) {parts : Parts}
    {stop : Nat} (hstop : parts.stop = some stop) :
    (itemBlock source depth l parts).span = ⟨l.start, stop⟩ ∧
      (itemBlock source depth l parts).text = String.ofList (slice source ⟨l.start, stop⟩) ∧
      (itemBlock source depth l parts).children = parts.children ∧
      (itemBlock source depth l parts).kind = itemKind depth parts.hasItems ∧
      (itemBlock source depth l parts).content = none ∧
      (itemBlock source depth l parts).target = none ∧
      (itemBlock source depth l parts).region = none := by
  unfold itemBlock
  rw [hstop]
  cases parts.name with
  | none => exact ⟨rfl, rfl, rfl, rfl, rfl, rfl, rfl⟩
  | some name => exact ⟨rfl, rfl, rfl, rfl, rfl, rfl, rfl⟩

theorem itemKind_ne_fileName (depth : Nat) (hasItems : Bool) :
    itemKind depth hasItems ≠ .fileName := by
  unfold itemKind
  split <;> nofun

/-- An item around what its lines say. -/
theorem itemsFit_itemBlock {hi stop : Nat} {l : LineFacts} {parts : Parts} (depth : Nat)
    (hl : l.Sound source) (h : PartsFit source l.start hi parts)
    (hstop : parts.stop = some stop) :
    ItemsFit source l.start hi [itemBlock source depth l parts] := by
  obtain ⟨hspan, htext, hchildren, hkind, hcontent, htarget, hregion⟩ :=
    itemBlock_spec source depth l hstop
  obtain ⟨hboundary, hlt, hle, hstops⟩ := h.stop stop hstop
  generalize itemBlock source depth l parts = item at *
  have hstart : item.span.start = l.start := by rw [hspan]
  have hend : item.span.stop = stop := by rw [hspan]
  have hitem : ItemFits source item := by
    refine ⟨?_, ?_, ?_, ?_, hcontent, by simp [htarget], hregion⟩
    · rw [hspan, htext, String.toList_ofList]
      exact hl.boundary_start.slice?_eq hboundary hlt.le
    · rw [hchildren, hstart]
      exact fun c hc => (h.within c hc).1
    · rw [hchildren, hend]
      exact hstops
    · rw [hchildren]
      exact h.inOrder
  refine ⟨?_, Block.inDocumentOrder_singleton item, ?_, ?_⟩
  · refine Block.throughout_cons.mpr ⟨hitem, ?_, Block.throughout_nil⟩
    rw [hchildren]
    exact h.fits
  · refine Block.within_cons.mpr ⟨?_, Block.within_nil _ _⟩
    rw [hstart, hend]
    exact ⟨Nat.le_refl _, hle⟩
  · intro b hb
    obtain rfl := List.mem_singleton.mp hb
    rw [hkind, hstart, hend]
    exact ⟨itemKind_ne_fileName _ _, hlt⟩

theorem indentBytes_le_contentOffset {l : LineFacts} {marker : ListMarker} (hl : l.Sound source)
    (hmarker : l.marker = some marker) : l.indentBytes ≤ marker.contentOffset := by
  obtain ⟨mark, rest, -, hsize⟩ := exists_of_marker (hl.marker_eq hmarker)
  rw [hl.indentBytes_eq, ← LineFacts.Sound.byteSize_leadingIndent, ← hsize, byteSize_append]
  exact Nat.le_add_right _ _

theorem Parts.stop_ofProperty (property : Option Property) :
    (Parts.ofProperty property).stop = none := by
  unfold Parts.ofProperty
  split <;> rfl

/-- The first line of an item ends it as a line with a property does. -/
theorem partsFit_firstProperty {l : LineFacts} (hl : l.Sound source) (hblank : l.isBlank = false) :
    PartsFit source l.start l.line.stop { firstProperty source l with stop := some l.stop } := by
  unfold firstProperty
  cases hmarker : l.marker with
  | some marker =>
    exact partsFit_ofProperty hl hblank (indentBytes_le_contentOffset hl hmarker)
  | none => exact partsFit_of_no_children rfl (stop_spec_of_line hl hblank)

/-- An item ends on its first line when the lines after it say nothing. -/
theorem itemBlock_append_eq (source : List Char) (depth : Nat) (l : LineFacts) (inner : Parts) :
    itemBlock source depth l ((firstProperty source l).append inner) =
      itemBlock source depth l
        (Parts.append { firstProperty source l with stop := some l.stop } inner) := by
  have hnone : (firstProperty source l).stop = none := by
    unfold firstProperty
    split
    · exact Parts.stop_ofProperty _
    · rfl
  unfold itemBlock Parts.append
  rw [hnone]
  cases inner.stop <;> rfl

theorem Parts.exists_stop_append {n : Nat} (earlier later : Parts)
    (h : earlier.stop = some n) : ∃ m, (earlier.append later).stop = some m := by
  unfold Parts.append
  rw [h]
  cases later.stop with
  | none => exact ⟨n, rfl⟩
  | some m => exact ⟨m, rfl⟩

/-- An item that starts on line `l`, around what the deeper lines say. -/
theorem itemsFit_item {hi : Nat} {l : LineFacts} {inner : Parts} (depth : Nat)
    (hl : l.Sound source) (hblank : l.isBlank = false)
    (hinner : PartsFit source l.line.stop hi inner) (hhi : l.line.stop ≤ hi) :
    ItemsFit source l.start hi
      [itemBlock source depth l ((firstProperty source l).append inner)] := by
  rw [itemBlock_append_eq]
  have hstart := l.start_le_stop.trans hl.stop_le_line_stop
  have hall := (partsFit_firstProperty hl hblank).append hinner hstart hhi
  obtain ⟨stop, hstop⟩ := Parts.exists_stop_append
    { firstProperty source l with stop := some l.stop } inner rfl
  exact itemsFit_itemBlock depth hl hall hstop

/-! ## All items -/

/-- Something that holds of items between two offsets, `L`, and something that holds of what lines
between two offsets say, `M`, such that it is enough to look at one line at a time. -/
structure ItemLayout (source : List Char) (L : Nat → Nat → List Block → Prop)
    (M : Nat → Nat → Parts → Prop) : Prop where
  nil : ∀ lo hi, L lo hi []
  weaken : ∀ {lo hi lo' hi' : Nat} {items : List Block}, L lo hi items → lo' ≤ lo → hi ≤ hi' →
    L lo' hi' items
  append : ∀ {lo mid hi : Nat} {items more : List Block}, L lo mid items → L mid hi more →
    lo ≤ mid → mid ≤ hi → L lo hi (items ++ more)
  item : ∀ {hi : Nat} {l : LineFacts} {inner : Parts} (depth : Nat), l.Sound source →
    l.isBlank = false → M l.line.stop hi inner → l.line.stop ≤ hi →
    L l.start hi [itemBlock source depth l ((firstProperty source l).append inner)]
  noParts : ∀ lo hi, M lo hi .empty
  partsWeaken : ∀ {lo lo' hi : Nat} {parts : Parts}, M lo hi parts → lo' ≤ lo → M lo' hi parts
  partsAppend : ∀ {lo mid hi : Nat} {earlier later : Parts}, M lo mid earlier → M mid hi later →
    lo ≤ mid → mid ≤ hi → M lo hi (earlier.append later)
  ofItems : ∀ {lo hi : Nat} {items : List Block}, L lo hi items → M lo hi (Parts.ofItems items)
  property : ∀ {l : LineFacts}, l.Sound source → l.isBlank = false → M l.start l.line.stop
    { Parts.ofProperty (property? source l l.indentBytes) with stop := some l.stop }

namespace ItemLayout

variable {L : Nat → Nat → List Block → Prop} {M : Nat → Nat → Parts → Prop}

/-- Items up to an offset, and the items after them. -/
theorem items (hL : ItemLayout source L M) {lo lo' : Nat} {rest : List LineFacts}
    {items more : List Block} (h : L lo lo' items) (hlo : lo ≤ lo')
    (hmore : UpTo source lo' rest fun mid => L lo' mid more) :
    UpTo source lo rest fun mid => L lo mid (items ++ more) :=
  hmore.imp hlo fun _ hmid hitems => hL.append h hitems hlo hmid

/-- What earlier lines say up to an offset, and what the lines after them say. -/
theorem parts (hL : ItemLayout source L M) {lo lo' : Nat} {rest : List LineFacts}
    {earlier later : Parts} (h : M lo lo' earlier) (hlo : lo ≤ lo')
    (hlater : UpTo source lo' rest fun mid => M lo' mid later) :
    UpTo source lo rest fun mid => M lo mid (earlier.append later) :=
  hlater.imp hlo fun _ hmid hparts => hL.partsAppend h hparts hlo hmid

/-- What items, one item and the lines of an item read is laid out. The induction is on the lines
that are left; the offset from which they are in order moves with them. -/
theorem take (hL : ItemLayout source L M) :
    (∀ depth indent lines, ∀ lo, InOrder source lo lines →
      UpTo source lo (takeItems source depth indent lines).rest fun mid =>
        L lo mid (takeItems source depth indent lines).blocks) ∧
    (∀ depth l lines, ∀ lo, InOrder source lo (l :: lines) → l.isBlank = false →
      UpTo source lo (takeItem source depth l lines).rest fun mid =>
        L lo mid [(takeItem source depth l lines).block]) ∧
    ∀ depth indent lines, ∀ lo, InOrder source lo lines →
      UpTo source lo (takeParts source depth indent lines).rest fun mid =>
        M lo mid (takeParts source depth indent lines).parts := by
  apply take_induction source
  case noItem =>
    intro depth indent lines hstop lo h
    rw [takeItems_of_stops hstop]
    exact ⟨lo, Nat.le_refl lo, h, hL.nil lo lo⟩
  case skip =>
    intro depth indent l lines hinner ih lo h
    have hlo := h.le_start
    have hline := h.start_le_line_stop
    rw [takeItems_of_inner hinner]
    exact hL.items (hL.nil lo l.line.stop) (hlo.trans hline) (ih l.line.stop h.2.2)
  case nextItem =>
    intro depth l lines hpassed hitem ihitem ihitems lo h
    rw [takeItems_of_item hpassed hitem rfl]
    obtain ⟨mid, hmid, hrest, hfirst⟩ := ihitem lo h (isBlank_of_isPassed_eq_false hpassed)
    exact hL.items hfirst hmid (ihitems mid hrest)
  case item =>
    -- An item is its first line and its deeper lines.
    intro depth l lines ih lo h hblank
    have hlo := h.le_start
    have hline := h.start_le_line_stop
    rw [takeItem]
    refine (ih l.line.stop h.2.2).imp (hlo.trans hline) ?_
    intro mid hmid hinner
    exact hL.weaken (hL.item depth h.2.1 hblank hinner hmid) hlo (Nat.le_refl mid)
  case noPart =>
    intro depth indent lines hstop lo h
    rw [takeParts_of_stops hstop]
    exact ⟨lo, Nat.le_refl lo, h, hL.noParts lo lo⟩
  case passed =>
    intro depth indent l lines hpassed ih lo h
    have hlo := h.le_start
    have hline := h.start_le_line_stop
    rw [takeParts_of_passed hpassed]
    exact hL.parts (hL.noParts lo l.line.stop) (hlo.trans hline) (ih l.line.stop h.2.2)
  case nested =>
    intro depth indent l lines hpassed hlt hitem ihitems ih lo h
    obtain ⟨mid, hmid, hrest, hnested⟩ := ihitems lo h
    rw [takeParts_of_item hpassed hlt hitem]
    exact hL.parts (hL.ofItems hnested) hmid (ih mid hrest)
  case property =>
    intro depth indent l lines hpassed hlt hitem ih lo h
    have hlo := h.le_start
    have hline := h.start_le_line_stop
    have hblank := isBlank_of_isPassed_eq_false hpassed
    rw [takeParts_of_property hpassed hlt hitem]
    have hparts := hL.partsWeaken (hL.property h.2.1 hblank) hlo
    exact hL.parts hparts (hlo.trans hline) (ih l.line.stop h.2.2)

/-- The blocks of a table of contents are laid out. -/
theorem blocksOf (hL : ItemLayout source L M) {lo : Nat} {lines : List LineFacts}
    (h : InOrder source lo lines) : ∃ hi, L lo hi (blocksOf source lines) := by
  unfold Toc.blocksOf
  have hsplit := List.takeWhile_append_dropWhile (p := fun l => !(isItem l && !isComment l))
    (l := lines)
  rw [← hsplit] at h
  obtain ⟨mid, hmid, -, hrest⟩ := h.right
  split
  · exact ⟨lo, hL.nil lo lo⟩
  · next first rest hdrop =>
    rw [hdrop] at hrest
    obtain ⟨hi, -, -, hitems⟩ := hL.take.1 0 first.indent (first :: rest) mid hrest
    exact ⟨hi, hL.weaken hitems hmid (Nat.le_refl hi)⟩

end ItemLayout

/-- Items that fit their lines are a layout. -/
theorem itemLayout_fits (source : List Char) :
    ItemLayout source (ItemsFit source) (PartsFit source) where
  nil := .nil source
  weaken h := h.weaken
  append h := h.append
  item depth hl hblank := itemsFit_item depth hl hblank
  noParts := partsFit_empty source
  partsWeaken h := h.weaken
  partsAppend h := h.append
  ofItems := partsFit_ofItems
  property := by
    intro l hl hblank
    exact partsFit_ofProperty hl hblank (Nat.le_refl l.indentBytes)

/-- The blocks of a table of contents are items that fit its lines. -/
theorem itemsFit_blocksOf {lo : Nat} {lines : List LineFacts} (h : InOrder source lo lines) :
    ∃ hi, ItemsFit source lo hi (blocksOf source lines) :=
  (itemLayout_fits source).blocksOf h

end ArticleAudit.Toc
