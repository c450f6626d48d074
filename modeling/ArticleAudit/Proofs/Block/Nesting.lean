import ArticleAudit.Block.Region
import ArticleAudit.Proofs.Text.Trimming

/-!
# Nesting of blocks

What it means that a forest of blocks is laid out over its source. `Fits` is the part that speaks of
spans: a block's text is the text of its span, its children lie within it and follow one another.
`InnerFits` is the part that speaks of the inner spans: content and target are cut out of the source
too, and they lie within the block unless the block `Overhangs`. Both are local to a block, so a
forest has them `Throughout` when every block of its pre-order has them. `Laid` is what every
builder proves of the blocks it makes: they are sound throughout, in order, and between two offsets.
-/

set_option autoImplicit false

namespace ArticleAudit.Block

open ArticleAudit.Text

variable {source : List Char} {P : Block → Prop}

/-! ## Forests -/

/-- What holds of no blocks, and of a block in front of others when it holds of its children and of
the others, holds of every forest. -/
theorem forest_induction {motive : List Block → Prop} (nil : motive [])
    (cons : ∀ b rest, motive b.children → motive rest → motive (b :: rest))
    (blocks : List Block) : motive blocks :=
  preorderAll.induct (fun b => motive b.children) motive
    (fun _ _ _ _ _ _ _ _ _ ih => ih) nil (fun b rest hb hrest => cons b rest hb hrest) blocks

/-! ## Properties of every block of a forest -/

/-- Every block of the forest, at every depth, has the property. -/
def Throughout (P : Block → Prop) (blocks : List Block) : Prop :=
  ∀ b ∈ preorderAll blocks, P b

@[simp] theorem throughout_nil : Throughout P [] := by
  simp [Throughout]

theorem throughout_cons {b : Block} {rest : List Block} :
    Throughout P (b :: rest) ↔ P b ∧ Throughout P b.children ∧ Throughout P rest := by
  simp only [Throughout, preorderAll_cons, preorder_eq, List.cons_append, List.mem_cons,
    List.mem_append]
  constructor
  · intro h
    exact ⟨h b (Or.inl rfl), fun c hc => h c (Or.inr (Or.inl hc)),
      fun c hc => h c (Or.inr (Or.inr hc))⟩
  · rintro ⟨hb, hchildren, hrest⟩ c (rfl | hc | hc)
    · exact hb
    · exact hchildren c hc
    · exact hrest c hc

theorem throughout_append {a b : List Block} :
    Throughout P (a ++ b) ↔ Throughout P a ∧ Throughout P b := by
  simp only [Throughout, preorderAll_append, List.mem_append]
  constructor
  · intro h
    exact ⟨fun c hc => h c (Or.inl hc), fun c hc => h c (Or.inr hc)⟩
  · rintro ⟨ha, hb⟩ c (hc | hc)
    · exact ha c hc
    · exact hb c hc

theorem throughout_of_mem {blocks : List Block}
    (h : ∀ b ∈ blocks, P b ∧ Throughout P b.children) : Throughout P blocks := by
  induction blocks with
  | nil => exact throughout_nil
  | cons b rest ih =>
    obtain ⟨hb, hchildren⟩ := h b List.mem_cons_self
    exact throughout_cons.mpr ⟨hb, hchildren, ih fun c hc => h c (List.mem_cons_of_mem b hc)⟩

theorem Throughout.of_mem {blocks : List Block} (h : Throughout P blocks) {b : Block}
    (hb : b ∈ blocks) : P b ∧ Throughout P b.children := by
  induction blocks with
  | nil => cases hb
  | cons first rest ih =>
    obtain ⟨hfirst, hchildren, hrest⟩ := throughout_cons.mp h
    rcases List.mem_cons.mp hb with rfl | hb
    · exact ⟨hfirst, hchildren⟩
    · exact ih hrest hb

theorem Throughout.mono {Q : Block → Prop} {blocks : List Block} (h : Throughout P blocks)
    (hPQ : ∀ b, P b → Q b) : Throughout Q blocks :=
  fun b hb => hPQ b (h b hb)

/-! ## Order and containment -/

/-- Siblings in document order: each starts where every earlier one has stopped. -/
def InDocumentOrder (blocks : List Block) : Prop :=
  blocks.Pairwise fun a b => a.span.stop ≤ b.span.start

/-- The blocks lie between two offsets. -/
def Within (lo hi : Nat) (blocks : List Block) : Prop :=
  ∀ b ∈ blocks, lo ≤ b.span.start ∧ b.span.stop ≤ hi

/-- The block's text is that of its span, and its children lie within it in document order. -/
structure Fits (source : List Char) (b : Block) : Prop where
  text : slice? source b.span = some b.text.toList
  within : Within b.span.start b.span.stop b.children
  inOrder : InDocumentOrder b.children

theorem Fits.start_le_stop {b : Block} (h : b.Fits source) : b.span.start ≤ b.span.stop := by
  have := (slice?_eq_some_iff.mp h.text).2
  omega

theorem Fits.stop_le {b : Block} (h : b.Fits source) : b.span.stop ≤ byteSize source := by
  obtain ⟨hstands, hstop⟩ := slice?_eq_some_iff.mp h.text
  have := hstands.stop_le
  omega

theorem Fits.boundary_start {b : Block} (h : b.Fits source) : Boundary source b.span.start :=
  (slice?_eq_some_iff.mp h.text).1.boundary

theorem Fits.boundary_stop {b : Block} (h : b.Fits source) : Boundary source b.span.stop := by
  obtain ⟨hstands, hstop⟩ := slice?_eq_some_iff.mp h.text
  rw [hstop]
  exact hstands.boundary_stop

theorem within_nil (lo hi : Nat) : Within lo hi [] := by
  intro b hb
  cases hb

theorem Within.weaken {lo hi lo' hi' : Nat} {blocks : List Block} (h : Within lo hi blocks)
    (hlo : lo' ≤ lo) (hhi : hi ≤ hi') : Within lo' hi' blocks := by
  intro b hb
  obtain ⟨h1, h2⟩ := h b hb
  exact ⟨hlo.trans h1, h2.trans hhi⟩

theorem Within.append {lo hi : Nat} {a b : List Block} (ha : Within lo hi a)
    (hb : Within lo hi b) : Within lo hi (a ++ b) := by
  intro x hx
  rcases List.mem_append.mp hx with hx | hx
  · exact ha x hx
  · exact hb x hx

theorem within_cons {lo hi : Nat} {b : Block} {rest : List Block} :
    Within lo hi (b :: rest) ↔ (lo ≤ b.span.start ∧ b.span.stop ≤ hi) ∧ Within lo hi rest := by
  simp [Within]

/-- Blocks that stop before an offset, then blocks that start from there on. -/
theorem InDocumentOrder.append {mid lo hi : Nat} {a b : List Block} (ha : InDocumentOrder a)
    (hb : InDocumentOrder b) (hamid : Within lo mid a) (hbmid : Within mid hi b) :
    InDocumentOrder (a ++ b) := by
  refine List.pairwise_append.mpr ⟨ha, hb, ?_⟩
  intro x hx y hy
  exact (hamid x hx).2.trans (hbmid y hy).1

theorem inDocumentOrder_singleton (b : Block) : InDocumentOrder [b] :=
  List.pairwise_singleton _ _

/-- Siblings in order stop by the end of the last one. -/
theorem InDocumentOrder.stop_le_last {init : List Block} {last b : Block}
    (h : InDocumentOrder (init ++ [last])) (hlast : last.span.start ≤ last.span.stop)
    (hb : b ∈ init ++ [last]) : b.span.stop ≤ last.span.stop := by
  rcases List.mem_append.mp hb with hb | hb
  · have := (List.pairwise_append.mp h).2.2 b hb last (List.mem_singleton_self last)
    exact this.trans hlast
  · rw [List.mem_singleton.mp hb]

/-! ## Inner spans -/

/-- What stands on the line after a block, without the line terminator. -/
def margin (source : List Char) (b : Block) : List Char :=
  dropEndWhile isLineEnd (((dropBytes? b.span.stop source).getD []).takeWhile (· != '\n'))

/-- The content of a block runs on into the blanks that follow the block on its line. That of a
heading does when the heading consists of marks only and blanks follow. That of a field does when
the field is one line and either has no value but blanks after its colon, or is followed by a
blank that is neither a space nor a tab. -/
def Overhangs (source : List Char) (b : Block) : Prop :=
  match b.kind with
  | .header => (∀ c ∈ b.text.toList, c = '#') ∧ margin source b ≠ []
  | .metadataField =>
    '\n' ∉ b.text.toList ∧
      if b.text.toList.dropWhile (· != ':') = [':'] then margin source b ≠ []
      else ∃ c ∈ margin source b, isIndent c = false
  | _ => False

/-- The inner spans are cut out of the source, and lie within the block unless it overhangs. The
content of a block that overhangs is not the text of the block. -/
structure InnerFits (source : List Char) (b : Block) : Prop where
  content : ∀ s, b.content = some s → ∃ cs, slice? source s = some cs ∧
    b.span.start ≤ s.start ∧ (s.stop ≤ b.span.stop ↔ ¬ b.Overhangs source) ∧
    (b.Overhangs source → cs ≠ b.text.toList)
  target : ∀ s, b.target = some s → (∃ cs, slice? source s = some cs) ∧
    b.span.start ≤ s.start ∧ s.stop ≤ b.span.stop

/-- A block as the builders leave it: it fits its source, and no section is known yet. -/
structure Sound (source : List Char) (b : Block) : Prop extends
    Fits source b, InnerFits source b where
  noRegion : b.region = none

theorem innerFits_of_none {b : Block} (hc : b.content = none) (ht : b.target = none) :
    b.InnerFits source :=
  ⟨fun s hs => by simp [hc] at hs, fun s hs => by simp [ht] at hs⟩

/-- Inner spans that do lie within a block that does not overhang. -/
theorem innerFits_of_within {b : Block} (h : ¬ b.Overhangs source)
    (hcontent : ∀ s, b.content = some s → (∃ cs, slice? source s = some cs) ∧
      b.span.start ≤ s.start ∧ s.stop ≤ b.span.stop)
    (htarget : ∀ s, b.target = some s → (∃ cs, slice? source s = some cs) ∧
      b.span.start ≤ s.start ∧ s.stop ≤ b.span.stop) : b.InnerFits source := by
  refine ⟨fun s hs => ?_, htarget⟩
  obtain ⟨⟨cs, hcs⟩, hstart, hstop⟩ := hcontent s hs
  exact ⟨cs, hcs, hstart, iff_of_true hstop h, fun hover => absurd hover h⟩

/-- Content that is cut at two boundaries within a block that does not overhang. -/
theorem innerFits_of_boundaries {b : Block} {m n : Nat} (h : ¬ b.Overhangs source)
    (hcontent : b.content = some ⟨m, n⟩) (htarget : b.target = none) (hm : Boundary source m)
    (hn : Boundary source n) (hstart : b.span.start ≤ m) (hle : m ≤ n) (hstop : n ≤ b.span.stop) :
    b.InnerFits source := by
  refine innerFits_of_within h ?_ (by simp [htarget])
  intro s hs
  rw [hcontent] at hs
  obtain rfl := Option.some.inj hs
  exact ⟨⟨_, hm.slice?_eq hn hle⟩, hstart, hstop⟩

/-- A block that is neither a heading nor a field never overhangs. -/
theorem not_overhangs {b : Block} (h1 : b.kind ≠ .header) (h2 : b.kind ≠ .metadataField) :
    ¬ b.Overhangs source := by
  unfold Overhangs
  split
  · next hk => exact absurd hk h1
  · next hk => exact absurd hk h2
  · exact id

/-! ## Laid out blocks -/

/-- The blocks are sound at every depth, in document order, and lie between two offsets. -/
structure Laid (source : List Char) (lo hi : Nat) (blocks : List Block) : Prop where
  sound : Throughout (Sound source) blocks
  inOrder : InDocumentOrder blocks
  within : Within lo hi blocks

namespace Laid

variable {lo mid hi lo' hi' : Nat} {a b blocks : List Block}

theorem nil (source : List Char) (lo hi : Nat) : Laid source lo hi [] :=
  ⟨throughout_nil, List.Pairwise.nil, within_nil lo hi⟩

theorem weaken (h : Laid source lo hi blocks) (hlo : lo' ≤ lo) (hhi : hi ≤ hi') :
    Laid source lo' hi' blocks :=
  ⟨h.sound, h.inOrder, h.within.weaken hlo hhi⟩

/-- Blocks that stop by an offset, then blocks that start from there on. -/
theorem append_of_within (ha : Laid source lo hi a) (hmid : Within lo mid a)
    (hb : Laid source mid hi b) (hlo : lo ≤ mid) : Laid source lo hi (a ++ b) :=
  ⟨throughout_append.mpr ⟨ha.sound, hb.sound⟩, ha.inOrder.append hb.inOrder hmid hb.within,
    ha.within.append (hb.within.weaken hlo (Nat.le_refl hi))⟩

theorem append (ha : Laid source lo mid a) (hb : Laid source mid hi b) (hlo : lo ≤ mid)
    (hhi : mid ≤ hi) : Laid source lo hi (a ++ b) :=
  (ha.weaken (Nat.le_refl lo) hhi).append_of_within ha.within hb hlo

/-- A block that is cut out of its source around blocks that are laid out within it. -/
theorem singleton {block : Block} {start stop : Nat} (hspan : block.span = ⟨start, stop⟩)
    (htext : block.text = String.ofList (slice source ⟨start, stop⟩))
    (hstart : Boundary source start) (hstop : Boundary source stop) (hle : start ≤ stop)
    (hchildren : Laid source start stop block.children) (hinner : block.InnerFits source)
    (hregion : block.region = none) : Laid source start stop [block] := by
  have hfits : block.Fits source := by
    refine ⟨?_, ?_, hchildren.inOrder⟩
    · rw [hspan, htext, String.toList_ofList]
      exact hstart.slice?_eq hstop hle
    · rw [hspan]
      exact hchildren.within
  refine ⟨?_, inDocumentOrder_singleton block, ?_⟩
  · exact throughout_cons.mpr ⟨⟨hfits, hinner, hregion⟩, hchildren.sound, throughout_nil⟩
  · refine within_cons.mpr ⟨?_, within_nil start stop⟩
    rw [hspan]
    exact ⟨Nat.le_refl start, Nat.le_refl stop⟩

/-- The blocks before the last one stop where that starts. -/
theorem before_last {last : Block} (h : Laid source lo hi (a ++ [last])) :
    Laid source lo last.span.start a := by
  refine ⟨(throughout_append.mp h.sound).1, (List.pairwise_append.mp h.inOrder).1, ?_⟩
  intro b hb
  refine ⟨(h.within b (List.mem_append_left [last] hb)).1, ?_⟩
  exact (List.pairwise_append.mp h.inOrder).2.2 b hb last (List.mem_singleton_self last)

theorem sound_of_mem (h : Laid source lo hi blocks) {x : Block} (hx : x ∈ blocks) :
    x.Sound source :=
  (h.sound.of_mem hx).1

end Laid

end ArticleAudit.Block
