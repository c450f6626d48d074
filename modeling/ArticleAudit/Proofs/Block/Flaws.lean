import ArticleAudit.Block.Geometry
import ArticleAudit.Proofs.Block.Sections

/-!
# Flaws of a forest

The search for flaws answers nothing exactly when the blocks follow one another within the source
and none of them, at any depth, breaks a rule (`firstFlaw?_eq_none_iff`): they fit the source, their
inner spans lie within them, and their sections start with them. Blocks that are placed break no
rule but one: content that overhangs lies outside of its block (`Placed.flawless_iff`).
-/

set_option autoImplicit false

namespace ArticleAudit.Block

open ArticleAudit.Text

variable {source : List Char}

/-- A block that breaks no rule: it fits its source, its inner spans lie within it, and its section
starts with it and ends within the source. -/
structure Flawless (source : List Char) (b : Block) : Prop extends Fits source b where
  inner : ∀ s, b.content = some s ∨ b.target = some s → b.span.contains s = true
  region : ∀ r, b.region = some r → r.start = b.span.start ∧ r.isValidFor (byteSize source) = true

theorem innerFlaw?_eq_none_iff {b : Block} :
    b.innerFlaw? = none ↔
      ∀ s, b.content = some s ∨ b.target = some s → b.span.contains s = true := by
  simp [innerFlaw?, List.find?_eq_none, or_imp, forall_and]

theorem regionFlaw?_eq_none_iff {size : Nat} {b : Block} :
    b.regionFlaw? size = none ↔
      ∀ r, b.region = some r → r.start = b.span.start ∧ r.isValidFor size = true := by
  simp [regionFlaw?, Option.filter_eq_none_iff, and_comm]

theorem orElse_eq_none_iff {first : Option Flaw} {second : Unit → Option Flaw} :
    first.orElse second = none ↔ first = none ∧ second () = none := by
  cases first <;> simp

theorem ite_some_eq_none_iff {p : Prop} [Decidable p] {flaw : Flaw} {rest : Option Flaw} :
    (if p then some flaw else rest) = none ↔ ¬ p ∧ rest = none := by
  split <;> simp [*]

/-- A block has no flaw of its own when it stands within its parent behind its sibling, has the text
of its span, and its inner spans and its section are where they should be. -/
theorem ownFlaw?_eq_none_iff {parent : Span} {previousStop : Nat} {b : Block} :
    ownFlaw? source parent previousStop b = none ↔
      parent.contains b.span = true ∧ previousStop ≤ b.span.start ∧
        slice? source b.span = some b.text.toList ∧
        b.innerFlaw? = none ∧ b.regionFlaw? (byteSize source) = none := by
  simp only [ownFlaw?, ite_some_eq_none_iff, orElse_eq_none_iff, Bool.not_eq_true',
    Bool.not_eq_false, Nat.not_lt, bne_iff_ne, ne_eq, not_not]
  constructor
  · rintro ⟨-, hrest⟩
    exact hrest
  · rintro ⟨hparent, hprevious, htext, hrest⟩
    exact ⟨isValidFor_of_slice? htext, hparent, hprevious, htext, hrest⟩

theorem flaw?_eq_none_iff {parent : Span} {previousStop : Nat} {b : Block} :
    flaw? source parent previousStop b = none ↔
      ownFlaw? source parent previousStop b = none ∧
        flawAmong? source b.span b.span.start b.children = none := by
  obtain ⟨kind, span, text, level, tag, content, target, region, children⟩ := b
  rw [flaw?, orElse_eq_none_iff]

/-- Siblings have no flaw when they follow one another behind an offset of their parent, and no
block among them or below them breaks a rule. -/
theorem flawAmong?_eq_none_iff {parent : Span} {previousStop : Nat} {blocks : List Block}
    (hstart : parent.start ≤ previousStop) :
    flawAmong? source parent previousStop blocks = none ↔
      Within previousStop parent.stop blocks ∧ InDocumentOrder blocks ∧
        Throughout (Flawless source) blocks := by
  induction blocks using forest_induction generalizing parent previousStop with
  | nil => simp [flawAmong?, Within, InDocumentOrder]
  | cons b rest ihchildren ihrest =>
    rw [flawAmong?, orElse_eq_none_iff, flaw?_eq_none_iff, ownFlaw?_eq_none_iff,
      ihchildren (Nat.le_refl _), throughout_cons, within_cons, innerFlaw?_eq_none_iff,
      regionFlaw?_eq_none_iff, Span.contains_iff]
    constructor
    -- The search passes on where the block stops, and from there on lie the siblings behind it.
    · rintro ⟨⟨⟨⟨hlo, hhi⟩, hprevious, htext, hinner, hregion⟩, hwithin, horder, hchildren⟩, hrest⟩
      have hfits : b.Fits source := ⟨htext, hwithin, horder⟩
      have hle := hfits.start_le_stop
      obtain ⟨hbehind, horderRest, hthroughout⟩ := (ihrest (by omega)).mp hrest
      refine ⟨⟨⟨hprevious, hhi⟩, hbehind.weaken (by omega) (Nat.le_refl _)⟩, ?_,
        ⟨hfits, hinner, hregion⟩, hchildren, hthroughout⟩
      exact List.pairwise_cons.mpr ⟨fun c hc => (hbehind c hc).1, horderRest⟩
    · rintro ⟨⟨⟨hprevious, hhi⟩, hwithin⟩, horder, hflawless, hchildren, hthroughout⟩
      have hle := hflawless.start_le_stop
      obtain ⟨hbehind, horderRest⟩ := List.pairwise_cons.mp horder
      refine ⟨⟨⟨⟨by omega, hhi⟩, hprevious, hflawless.text, hflawless.inner, hflawless.region⟩,
        hflawless.within, hflawless.inOrder, hchildren⟩, (ihrest (by omega)).mpr ⟨?_, horderRest,
        hthroughout⟩⟩
      exact fun c hc => ⟨hbehind c hc, (hwithin c hc).2⟩

/-- A forest has no flaw exactly when its blocks lie within the source in order and break no
rule. -/
theorem firstFlaw?_eq_none_iff {blocks : List Block} :
    firstFlaw? source blocks = none ↔
      Within 0 (byteSize source) blocks ∧ InDocumentOrder blocks ∧
        Throughout (Flawless source) blocks :=
  flawAmong?_eq_none_iff (Nat.le_refl 0)

/-- A placed block breaks no rule unless it has content that overhangs. -/
theorem Placed.flawless_iff {b : Block} (h : b.Placed source) :
    b.Flawless source ↔ (b.content.isSome = true → ¬ b.Overhangs source) := by
  constructor
  · intro hflawless hcontent
    obtain ⟨s, hs⟩ := Option.isSome_iff_exists.mp hcontent
    obtain ⟨cs, -, -, hstop, -⟩ := h.content s hs
    exact hstop.mp (Span.contains_iff.mp (hflawless.inner s (.inl hs))).2
  · intro hover
    refine ⟨h.toFits, ?_, ?_⟩
    · rintro s (hs | hs)
      · obtain ⟨cs, -, hstart, hstop, -⟩ := h.content s hs
        have hsome : b.content.isSome = true := by rw [hs]; rfl
        exact Span.contains_iff.mpr ⟨hstart, hstop.mpr (hover hsome)⟩
      · exact Span.contains_iff.mpr (h.target s hs).2
    · intro r hr
      obtain ⟨hstart, hstop, hboundary⟩ := h.region r hr
      have hle := h.start_le_stop
      exact ⟨hstart, Span.isValidFor_iff.mpr ⟨by omega, hboundary.le⟩⟩

end ArticleAudit.Block
