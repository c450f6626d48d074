import ArticleAudit.Proofs.Block.Nesting

/-!
# Sections fit the blocks

Assigning sections changes neither what siblings are nor where they stand (`map_assignRegions`). In
blocks that are laid out every section starts with its heading, reaches over the whole heading and
ends on a character boundary (`placed_assignRegions`).
-/

set_option autoImplicit false

namespace ArticleAudit.Block

open ArticleAudit.Text

variable {source : List Char}

/-- What a block is and where it stands. -/
def site (b : Block) : BlockKind × Span :=
  (b.kind, b.span)

/-- The block with its section, or with sections inside it, given its later siblings. -/
def place (limit : Nat) (b : Block) (later : List Block) : Block :=
  match b.kind with
  | .header => { b with region := some ⟨b.span.start, regionStop b.level limit later⟩ }
  | .zonePivot => { b with children := assignRegions b.span.stop b.children }
  | _ => b

theorem assignRegions_cons (limit : Nat) (b : Block) (later : List Block) :
    assignRegions limit (b :: later) = place limit b later :: assignRegions limit later := by
  rw [assignRegions]
  rfl

theorem assignRegions_nil (limit : Nat) : assignRegions limit [] = [] := by
  rw [assignRegions]

theorem site_place (limit : Nat) (b : Block) (later : List Block) :
    (place limit b later).site = b.site := by
  unfold place
  split <;> rfl

theorem kind_place (limit : Nat) (b : Block) (later : List Block) :
    (place limit b later).kind = b.kind :=
  congrArg Prod.fst (site_place limit b later)

/-- Sections change neither kinds nor spans of siblings. -/
theorem map_assignRegions (limit : Nat) (blocks : List Block) :
    (assignRegions limit blocks).map site = blocks.map site := by
  induction blocks with
  | nil => rw [assignRegions_nil]
  | cons b later ih =>
    rw [assignRegions_cons, List.map_cons, List.map_cons, site_place, ih]

/-- A sibling has its counterpart after sections are assigned. -/
theorem exists_mem_assignRegions (limit : Nat) {blocks : List Block} {b : Block} (hb : b ∈ blocks) :
    ∃ b' ∈ assignRegions limit blocks, b'.site = b.site := by
  have hsite : b.site ∈ (assignRegions limit blocks).map site := by
    rw [map_assignRegions limit]
    exact List.mem_map_of_mem hb
  exact List.mem_map.mp hsite

/-- A sibling had its counterpart before sections were assigned. -/
theorem exists_mem_of_mem_assignRegions {limit : Nat} {blocks : List Block} {b : Block}
    (hb : b ∈ assignRegions limit blocks) : ∃ b' ∈ blocks, b'.site = b.site := by
  have hsite : b.site ∈ blocks.map site := by
    rw [← map_assignRegions limit]
    exact List.mem_map_of_mem hb
  exact List.mem_map.mp hsite

theorem within_assignRegions {lo hi : Nat} (limit : Nat) {blocks : List Block}
    (h : Within lo hi blocks) : Within lo hi (assignRegions limit blocks) := by
  intro b hb
  obtain ⟨b', hb', heq⟩ := exists_mem_of_mem_assignRegions hb
  have hspan : b'.span = b.span := (Prod.mk.inj heq).2
  rw [← hspan]
  exact h b' hb'

theorem inDocumentOrder_assignRegions (limit : Nat) {blocks : List Block}
    (h : InDocumentOrder blocks) : InDocumentOrder (assignRegions limit blocks) := by
  have hsites : (blocks.map site).Pairwise fun a b => a.2.stop ≤ b.2.start :=
    List.pairwise_map.mpr h
  rw [← map_assignRegions limit] at hsites
  exact List.pairwise_map.mp hsites

/-- What a section does not change holds throughout blocks that have got their sections. -/
theorem throughout_assignRegions {P : Block → Prop}
    (hplace : ∀ limit b later, P b → P (place limit b later)) {blocks : List Block}
    (h : Throughout P blocks) (limit : Nat) : Throughout P (assignRegions limit blocks) := by
  induction limit, blocks using assignRegions.induct with
  | case1 limit =>
    rw [assignRegions_nil]
    exact throughout_nil
  | case2 limit b later ihchildren ihlater =>
    obtain ⟨hb, hchildren, hlater⟩ := throughout_cons.mp h
    rw [assignRegions_cons]
    refine throughout_cons.mpr ⟨hplace limit b later hb, ?_, ihlater hlater⟩
    unfold place
    split
    · exact hchildren
    · exact ihchildren hchildren
    · exact hchildren

/-! ## Placed blocks -/

/-- A block as segmentation leaves it: it fits its source, and so does its section. -/
structure Placed (source : List Char) (b : Block) : Prop extends
    Fits source b, InnerFits source b where
  region : ∀ r, b.region = some r → r.start = b.span.start ∧ b.span.stop ≤ r.stop ∧
    Boundary source r.stop

theorem Sound.placed {b : Block} (h : b.Sound source) : b.Placed source :=
  ⟨h.toFits, h.toInnerFits, fun r hr => by simp [h.noRegion] at hr⟩

/-- The section of a heading ends at a later sibling or at the limit. -/
theorem regionStop_spec {lo limit level : Nat} {b : Block} {later : List Block}
    (h : Laid source lo limit (b :: later)) (hlimit : Boundary source limit) :
    b.span.stop ≤ regionStop level limit later ∧
      Boundary source (regionStop level limit later) := by
  unfold regionStop
  split
  · next next hnext =>
    have hmem := List.mem_of_find?_eq_some hnext
    exact ⟨(List.pairwise_cons.mp h.inOrder).1 next hmem,
      (h.sound_of_mem (List.mem_cons_of_mem b hmem)).boundary_start⟩
  · exact ⟨(h.within b List.mem_cons_self).2, hlimit⟩

theorem Laid.tail {lo hi : Nat} {b : Block} {later : List Block}
    (h : Laid source lo hi (b :: later)) : Laid source lo hi later :=
  ⟨(throughout_cons.mp h.sound).2.2, (List.pairwise_cons.mp h.inOrder).2,
    (within_cons.mp h.within).2⟩

theorem Laid.children {lo hi : Nat} {b : Block} {later : List Block}
    (h : Laid source lo hi (b :: later)) : Laid source b.span.start b.span.stop b.children :=
  ⟨(throughout_cons.mp h.sound).2.1, (throughout_cons.mp h.sound).1.inOrder,
    (throughout_cons.mp h.sound).1.within⟩

/-- Blocks that are laid out are placed when they have got their sections. -/
theorem placed_assignRegions {lo limit : Nat} {blocks : List Block}
    (h : Laid source lo limit blocks) (hlimit : Boundary source limit) :
    Throughout (Placed source) (assignRegions limit blocks) := by
  induction limit, blocks using assignRegions.induct generalizing lo with
  | case1 limit =>
    rw [assignRegions_nil]
    exact throughout_nil
  | case2 limit b later ihchildren ihlater =>
    have hsound := (throughout_cons.mp h.sound).1
    have hchildren := (throughout_cons.mp h.sound).2.1.mono fun _ => Sound.placed
    rw [assignRegions_cons, throughout_cons]
    refine ⟨?_, ?_, ihlater h.tail hlimit⟩
    · unfold place
      split
      · refine ⟨⟨hsound.text, hsound.within, hsound.inOrder⟩,
          ⟨hsound.content, hsound.target⟩, ?_⟩
        intro r hr
        obtain rfl := Option.some.inj hr
        obtain ⟨hle, hboundary⟩ : b.span.stop ≤ regionStop b.level limit later ∧
            Boundary source (regionStop b.level limit later) := regionStop_spec h hlimit
        exact ⟨rfl, hle, hboundary⟩
      · exact ⟨⟨hsound.text, within_assignRegions _ hsound.within,
          inDocumentOrder_assignRegions _ hsound.inOrder⟩, ⟨hsound.content, hsound.target⟩,
          hsound.placed.region⟩
      · exact hsound.placed
    · unfold place
      split
      · exact hchildren
      · exact ihchildren h.children hsound.boundary_stop
      · exact hchildren

end ArticleAudit.Block
