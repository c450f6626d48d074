import ArticleAudit.Proofs.Block.Sections

/-!
# Sections as a family

The sections of sibling headings form a laminar family: of two of them the later one starts after
the earlier one, or lies inside it below a deeper heading. `Sectioned` says so, together with where
exactly each section ends, of siblings that have got their sections. Siblings that are laid out have
it (`sectioned_assignRegions`), and when headings and zones are lodged in zones only, so do the
blocks in every zone, and no other block has a section (`wellSectioned_assignRegions`).
-/

set_option autoImplicit false

namespace ArticleAudit.Block

open ArticleAudit.Text

variable {source : List Char} {P : Block → Prop} {limit level : Nat}

/-! ## Forests -/

/-- What holds throughout a forest holds throughout the children of each of its blocks. -/
theorem Throughout.children {blocks : List Block} (h : Throughout P blocks) :
    Throughout (fun b => Throughout P b.children) blocks := by
  induction blocks using forest_induction with
  | nil => exact throughout_nil
  | cons b rest hchildren hrest =>
    obtain ⟨-, hb, htail⟩ := throughout_cons.mp h
    exact throughout_cons.mpr ⟨hb, hchildren hb, hrest htail⟩

/-- The children of a block of the forest are blocks of the forest. -/
theorem mem_preorderAll_of_mem_children {blocks : List Block} {b c : Block}
    (hb : b ∈ preorderAll blocks) (hc : c ∈ b.children) : c ∈ preorderAll blocks := by
  have hall : Throughout (· ∈ preorderAll blocks) blocks := fun _ h => h
  exact ((hall.children b hb).of_mem hc).1

/-! ## Where sections end -/

/-- Siblings in order, each of which stops by a limit and not before it starts. -/
structure Ordered (limit : Nat) (blocks : List Block) : Prop where
  inOrder : InDocumentOrder blocks
  start_le_stop : ∀ b ∈ blocks, b.span.start ≤ b.span.stop
  stop_le : ∀ b ∈ blocks, b.span.stop ≤ limit

theorem Laid.ordered {lo : Nat} {blocks : List Block} (h : Laid source lo limit blocks) :
    Ordered limit blocks :=
  ⟨h.inOrder, fun _ hb => (h.sound_of_mem hb).start_le_stop, fun b hb => (h.within b hb).2⟩

theorem Ordered.assignRegions {limit' : Nat} {blocks : List Block} (h : Ordered limit blocks) :
    Ordered limit (assignRegions limit' blocks) := by
  refine ⟨inDocumentOrder_assignRegions limit' h.inOrder, ?_, ?_⟩
  · intro b hb
    obtain ⟨b', hb', hsite⟩ := exists_mem_of_mem_assignRegions hb
    rw [← (Prod.mk.inj hsite).2]
    exact h.start_le_stop b' hb'
  · intro b hb
    obtain ⟨b', hb', hsite⟩ := exists_mem_of_mem_assignRegions hb
    rw [← (Prod.mk.inj hsite).2]
    exact h.stop_le b' hb'

namespace Ordered

variable {b c : Block} {before later : List Block}

theorem filter {blocks : List Block} (h : Ordered limit blocks) (p : Block → Bool) :
    Ordered limit (blocks.filter p) :=
  ⟨h.inOrder.filter p, fun b hb => h.start_le_stop b (List.mem_filter.mp hb).1,
    fun b hb => h.stop_le b (List.mem_filter.mp hb).1⟩

theorem tail (h : Ordered limit (b :: later)) : Ordered limit later :=
  ⟨(List.pairwise_cons.mp h.inOrder).2, fun c hc => h.start_le_stop c (List.mem_cons_of_mem b hc),
    fun c hc => h.stop_le c (List.mem_cons_of_mem b hc)⟩

theorem right (h : Ordered limit (before ++ later)) : Ordered limit later :=
  ⟨(List.pairwise_append.mp h.inOrder).2.1,
    fun c hc => h.start_le_stop c (List.mem_append_right before hc),
    fun c hc => h.stop_le c (List.mem_append_right before hc)⟩

/-- A section reaches over its heading. -/
theorem stop_le_regionStop (h : Ordered limit (b :: later)) :
    b.span.stop ≤ regionStop level limit later := by
  unfold regionStop
  split
  · next next hnext =>
    exact (List.pairwise_cons.mp h.inOrder).1 next (List.mem_of_find?_eq_some hnext)
  · exact h.stop_le b List.mem_cons_self

/-- A section ends by the start of every later heading that ends it. -/
theorem regionStop_le (h : Ordered limit later) (hc : c ∈ later)
    (hends : endsRegion level c = true) : regionStop level limit later ≤ c.span.start := by
  obtain ⟨before, after, rfl⟩ := List.append_of_mem hc
  unfold regionStop
  rw [List.find?_append, List.find?_cons_of_pos hends]
  cases hfind : before.find? (endsRegion level) with
  | none => exact Nat.le_refl _
  | some next =>
    have hnext := List.mem_of_find?_eq_some hfind
    have hstop := (List.pairwise_append.mp h.inOrder).2.2 next hnext c List.mem_cons_self
    exact (h.start_le_stop next (List.mem_append_left _ hnext)).trans hstop

/-- The section of a deeper heading ends no later. -/
theorem regionStop_anti {level' : Nat} (h : Ordered limit later) (hlevel : level ≤ level') :
    regionStop level' limit later ≤ regionStop level limit later := by
  cases hfind : later.find? (endsRegion level) with
  | some next =>
    have hends : endsRegion level' next = true := by
      have := List.find?_some hfind
      simp only [endsRegion, Bool.and_eq_true, decide_eq_true_eq] at this ⊢
      exact ⟨this.1, this.2.trans hlevel⟩
    have hstop : regionStop level limit later = next.span.start := by
      simp [regionStop, hfind]
    rw [hstop]
    exact h.regionStop_le (List.mem_of_find?_eq_some hfind) hends
  | none =>
    have hstop : regionStop level limit later = limit := by
      simp [regionStop, hfind]
    rw [hstop]
    unfold regionStop
    split
    · next next hnext =>
      have hmem := List.mem_of_find?_eq_some hnext
      exact (h.start_le_stop next hmem).trans (h.stop_le next hmem)
    · exact Nat.le_refl limit

end Ordered

/-- Siblings that do not end a section are passed over. -/
theorem regionStop_append {before later : List Block}
    (h : ∀ c ∈ before, endsRegion level c = false) :
    regionStop level limit (before ++ later) = regionStop level limit later := by
  have hnone : before.find? (endsRegion level) = none := by
    rw [List.find?_eq_none]
    intro c hc
    simp [h c hc]
  rw [regionStop, List.find?_append, hnone]
  rfl

/-- A section ends at the first later heading that ends it, and at the limit if there is none. -/
theorem regionStop_cases (level limit : Nat) (later : List Block) :
    (∃ between next rest, later = between ++ next :: rest ∧ endsRegion level next = true ∧
      (∀ c ∈ between, endsRegion level c = false) ∧
      regionStop level limit later = next.span.start) ∨
    ((∀ c ∈ later, endsRegion level c = false) ∧ regionStop level limit later = limit) := by
  unfold regionStop
  cases hfind : later.find? (endsRegion level) with
  | none =>
    refine Or.inr ⟨?_, rfl⟩
    simpa using hfind
  | some next =>
    obtain ⟨hends, between, rest, hlater, hbetween⟩ := List.find?_eq_some_iff_append.mp hfind
    refine Or.inl ⟨between, next, rest, hlater, hends, ?_, rfl⟩
    simpa using hbetween

theorem endsRegion_iff {b : Block} :
    endsRegion level b = true ↔ b.kind = .header ∧ b.level ≤ level := by
  simp [endsRegion]

theorem endsRegion_eq_false_iff {b : Block} :
    endsRegion level b = false ↔ (b.kind = .header → level < b.level) := by
  simp [endsRegion]

/-! ## The family -/

/-- The sections of siblings below a limit. The section of a heading starts at the heading, reaches
over the whole of it, and ends at the first later heading of the same or a smaller level, or at the
limit if there is none. Of two headings the later one starts at the end of the earlier one's section
or after it, or is deeper and has its section inside the earlier one's. -/
structure Sectioned (limit : Nat) (siblings : List Block) : Prop where
  section_ends : ∀ before b later, siblings = before ++ b :: later → b.kind = .header →
    ∃ stop, b.region = some ⟨b.span.start, stop⟩ ∧ b.span.stop ≤ stop ∧
      ((∃ between next rest, later = between ++ next :: rest ∧
          next.kind = .header ∧ next.level ≤ b.level ∧
          (∀ c ∈ between, c.kind = .header → b.level < c.level) ∧ stop = next.span.start) ∨
        ((∀ c ∈ later, c.kind = .header → b.level < c.level) ∧ stop = limit))
  laminar : siblings.Pairwise fun a b => a.kind = .header → b.kind = .header →
    ∃ r s, a.region = some r ∧ b.region = some s ∧
      (r.stop ≤ b.span.start ∨ (a.level < b.level ∧ r.contains s = true))

theorem sectioned_of_no_header {siblings : List Block} (h : ∀ b ∈ siblings, b.kind ≠ .header) :
    Sectioned limit siblings := by
  refine ⟨?_, ?_⟩
  · rintro before b later rfl hb
    exact absurd hb (h b (List.mem_append_right before List.mem_cons_self))
  · exact List.pairwise_of_forall_mem_list fun a ha b _ hka _ => absurd hka (h a ha)

/-- The headings among blocks. -/
def headersOf (blocks : List Block) : List Block :=
  blocks.filter fun b => b.kind == .header

theorem mem_headersOf {blocks : List Block} {b : Block} :
    b ∈ headersOf blocks ↔ b ∈ blocks ∧ b.kind = .header := by
  simp [headersOf]

theorem headersOf_append (a b : List Block) :
    headersOf (a ++ b) = headersOf a ++ headersOf b :=
  List.filter_append a b

/-- The headings among siblings are a family by themselves. -/
theorem Sectioned.headers {siblings : List Block} (h : Sectioned limit siblings) :
    Sectioned limit (headersOf siblings) := by
  refine ⟨?_, h.laminar.filter _⟩
  intro before b later heq hb
  obtain ⟨before', after', rfl, -, hafter⟩ := List.filter_eq_append_iff.mp heq
  obtain ⟨between', later', rfl, -, -, rfl⟩ := List.filter_eq_cons_iff.mp hafter
  obtain ⟨stop, hregion, hstop, hends⟩ :=
    h.section_ends (before' ++ between') b later' (List.append_assoc ..).symm hb
  refine ⟨stop, hregion, hstop, ?_⟩
  rcases hends with ⟨between, next, rest, rfl, hnext, hlevel, hbetween, rfl⟩ | ⟨hnone, rfl⟩
  · have hlater : headersOf (between ++ next :: rest) =
        headersOf between ++ next :: headersOf rest := by
      rw [headersOf_append]
      congr 1
      exact List.filter_cons_of_pos (beq_iff_eq.mpr hnext)
    exact Or.inl ⟨headersOf between, next, headersOf rest, hlater, hnext, hlevel,
      fun c hc => hbetween c (mem_headersOf.mp hc).1, rfl⟩
  · exact Or.inr ⟨fun c hc => hnone c (mem_headersOf.mp hc).1, rfl⟩

/-- Each heading has the section that its later siblings determine. -/
def Headed (limit : Nat) (siblings : List Block) : Prop :=
  ∀ before b later, siblings = before ++ b :: later → b.kind = .header →
    b.region = some ⟨b.span.start, regionStop b.level limit later⟩

theorem headed_cons {b : Block} {later : List Block}
    (hb : b.kind = .header → b.region = some ⟨b.span.start, regionStop b.level limit later⟩)
    (h : Headed limit later) : Headed limit (b :: later) := by
  intro before c after heq hc
  cases before with
  | nil =>
    obtain ⟨rfl, rfl⟩ := List.cons.inj heq
    exact hb hc
  | cons first before =>
    obtain ⟨-, hlater⟩ := List.cons.inj heq
    exact h before c after hlater hc

theorem Headed.tail {b : Block} {later : List Block} (h : Headed limit (b :: later)) :
    Headed limit later := by
  rintro before c after rfl hc
  exact h (b :: before) c after rfl hc

theorem level_place (limit : Nat) (b : Block) (later : List Block) :
    (place limit b later).level = b.level := by
  unfold place
  split <;> rfl

/-- Sections are determined by what assigning them does not change. -/
theorem regionStop_assignRegions (level limit limit' : Nat) (later : List Block) :
    regionStop level limit (assignRegions limit' later) = regionStop level limit later := by
  induction later with
  | nil => rw [assignRegions_nil]
  | cons b rest ih =>
    rw [assignRegions_cons]
    have hends : endsRegion level (place limit' b rest) = endsRegion level b := by
      rw [endsRegion, kind_place, level_place]
      rfl
    have hspan : (place limit' b rest).span = b.span := (Prod.mk.inj (site_place limit' b rest)).2
    cases hb : endsRegion level b with
    | true =>
      rw [hb] at hends
      simp only [regionStop, List.find?_cons_of_pos hends, List.find?_cons_of_pos hb, hspan]
    | false =>
      have hplaced : regionStop level limit (place limit' b rest :: assignRegions limit' rest) =
          regionStop level limit (assignRegions limit' rest) :=
        regionStop_append (List.forall_mem_singleton.mpr (hends.trans hb))
      have hpassed : regionStop level limit (b :: rest) = regionStop level limit rest :=
        regionStop_append (List.forall_mem_singleton.mpr hb)
      exact hplaced.trans (ih.trans hpassed.symm)

theorem headed_assignRegions (limit : Nat) (blocks : List Block) :
    Headed limit (assignRegions limit blocks) := by
  induction blocks with
  | nil =>
    rw [assignRegions_nil]
    intro before b later heq
    simp at heq
  | cons b later ih =>
    rw [assignRegions_cons]
    refine headed_cons ?_ ih
    intro hkind
    rw [kind_place] at hkind
    rw [regionStop_assignRegions, level_place]
    simp [place, hkind]

/-- A section that is ended by a sibling, or by one of those before it, has ended where it
starts. -/
theorem Ordered.regionStop_le_start {before after : List Block} {b c : Block}
    (h : Ordered limit (before ++ b :: after)) (hc : c ∈ before ++ [b])
    (hends : endsRegion level c = true) :
    regionStop level limit (before ++ b :: after) ≤ b.span.start := by
  have hmem : c ∈ before ++ b :: after := by
    rw [List.append_cons]
    exact List.mem_append_left after hc
  refine (h.regionStop_le hmem hends).trans ?_
  rcases List.mem_append.mp hc with hc | hc
  · have hstop := (List.pairwise_append.mp h.inOrder).2.2 c hc b List.mem_cons_self
    exact (h.start_le_stop c hmem).trans hstop
  · rw [List.mem_singleton.mp hc]

/-- A section that runs on behind a sibling ends no earlier than that of a deeper heading there. -/
theorem Ordered.regionStop_le_of_passed {before after : List Block} {b : Block} {level' : Nat}
    (h : Ordered limit (before ++ b :: after))
    (hpassed : ∀ c ∈ before ++ [b], endsRegion level c = false) (hlevel : level ≤ level') :
    regionStop level' limit after ≤ regionStop level limit (before ++ b :: after) := by
  rw [List.append_cons, regionStop_append hpassed]
  exact h.right.tail.regionStop_anti hlevel

/-- Of two headings in order, the section of the later one is behind the earlier one's or in it. -/
theorem laminar_of_headed {siblings : List Block} (h : Headed limit siblings)
    (hordered : Ordered limit siblings) :
    siblings.Pairwise fun a b => a.kind = .header → b.kind = .header →
      ∃ r s, a.region = some r ∧ b.region = some s ∧
        (r.stop ≤ b.span.start ∨ (a.level < b.level ∧ r.contains s = true)) := by
  induction siblings with
  | nil => exact List.Pairwise.nil
  | cons a later ih =>
    refine List.Pairwise.cons ?_ (ih h.tail hordered.tail)
    intro b hb ha hheader
    obtain ⟨before, after, rfl⟩ := List.append_of_mem hb
    refine ⟨_, _, h [] a _ rfl ha, h.tail before b after rfl hheader, ?_⟩
    by_cases hends : ∃ c ∈ before ++ [b], endsRegion a.level c = true
    · -- A heading up to `b` ends the section of `a`.
      obtain ⟨c, hc, hends⟩ := hends
      exact Or.inl (hordered.tail.regionStop_le_start hc hends)
    · -- The section of `a` runs on behind `b`, which is deeper and ends no later.
      have hpassed : ∀ c ∈ before ++ [b], endsRegion a.level c = false := by
        intro c hc
        by_contra hne
        exact hends ⟨c, hc, by simpa using hne⟩
      have hlevel : a.level < b.level :=
        endsRegion_eq_false_iff.mp (hpassed b (by simp)) hheader
      have hstart : a.span.start ≤ b.span.start :=
        (hordered.start_le_stop a List.mem_cons_self).trans
          ((List.pairwise_cons.mp hordered.inOrder).1 b hb)
      have hstop := hordered.tail.regionStop_le_of_passed hpassed hlevel.le
      exact Or.inr ⟨hlevel, Span.contains_iff.mpr ⟨hstart, hstop⟩⟩

/-- Siblings that are laid out are a family of sections once they have got them. -/
theorem sectioned_assignRegions {blocks : List Block} (h : Ordered limit blocks) :
    Sectioned limit (assignRegions limit blocks) := by
  have hheaded := headed_assignRegions limit blocks
  have hordered : Ordered limit (assignRegions limit blocks) := h.assignRegions
  refine ⟨?_, laminar_of_headed hheaded hordered⟩
  intro before b later heq hkind
  have hafter : Ordered limit (b :: later) := by
    rw [heq] at hordered
    exact hordered.right
  refine ⟨_, hheaded before b later heq hkind, hafter.stop_le_regionStop, ?_⟩
  rcases regionStop_cases b.level limit later with
    ⟨between, next, rest, hlater, hnext, hbetween, hstop⟩ | ⟨hnone, hstop⟩
  · obtain ⟨hkind', hlevel⟩ := endsRegion_iff.mp hnext
    exact Or.inl ⟨between, next, rest, hlater, hkind', hlevel,
      fun c hc => endsRegion_eq_false_iff.mp (hbetween c hc), hstop⟩
  · exact Or.inr ⟨fun c hc => endsRegion_eq_false_iff.mp (hnone c hc), hstop⟩

/-! ## Every depth -/

/-- A block that is neither a heading nor a zone. -/
def Sectionless (b : Block) : Prop :=
  b.kind ≠ .header ∧ b.kind ≠ .zonePivot

/-- The block holds headings and zones only if it is a zone. -/
def Lodged (b : Block) : Prop :=
  b.kind ≠ .zonePivot → Throughout Sectionless b.children

theorem lodged_of_sectionless {blocks : List Block} (h : Throughout Sectionless blocks) :
    Throughout Lodged blocks :=
  h.children.mono fun _ hb _ => hb

/-- A block as it is among blocks with sections: exactly headings have one, those in a zone are a
family that ends with the zone, and no other block holds any. -/
structure WellSectioned (b : Block) : Prop where
  region_iff : b.region.isSome = true ↔ b.kind = .header
  zone : b.kind = .zonePivot → Sectioned b.span.stop b.children
  other : b.kind ≠ .zonePivot → ∀ c ∈ b.children, c.kind ≠ .header

theorem wellSectioned_of_sectionless {blocks : List Block} (h : Throughout Sectionless blocks)
    (hregion : Throughout (fun b => b.region = none) blocks) :
    Throughout WellSectioned blocks := by
  intro b hb
  have hkind := h b hb
  refine ⟨?_, fun hzone => absurd hzone hkind.2, ?_⟩
  · rw [hregion b hb]
    exact iff_of_false Bool.false_ne_true hkind.1
  · intro _ c hc
    exact ((h.children b hb).of_mem hc).1.1

/-- Without zones the headings at the top level are all there are. -/
theorem headersOf_preorderAll {blocks : List Block} (h : Throughout WellSectioned blocks)
    (hzone : ∀ b ∈ preorderAll blocks, b.kind ≠ .zonePivot) :
    headersOf (preorderAll blocks) = headersOf blocks := by
  induction blocks using forest_induction with
  | nil => rfl
  | cons b rest ihchildren ihrest =>
    obtain ⟨hb, hchildren, hrest⟩ := throughout_cons.mp h
    obtain ⟨hkind, hzoneChildren, hzoneRest⟩ := throughout_cons.mp hzone
    have hnone : headersOf b.children = [] := by
      rw [List.eq_nil_iff_forall_not_mem]
      intro c hc
      obtain ⟨hmem, hheader⟩ := mem_headersOf.mp hc
      exact hb.other hkind c hmem hheader
    have hpreorder : preorderAll (b :: rest) =
        [b] ++ (preorderAll b.children ++ preorderAll rest) := by
      simp [preorder_eq]
    rw [hpreorder, headersOf_append, headersOf_append, ihchildren hchildren hzoneChildren, hnone,
      List.nil_append, ihrest hrest hzoneRest, ← headersOf_append]
    rfl

/-- Blocks that are laid out, with headings and zones in zones only, are well sectioned when they
have got their sections. -/
theorem wellSectioned_assignRegions {lo : Nat} {blocks : List Block}
    (h : Laid source lo limit blocks) (hlodged : Throughout Lodged blocks) :
    Throughout WellSectioned (assignRegions limit blocks) := by
  induction limit, blocks using assignRegions.induct generalizing lo with
  | case1 limit =>
    rw [assignRegions_nil]
    exact throughout_nil
  | case2 limit b later ihchildren ihlater =>
    obtain ⟨hb, hinside, hlater⟩ := throughout_cons.mp hlodged
    have hregion := (throughout_cons.mp h.sound).1.noRegion
    -- What holds of the children of every block but a zone.
    have hother : b.kind ≠ .zonePivot → Throughout WellSectioned b.children ∧
        ∀ c ∈ b.children, c.kind ≠ .header := by
      intro hzone
      have hnone := (throughout_cons.mp h.sound).2.1.mono fun _ => Sound.noRegion
      exact ⟨wellSectioned_of_sectionless (hb hzone) hnone,
        fun c hc => ((hb hzone).of_mem hc).1.1⟩
    rw [assignRegions_cons, throughout_cons]
    refine ⟨?_, ?_, ihlater h.tail hlater⟩
    · unfold place
      split
      · next hkind =>
        refine ⟨iff_of_true rfl hkind, fun hzone => ?_, fun hzone => (hother hzone).2⟩
        exact absurd (hkind.symm.trans hzone) (by decide)
      · next hkind =>
        refine ⟨?_, fun _ => sectioned_assignRegions h.children.ordered,
          fun hzone => absurd hkind hzone⟩
        show b.region.isSome = true ↔ b.kind = .header
        rw [hregion, hkind]
        exact iff_of_false Bool.false_ne_true (by decide)
      · next hheader hzone =>
        refine ⟨?_, fun hkind => absurd hkind hzone, fun hkind => (hother hkind).2⟩
        rw [hregion]
        exact iff_of_false Bool.false_ne_true hheader
    · unfold place
      split
      · next hkind =>
        exact (hother (by rw [hkind]; decide)).1
      · exact ihchildren h.children hinside
      · next hzone => exact (hother hzone).1

end ArticleAudit.Block
