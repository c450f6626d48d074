import ArticleAudit.Proofs.Block.Sections

/-!
# Blocks in the order of their starts

The marks of a block are where it starts and where its target does. Several blocks may start at one
offset, as a list, its first item and a link in that item do; they are around one another, and their
kinds tell which one is around which. So a mark counts three steps for an offset, and a block takes
the step of its kind (`rank`). What builders prove of the blocks they make is `Rises`: the marks of
the pre-order rise strictly between two offsets. It follows that blocks of one kind start one after
the other in the pre-order, and so do targets (`Rises.pairwise`), also when sections have been
assigned (`marksOf_assignRegions`).

In the pre-order of a forest whose blocks fit their source, what comes after a block and its
descendants starts where the block has stopped or later (`exists_preorder_split`). If the forest
also rises, what comes before a block of the lowest rank starts before it. So whatever starts inside
such a block is the block or one of its descendants (`Rises.mem_preorder_of_start`).
-/

set_option autoImplicit false

namespace ArticleAudit

/-- The step of a kind among blocks that start at one offset. -/
def BlockKind.rank : BlockKind → Nat
  | .listItem | .tableColumn | .tableRowValue | .resourceType | .fileName | .metadataField => 1
  | .link | .resourceNamespace => 2
  | _ => 0

namespace Block

open ArticleAudit.Text

variable {source : List Char} {lo mid hi : Nat} {b : Block} {blocks rest : List Block}

theorem rank_le_two (kind : BlockKind) : kind.rank ≤ 2 := by
  cases kind <;> decide

/-! ## Numbers that rise -/

/-- The numbers rise strictly, from one bound on and below another one. -/
structure Rising (lo hi : Nat) (ns : List Nat) : Prop where
  increasing : ns.Pairwise (· < ·)
  within : ∀ n ∈ ns, lo ≤ n ∧ n < hi

namespace Rising

variable {lo' hi' n : Nat} {ns ms : List Nat}

theorem nil (lo hi : Nat) : Rising lo hi [] :=
  ⟨List.Pairwise.nil, nofun⟩

theorem weaken (h : Rising lo hi ns) (hlo : lo' ≤ lo) (hhi : hi ≤ hi') : Rising lo' hi' ns := by
  refine ⟨h.increasing, ?_⟩
  intro n hn
  obtain ⟨h1, h2⟩ := h.within n hn
  exact ⟨hlo.trans h1, Nat.lt_of_lt_of_le h2 hhi⟩

theorem cons (hlo : lo ≤ n) (hhi : n < hi) (h : Rising (n + 1) hi ns) : Rising lo hi (n :: ns) := by
  refine ⟨List.pairwise_cons.mpr ⟨fun m hm => (h.within m hm).1, h.increasing⟩, ?_⟩
  refine List.forall_mem_cons.mpr ⟨⟨hlo, hhi⟩, ?_⟩
  intro m hm
  obtain ⟨h1, h2⟩ := h.within m hm
  exact ⟨hlo.trans (Nat.le_of_succ_le h1), h2⟩

/-- Numbers below a bound, then numbers from there on. -/
theorem append (hn : Rising lo hi ns) (hbelow : Rising lo mid ns) (hm : Rising mid hi ms)
    (hlo : lo ≤ mid) : Rising lo hi (ns ++ ms) := by
  refine ⟨List.pairwise_append.mpr ⟨hn.increasing, hm.increasing, ?_⟩, ?_⟩
  · intro n hmem m hmem'
    exact Nat.lt_of_lt_of_le (hbelow.within n hmem).2 (hm.within m hmem').1
  · intro n hmem
    rcases List.mem_append.mp hmem with hmem | hmem
    · exact hn.within n hmem
    · exact ⟨hlo.trans (hm.within n hmem).1, (hm.within n hmem).2⟩

end Rising

/-! ## Marks -/

/-- Where the block starts, with the step of its kind. -/
def key (b : Block) : Nat :=
  3 * b.span.start + b.kind.rank

/-- The marks of a block: its own, and that of its target, which takes the last step. -/
def marks (b : Block) : List Nat :=
  b.key :: b.target.toList.map fun target => 3 * target.start + 2

/-- The marks of a forest in pre-order. -/
def marksOf (blocks : List Block) : List Nat :=
  (preorderAll blocks).flatMap marks

@[simp] theorem marksOf_nil : marksOf [] = [] := by
  simp [marksOf]

theorem marksOf_cons (b : Block) (rest : List Block) :
    marksOf (b :: rest) = b.marks ++ (marksOf b.children ++ marksOf rest) := by
  simp [marksOf, preorder_eq]

theorem marksOf_append (a b : List Block) : marksOf (a ++ b) = marksOf a ++ marksOf b := by
  simp [marksOf, preorderAll_append]

theorem marksOf_singleton (b : Block) : marksOf [b] = b.marks ++ marksOf b.children := by
  simp [marksOf_cons]

theorem key_lt (b : Block) (h : b.span.start < hi) : b.key < 3 * hi := by
  have := rank_le_two b.kind
  unfold key
  omega

/-- The marks of the blocks rise strictly between two offsets. -/
def Rises (lo hi : Nat) (blocks : List Block) : Prop :=
  Rising (3 * lo) (3 * hi) (marksOf blocks)

namespace Rises

variable {lo' hi' : Nat} {more : List Block}

theorem nil (lo hi : Nat) : Rises lo hi [] := by
  rw [Rises, marksOf_nil]
  exact .nil _ _

theorem weaken (h : Rises lo hi blocks) (hlo : lo' ≤ lo) (hhi : hi ≤ hi') : Rises lo' hi' blocks :=
  Rising.weaken h (Nat.mul_le_mul_left 3 hlo) (Nat.mul_le_mul_left 3 hhi)

theorem append_of_below (h : Rises lo hi blocks) (hbelow : Rises lo mid blocks)
    (hmore : Rises mid hi more) (hlo : lo ≤ mid) : Rises lo hi (blocks ++ more) := by
  rw [Rises, marksOf_append]
  exact Rising.append h hbelow hmore (Nat.mul_le_mul_left 3 hlo)

/-- Blocks up to an offset, then blocks from there on. -/
theorem append (h : Rises lo mid blocks) (hmore : Rises mid hi more) (hlo : lo ≤ mid)
    (hhi : mid ≤ hi) : Rises lo hi (blocks ++ more) :=
  (h.weaken (Nat.le_refl lo) hhi).append_of_below h hmore hlo

/-- A block without a target, around blocks with later marks. -/
theorem around (htarget : b.target = none) (hlo : lo ≤ b.span.start) (hhi : b.span.start < hi)
    (h : Rising (b.key + 1) (3 * hi) (marksOf b.children)) : Rises lo hi [b] := by
  have hmarks : marksOf [b] = b.key :: marksOf b.children := by
    simp [marksOf_singleton, marks, htarget]
  rw [Rises, hmarks]
  refine .cons ?_ (b.key_lt hhi) h
  unfold key
  omega

/-- The first block has the first mark. -/
theorem above (h : Rises lo hi (b :: rest)) : Rising b.key (3 * hi) (marksOf (b :: rest)) := by
  refine ⟨h.increasing, ?_⟩
  have hmarks : marksOf (b :: rest) = b.key :: (b.target.toList.map
      (fun target => 3 * target.start + 2) ++ (marksOf b.children ++ marksOf rest)) := by
    simp [marksOf_cons, marks]
  intro n hn
  refine ⟨?_, (h.within n hn).2⟩
  rw [hmarks] at hn
  have hincreasing := h.increasing
  rw [hmarks] at hincreasing
  rcases List.mem_cons.mp hn with rfl | hn
  · exact Nat.le_refl _
  · exact ((List.pairwise_cons.mp hincreasing).1 n hn).le

/-- When siblings take a step at least, so do all marks. -/
theorem above_of_rank (rank : Nat) (h : Rises lo hi blocks)
    (hrank : ∀ b ∈ blocks, rank ≤ b.kind.rank) :
    Rising (3 * lo + rank) (3 * hi) (marksOf blocks) := by
  cases blocks with
  | nil =>
    rw [marksOf_nil]
    exact .nil _ _
  | cons b rest =>
    have hb : 3 * lo ≤ b.key := by
      refine (h.within b.key ?_).1
      simp [marksOf_cons, marks]
    refine h.above.weaken ?_ (Nat.le_refl _)
    have := rank_le_two b.kind
    have := hrank b List.mem_cons_self
    unfold key at *
    omega

/-- Blocks that follow one another with rising starts, each of them rising by itself. A block may be
empty; then the next one starts after it all the same. -/
theorem ofEach (horder : InDocumentOrder blocks)
    (hstarts : blocks.Pairwise fun a b => a.span.start < b.span.start)
    (hwithin : Within lo hi blocks) (hlt : ∀ b ∈ blocks, b.span.start < hi)
    (h : ∀ b ∈ blocks, Rises b.span.start (max b.span.stop (b.span.start + 1)) [b]) :
    Rises lo hi blocks := by
  induction blocks generalizing lo with
  | nil => exact .nil lo hi
  | cons b rest ih =>
    obtain ⟨hstop, horder⟩ := List.pairwise_cons.mp horder
    obtain ⟨hstart, hstarts⟩ := List.pairwise_cons.mp hstarts
    obtain ⟨⟨hlo, hhi⟩, hwithin⟩ := within_cons.mp hwithin
    obtain ⟨hb, hrest⟩ := List.forall_mem_cons.mp h
    obtain ⟨hlt, hltrest⟩ := List.forall_mem_cons.mp hlt
    have hlater : Within (max b.span.stop (b.span.start + 1)) hi rest := by
      intro c hc
      exact ⟨Nat.max_le.mpr ⟨hstop c hc, hstart c hc⟩, (hwithin c hc).2⟩
    have hmore := ih horder hstarts hlater hltrest hrest
    exact (hb.weaken hlo (Nat.le_refl _)).append hmore (by omega) (Nat.max_le.mpr ⟨hhi, hlt⟩)

/-- Blocks that are laid out, none of them empty, each of them rising by itself. -/
theorem ofLaid (hlaid : Laid source lo hi blocks)
    (h : ∀ b ∈ blocks, b.span.start < b.span.stop ∧ Rises b.span.start b.span.stop [b]) :
    Rises lo hi blocks := by
  refine ofEach hlaid.inOrder ?_ hlaid.within ?_ ?_
  · refine hlaid.inOrder.imp_of_mem ?_
    intro a b ha _ hstop
    exact Nat.lt_of_lt_of_le (h a ha).1 hstop
  · intro b hb
    exact Nat.lt_of_lt_of_le (h b hb).1 (hlaid.within b hb).2
  · intro b hb
    exact (h b hb).2.weaken (Nat.le_refl _) (Nat.le_max_left _ _)

/-- In the pre-order blocks of one kind start one after the other, and so do targets. -/
theorem pairwise (h : Rises lo hi blocks) :
    (preorderAll blocks).Pairwise fun a b =>
      (a.kind = b.kind → a.span.start < b.span.start) ∧
        ∀ s ∈ a.target, ∀ t ∈ b.target, s.start < t.start := by
  have hmarks := (List.pairwise_flatMap.mp h.increasing).2
  refine hmarks.imp ?_
  intro a b hlt
  refine ⟨?_, ?_⟩
  · intro hkind
    have := hlt a.key (by simp [marks]) b.key (by simp [marks])
    unfold key at this
    rw [hkind] at this
    omega
  · intro s hs t ht
    have := hlt (3 * s.start + 2) (by simp [marks, Option.mem_def.mp hs]) (3 * t.start + 2)
      (by simp [marks, Option.mem_def.mp ht])
    omega

end Rises

/-! ## Links -/

/-- A link: its target starts inside it, and it holds no blocks. -/
structure IsLink (b : Block) : Prop where
  kind : b.kind = .link
  children : b.children = []
  target : ∃ target, b.target = some target ∧ b.span.start < target.start ∧
    target.start < b.span.stop

theorem IsLink.rises (h : b.IsLink) : Rises b.span.start b.span.stop [b] := by
  obtain ⟨target, htarget, hstart, hstop⟩ := h.target
  have hmarks : marksOf [b] = [3 * b.span.start + 2, 3 * target.start + 2] := by
    simp [marksOf_singleton, marks, key, h.kind, h.children, htarget, BlockKind.rank]
  rw [Rises, hmarks]
  exact .cons (by omega) (by omega) (.cons (by omega) (by omega) (.nil _ _))

theorem IsLink.start_lt_stop (h : b.IsLink) : b.span.start < b.span.stop := by
  obtain ⟨target, -, hstart, hstop⟩ := h.target
  exact hstart.trans hstop

/-- Links that are laid out rise, above every other block that starts where they do. -/
theorem rising_links (h : Laid source lo hi blocks) (hlinks : ∀ b ∈ blocks, b.IsLink) :
    Rising (3 * lo + 2) (3 * hi) (marksOf blocks) := by
  refine (Rises.ofLaid h fun b hb =>
    ⟨(hlinks b hb).start_lt_stop, (hlinks b hb).rises⟩).above_of_rank 2 ?_
  intro b hb
  rw [(hlinks b hb).kind]
  exact Nat.le_refl 2

/-- A block around links that are laid out within it. -/
theorem rises_around_links (h : Laid source b.span.start b.span.stop b.children)
    (hlinks : ∀ c ∈ b.children, c.IsLink) (htarget : b.target = none) (hrank : b.kind.rank < 2)
    (hlt : b.span.start < hi) (hstop : b.span.stop ≤ hi) : Rises b.span.start hi [b] := by
  refine .around htarget (Nat.le_refl _) hlt ?_
  refine (rising_links h hlinks).weaken ?_ (Nat.mul_le_mul_left 3 hstop)
  unfold key
  omega

/-! ## Sections -/

theorem key_place (limit : Nat) (b : Block) (later : List Block) :
    (place limit b later).key = b.key := by
  have hsite := Prod.mk.inj (site_place limit b later)
  rw [key, hsite.1, hsite.2]
  rfl

theorem target_place (limit : Nat) (b : Block) (later : List Block) :
    (place limit b later).target = b.target := by
  unfold place
  split <;> rfl

/-- Sections change no marks. -/
theorem marksOf_assignRegions (limit : Nat) (blocks : List Block) :
    marksOf (assignRegions limit blocks) = marksOf blocks := by
  induction limit, blocks using assignRegions.induct with
  | case1 limit => rw [assignRegions_nil]
  | case2 limit b later ihchildren ihlater =>
    have hmarks : (place limit b later).marks = b.marks := by
      rw [marks, key_place, target_place]
      rfl
    have hchildren : marksOf (place limit b later).children = marksOf b.children := by
      unfold place
      split
      · rfl
      · exact ihchildren
      · rfl
    rw [assignRegions_cons, marksOf_cons, marksOf_cons, hmarks, hchildren, ihlater]

/-! ## What starts inside a block -/

section Inside

variable {x : Block}

/-- All blocks of a forest lie between the offsets between which its siblings lie. -/
theorem within_preorderAll (h : Throughout (Fits source) blocks) (hwithin : Within lo hi blocks) :
    Within lo hi (preorderAll blocks) := by
  induction blocks using forest_induction generalizing lo hi with
  | nil => exact within_nil lo hi
  | cons b rest ihchildren ihrest =>
    obtain ⟨hb, hchildren, hrest⟩ := throughout_cons.mp h
    obtain ⟨hbounds, hwithin⟩ := within_cons.mp hwithin
    rw [preorderAll_cons, preorder_eq]
    refine Within.append (within_cons.mpr ⟨hbounds, ?_⟩) (ihrest hrest hwithin)
    exact (ihchildren hchildren hb.within).weaken hbounds.1 hbounds.2

/-- The pre-order of a forest around a block and its descendants: what comes after them starts where
the block has stopped or later. -/
theorem exists_preorder_split (h : Throughout (Fits source) blocks)
    (horder : InDocumentOrder blocks) (hb : b ∈ preorderAll blocks) :
    ∃ before after, preorderAll blocks = before ++ (b.preorder ++ after) ∧
      ∀ x ∈ after, b.span.stop ≤ x.span.start := by
  induction blocks using forest_induction with
  | nil => simp at hb
  | cons first rest ihchildren ihrest =>
    obtain ⟨hfirst, hchildren, hrest⟩ := throughout_cons.mp h
    obtain ⟨hstop, horder⟩ := List.pairwise_cons.mp horder
    -- The later siblings and their descendants start where the first block has stopped.
    have hlater : ∀ y ∈ preorderAll rest, first.span.stop ≤ y.span.start := by
      intro y hy
      have hwithin : Within first.span.stop (byteSize source) rest := fun c hc =>
        ⟨hstop c hc, (hrest.of_mem hc).1.stop_le⟩
      exact (within_preorderAll hrest hwithin y hy).1
    rw [preorderAll_cons, preorder_eq, List.cons_append, List.mem_cons, List.mem_append] at hb
    rcases hb with rfl | hb | hb
    · exact ⟨[], preorderAll rest, by rw [preorderAll_cons, List.nil_append], hlater⟩
    · obtain ⟨before, after, hsplit, hafter⟩ := ihchildren hchildren hfirst.inOrder hb
      refine ⟨first :: before, after ++ preorderAll rest, ?_, ?_⟩
      · rw [preorderAll_cons, preorder_eq first, hsplit]
        simp
      · have hinside := (within_preorderAll hchildren hfirst.within b hb).2
        intro y hy
        rcases List.mem_append.mp hy with hy | hy
        · exact hafter y hy
        · exact hinside.trans (hlater y hy)
    · obtain ⟨before, after, hsplit, hafter⟩ := ihrest hrest horder hb
      refine ⟨first.preorder ++ before, after, ?_, hafter⟩
      rw [preorderAll_cons, hsplit, List.append_assoc]

/-- In blocks that rise, what starts inside a block of the lowest rank is the block or one of its
descendants. -/
theorem Rises.mem_preorder_of_start (hrises : Rises lo hi blocks)
    (h : Throughout (Fits source) blocks) (horder : InDocumentOrder blocks)
    (hb : b ∈ preorderAll blocks) (hrank : b.kind.rank = 0) (hx : x ∈ preorderAll blocks)
    (hstart : b.span.start ≤ x.span.start) (hstop : x.span.start < b.span.stop) :
    x ∈ b.preorder := by
  obtain ⟨before, after, hsplit, hafter⟩ := exists_preorder_split h horder hb
  rw [hsplit, List.mem_append, List.mem_append] at hx
  rcases hx with hx | hx | hx
  · -- The mark of an earlier block is smaller than that of the block.
    have hmarks := (List.pairwise_flatMap.mp hrises.increasing).2
    rw [hsplit] at hmarks
    have hself : b ∈ b.preorder ++ after := by
      rw [preorder_eq]
      exact List.mem_cons_self
    have hlt := (List.pairwise_append.mp hmarks).2.2 x hx b hself x.key (by simp [marks]) b.key
      (by simp [marks])
    unfold key at hlt
    omega
  · exact hx
  · have := hafter x hx
    omega

end Inside

end Block

end ArticleAudit
