import ArticleAudit.Block.Basic

/-!
# Lineages

The lineage of a forest is its pre-order in which every block comes with the blocks around it, the
innermost first. Without them it is the pre-order (`map_fst_lineageAll`), and the block around
another one is in the lineage with the rest of its blocks (`mem_lineageAll_of_parent`).
-/

set_option autoImplicit false

namespace ArticleAudit

mutual

/-- A block below some ancestors, followed by its descendants below theirs. -/
def Block.lineage (ancestors : List Block) : Block → List (Block × List Block)
  | ⟨kind, span, text, level, tag, content, target, region, children⟩ =>
    (⟨kind, span, text, level, tag, content, target, region, children⟩, ancestors) ::
      Block.lineageAll
        (⟨kind, span, text, level, tag, content, target, region, children⟩ :: ancestors) children

/-- The lineage of a forest below some ancestors. -/
def Block.lineageAll (ancestors : List Block) : List Block → List (Block × List Block)
  | [] => []
  | b :: rest => b.lineage ancestors ++ Block.lineageAll ancestors rest

end

namespace Block

variable {ancestors : List Block}

@[simp] theorem lineageAll_nil (ancestors : List Block) : lineageAll ancestors [] = [] := by
  simp [lineageAll]

@[simp] theorem lineageAll_cons (ancestors : List Block) (b : Block) (rest : List Block) :
    lineageAll ancestors (b :: rest) = b.lineage ancestors ++ lineageAll ancestors rest := by
  simp [lineageAll]

theorem lineage_eq (ancestors : List Block) (b : Block) :
    b.lineage ancestors = (b, ancestors) :: lineageAll (b :: ancestors) b.children := by
  cases b
  simp [lineage]

theorem lineageAll_append (ancestors a b : List Block) :
    lineageAll ancestors (a ++ b) = lineageAll ancestors a ++ lineageAll ancestors b := by
  induction a with
  | nil => simp
  | cons first rest ih => simp [ih]

/-- A property of a block and its ancestors holds throughout a lineage when every block has it
below its own ancestors whenever its children have it. -/
theorem lineageAll_induction {motive : List Block → List Block → Prop}
    (nil : ∀ ancestors, motive ancestors [])
    (cons : ∀ ancestors b rest, motive (b :: ancestors) b.children → motive ancestors rest →
      motive ancestors (b :: rest)) (ancestors blocks : List Block) : motive ancestors blocks := by
  refine Block.lineageAll.induct (fun ancestors b => motive (b :: ancestors) b.children) motive
    ?_ nil ?_ ancestors blocks
  · intro ancestors kind span text level tag content target region children ih
    exact ih
  · intro ancestors b rest hb hrest
    exact cons ancestors b rest hb hrest

/-- The blocks of a lineage are the pre-order. -/
theorem map_fst_lineageAll (ancestors blocks : List Block) :
    (lineageAll ancestors blocks).map Prod.fst = preorderAll blocks := by
  induction ancestors, blocks using lineageAll_induction with
  | nil ancestors => simp
  | cons ancestors b rest hchildren hrest => simp [lineage_eq, preorder_eq, hchildren, hrest]

/-- The block around another one is in the lineage too, with the blocks around it. -/
theorem mem_lineageAll_of_parent {blocks : List Block} {b parent : Block} {rest : List Block}
    (h : (b, parent :: rest) ∈ lineageAll ancestors blocks) :
    parent :: rest = ancestors ∨ (parent, rest) ∈ lineageAll ancestors blocks := by
  induction ancestors, blocks using lineageAll_induction with
  | nil ancestors => simp at h
  | cons ancestors first later hchildren hlater =>
    rw [lineageAll_cons, lineage_eq, List.cons_append, List.mem_cons, List.mem_append] at h ⊢
    rcases h with h | h | h
    · exact Or.inl (Prod.mk.inj h).2
    · rcases hchildren h with heq | hmem
      · obtain ⟨rfl, rfl⟩ := List.cons.inj heq
        exact Or.inr (Or.inl rfl)
      · exact Or.inr (Or.inr (Or.inl hmem))
    · rcases hlater h with heq | hmem
      · exact Or.inl heq
      · exact Or.inr (Or.inr (Or.inr hmem))

end Block

end ArticleAudit
