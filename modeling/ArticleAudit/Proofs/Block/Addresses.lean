import ArticleAudit.Block.Walk
import ArticleAudit.Proofs.Block.Nesting

/-!
# Addresses

The address of a block says which of its siblings it is, and before that which siblings the blocks
around it are, the outermost first. In the order of lists a block comes before its descendants and
siblings come one after the other, each with its descendants. The pre-order of a forest goes through
all addresses in this order, each once (`exists_enumerates`). A walk hands out the blocks one by one
and comes to an end, and what it hands out is the pre-order (`Walk.yields_preorder`).
-/

set_option autoImplicit false

namespace ArticleAudit.Block

/-! ## Blocks at addresses -/

/-- The block of a forest at an address. -/
def blockAt? (blocks : List Block) : List Nat → Option Block
  | [] => none
  | [i] => blocks[i]?
  | i :: below => (blocks[i]?).bind fun b => blockAt? b.children below

section Steps

variable (b : Block) (rest : List Block)

/-- The first block of a forest. -/
theorem blockAt?_cons_zero : blockAt? (b :: rest) [0] = some b :=
  rfl

/-- What is below the first block. -/
theorem blockAt?_cons_below (address : List Nat) (h : address ≠ []) :
    blockAt? (b :: rest) (0 :: address) = blockAt? b.children address := by
  cases address with
  | nil => exact absurd rfl h
  | cons j below => rfl

/-- What is at a later block, or below one. -/
theorem blockAt?_cons_succ (i : Nat) (below : List Nat) :
    blockAt? (b :: rest) ((i + 1) :: below) = blockAt? rest (i :: below) := by
  cases below with
  | nil => rfl
  | cons j below => rfl

end Steps

/-- The address of the same block when one more sibling stands in front. -/
def laterAddress : List Nat → List Nat
  | [] => []
  | i :: below => (i + 1) :: below

theorem laterAddress_lt {a c : List Nat} (h : a < c) : laterAddress a < laterAddress c := by
  cases a with
  | nil =>
    cases c with
    | nil => exact h
    | cons j below => exact List.nil_lt_cons _ _
  | cons i above =>
    cases c with
    | nil => exact absurd h (List.not_lt_nil _)
    | cons j below =>
      rw [laterAddress, laterAddress, List.cons_lt_cons_iff]
      rcases List.cons_lt_cons_iff.mp h with hij | ⟨rfl, hbelow⟩
      · exact Or.inl (Nat.succ_lt_succ hij)
      · exact Or.inr ⟨rfl, hbelow⟩

/-! ## Enumerations -/

/-- The addresses of a forest in increasing order, each once and no other, with their blocks. -/
structure Enumerates (blocks : List Block) (addresses : List (List Nat)) (found : List Block) :
    Prop where
  increasing : addresses.Pairwise (· < ·)
  mem_iff : ∀ address, address ∈ addresses ↔ (blockAt? blocks address).isSome
  blocks_eq : addresses.map (blockAt? blocks) = found.map some

namespace Enumerates

variable {b : Block} {rest found : List Block} {addresses below later : List (List Nat)}

theorem nil : Enumerates [] [] [] where
  increasing := List.Pairwise.nil
  mem_iff address := by
    cases address with
    | nil => simp [blockAt?]
    | cons i below => cases below <;> simp [blockAt?]
  blocks_eq := rfl

theorem ne_nil (h : Enumerates rest addresses found) {address : List Nat}
    (ha : address ∈ addresses) : address ≠ [] := by
  rintro rfl
  simpa [blockAt?] using (h.mem_iff []).mp ha

theorem mem_map_laterAddress (h : Enumerates rest later found) {address : List Nat} :
    address ∈ later.map laterAddress ↔
      ∃ i more, address = (i + 1) :: more ∧ i :: more ∈ later := by
  constructor
  · intro ha
    obtain ⟨a, hlater, rfl⟩ := List.mem_map.mp ha
    obtain ⟨i, more, rfl⟩ := List.exists_cons_of_ne_nil (h.ne_nil hlater)
    exact ⟨i, more, rfl, hlater⟩
  · rintro ⟨i, more, rfl, ha⟩
    exact List.mem_map.mpr ⟨_, ha, rfl⟩

/-- The address of a block, those below it, which start with its number, and the later ones. -/
theorem increasing_cons {inner : List Block} (hbelow : Enumerates b.children below inner)
    (hlater : Enumerates rest later found) :
    ([0] :: (below.map (0 :: ·) ++ later.map laterAddress)).Pairwise (· < ·) := by
  have hafter : ∀ tail, ∀ c ∈ later.map laterAddress, 0 :: tail < c := by
    intro tail c hc
    obtain ⟨i, more, rfl, -⟩ := hlater.mem_map_laterAddress.mp hc
    exact List.cons_lt_cons_iff.mpr (Or.inl (Nat.succ_pos i))
  have hself : ∀ a ∈ below.map (0 :: ·) ++ later.map laterAddress, [0] < a := by
    intro a ha
    rcases List.mem_append.mp ha with ha | ha
    · obtain ⟨address, haddress, rfl⟩ := List.mem_map.mp ha
      obtain ⟨i, more, rfl⟩ := List.exists_cons_of_ne_nil (hbelow.ne_nil haddress)
      exact List.cons_lt_cons_iff.mpr (Or.inr ⟨rfl, List.nil_lt_cons _ _⟩)
    · exact hafter [] a ha
  have hfirst : (below.map (0 :: ·)).Pairwise (· < ·) :=
    List.pairwise_map.mpr (hbelow.increasing.imp fun h =>
      List.cons_lt_cons_iff.mpr (Or.inr ⟨rfl, h⟩))
  have hsecond : (later.map laterAddress).Pairwise (· < ·) :=
    List.pairwise_map.mpr (hlater.increasing.imp laterAddress_lt)
  refine List.pairwise_cons.mpr ⟨hself, List.pairwise_append.mpr ⟨hfirst, hsecond, ?_⟩⟩
  intro a ha c hc
  obtain ⟨tail, -, rfl⟩ := List.mem_map.mp ha
  exact hafter tail c hc

/-- A block, what is below it, and what comes after it. -/
theorem cons {inner : List Block} (hbelow : Enumerates b.children below inner)
    (hlater : Enumerates rest later found) :
    Enumerates (b :: rest) ([0] :: (below.map (0 :: ·) ++ later.map laterAddress))
      (b :: (inner ++ found)) where
  increasing := increasing_cons hbelow hlater
  mem_iff address := by
    rw [List.mem_cons, List.mem_append, hlater.mem_map_laterAddress]
    match address with
    -- The cases are those of `blockAt?`, and each of them is in one part of the list only.
    | [] => simp [blockAt?]
    | [0] => simp [blockAt?]
    | 0 :: j :: more =>
      rw [blockAt?_cons_below b rest _ (List.cons_ne_nil j more), ← hbelow.mem_iff]
      simp
    | (i + 1) :: more =>
      rw [blockAt?_cons_succ, ← hlater.mem_iff]
      simp
  blocks_eq := by
    have hfirst : (below.map (0 :: ·)).map (blockAt? (b :: rest)) = inner.map some := by
      rw [← hbelow.blocks_eq, List.map_map]
      exact List.map_congr_left fun a ha => blockAt?_cons_below b rest a (hbelow.ne_nil ha)
    have hsecond : (later.map laterAddress).map (blockAt? (b :: rest)) = found.map some := by
      rw [← hlater.blocks_eq, List.map_map]
      refine List.map_congr_left fun a ha => ?_
      obtain ⟨i, more, rfl⟩ := List.exists_cons_of_ne_nil (hlater.ne_nil ha)
      exact blockAt?_cons_succ b rest i more
    rw [List.map_cons, List.map_append, hfirst, hsecond, blockAt?_cons_zero, List.map_cons,
      List.map_append]

end Enumerates

/-- The pre-order goes through all addresses. -/
theorem exists_enumerates (blocks : List Block) :
    ∃ addresses, Enumerates blocks addresses (preorderAll blocks) := by
  induction blocks using forest_induction with
  | nil =>
    rw [preorderAll_nil]
    exact ⟨[], .nil⟩
  | cons b rest ihchildren ihrest =>
    obtain ⟨below, hbelow⟩ := ihchildren
    obtain ⟨later, hlater⟩ := ihrest
    rw [preorderAll_cons, preorder_eq, List.cons_append]
    exact ⟨_, hbelow.cons hlater⟩

/-! ## Walks -/

namespace Walk

/-- Step by step the walk hands out these blocks, and then there is none left. -/
inductive Yields : Walk → List Block → Prop
  | done {w : Walk} : w.next = none → Yields w []
  | step {w after : Walk} {b : Block} {found : List Block} :
    w.next = some (b, after) → Yields after found → Yields w (b :: found)

/-- The list of a walk is handed out, in as many steps as it has blocks. -/
theorem yields_toList (w : Walk) : w.Yields w.toList := by
  fun_induction toList w with
  | case1 w h => exact .done h
  | case2 w b after h ih => exact .step h ih

theorem Yields.eq_toList {w : Walk} {found : List Block} (h : w.Yields found) :
    found = w.toList := by
  induction h with
  | done hnone =>
    rw [toList_eq_remaining, remaining_of_next_none hnone]
  | step hnext _ ih =>
    rw [toList_eq_remaining, remaining_of_next hnext, ih, toList_eq_remaining]

/-- A walk over any forest comes to an end, and what it hands out is:

* the pre-order;
* the blocks at all addresses of the forest, each address once, a block before its descendants and
  siblings in order.

A walk over the children of a block hands out the pre-order of the block without the block
itself. -/
theorem yields_preorder (blocks : List Block) :
    (∀ found, (ofBlocks blocks).Yields found ↔ found = preorderAll blocks) ∧
      (ofBlocks blocks).toList = preorderAll blocks ∧
      (∃ addresses, Enumerates blocks addresses (ofBlocks blocks).toList) ∧
      ∀ b : Block, (ofBlocks b.children).toList = b.descendants ∧
        b.preorder = b :: (ofBlocks b.children).toList := by
  have hlist := toList_ofBlocks blocks
  refine ⟨?_, hlist, ?_, ?_⟩
  · intro found
    constructor
    · intro h
      rw [h.eq_toList, hlist]
    · rintro rfl
      rw [← hlist]
      exact yields_toList _
  · rw [hlist]
    exact exists_enumerates blocks
  · intro b
    rw [toList_ofBlocks]
    exact ⟨rfl, preorder_eq b⟩

end Walk

end ArticleAudit.Block
