import ArticleAudit.Block.Basic

/-!
# Walking a forest block by block

A walk keeps the forests still to be visited on a stack, the innermost on top, and hands out one
block at a time. Main statement: a walk run to its end yields the pre-order (`toList_ofBlocks`).
-/

set_option autoImplicit false

namespace ArticleAudit.Block

/-- The sibling lists that are left, the innermost first. -/
structure Walk where
  stack : List (List Block)
  deriving Repr, Inhabited

namespace Walk

/-- A walk over a forest. -/
def ofBlocks (blocks : List Block) : Walk :=
  ⟨[blocks]⟩

/-- The blocks that are still to come. -/
def remaining (w : Walk) : List Block :=
  w.stack.flatMap preorderAll

/-- The next block of a stack and the stack after it; exhausted sibling lists are dropped. -/
def nextOf : List (List Block) → Option (Block × List (List Block))
  | [] => none
  | [] :: stack => nextOf stack
  | (b :: rest) :: stack =>
    some (b, if b.children.isEmpty then rest :: stack else b.children :: rest :: stack)

/-- The next block and the walk after it. -/
def next (w : Walk) : Option (Block × Walk) :=
  (nextOf w.stack).map fun (b, stack) => (b, ⟨stack⟩)

theorem remaining_nextOf (stack : List (List Block)) :
    match nextOf stack with
    | none => stack.flatMap preorderAll = []
    | some (b, after) => stack.flatMap preorderAll = b :: after.flatMap preorderAll := by
  induction stack with
  | nil => simp [nextOf]
  | cons top stack ih =>
    cases top with
    | nil => simpa [nextOf] using ih
    | cons b rest =>
      cases hb : b.children with
      | nil => simp [nextOf, preorder_eq, hb]
      | cons child children => simp [nextOf, preorder_eq, hb]

/-- Each step hands out the first of the remaining blocks. -/
theorem remaining_of_next {w w' : Walk} {b : Block} (h : w.next = some (b, w')) :
    w.remaining = b :: w'.remaining := by
  have hs := remaining_nextOf w.stack
  unfold next at h
  cases hn : nextOf w.stack with
  | none => simp [hn] at h
  | some found =>
    obtain ⟨b', after⟩ := found
    simp only [hn, Option.map_some, Option.some.injEq, Prod.mk.injEq] at h
    obtain ⟨rfl, rfl⟩ := h
    simpa [hn, remaining] using hs

theorem remaining_of_next_none {w : Walk} (h : w.next = none) : w.remaining = [] := by
  have hs := remaining_nextOf w.stack
  unfold next at h
  cases hn : nextOf w.stack with
  | none => simpa [hn, remaining] using hs
  | some found => simp [hn] at h

/-- Runs a walk to its end. -/
def toList (w : Walk) : List Block :=
  match _h : w.next with
  | none => []
  | some (b, after) => b :: toList after
termination_by w.remaining.length
decreasing_by
  rw [remaining_of_next _h]
  simp

theorem toList_eq_remaining (w : Walk) : w.toList = w.remaining := by
  fun_induction toList w with
  | case1 w h => exact (remaining_of_next_none h).symm
  | case2 w b after h ih => rw [remaining_of_next h, ih]

/-- A walk over a forest yields its pre-order. -/
theorem toList_ofBlocks (blocks : List Block) : (ofBlocks blocks).toList = preorderAll blocks := by
  simp [toList_eq_remaining, remaining, ofBlocks]

end Walk

end ArticleAudit.Block
