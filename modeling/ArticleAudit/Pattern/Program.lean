import ArticleAudit.Pattern.Expr

/-!
# Programs of patterns

A pattern is compiled to steps that many threads run side by side. A step takes a character, checks
a place, or splits a thread into one that is preferred and another; step zero is success.
-/

set_option autoImplicit false

namespace ArticleAudit.Pattern

/-- A step of a program; it names the steps that follow. -/
inductive Step
  | success
  | chars (set : CharSet) (next : Nat)
  | look (place : Look) (next : Nat)
  | split (preferred other : Nat)
  deriving Repr, Inhabited

/-- The steps of a pattern and the one where threads start. -/
structure Program where
  steps : Array Step
  entry : Nat
  deriving Repr, Inhabited

namespace Program

/-- Steps under construction together with an entry into them. -/
abbrev Part := Nat × Array Step

/-- Adds a step and enters there. -/
def push (steps : Array Step) (s : Step) : Part :=
  (steps.size, steps.push s)

/-- A choice between going on with an item and leaving. -/
def choice (greedy : Bool) (item leave : Nat) : Step :=
  if greedy then .split item leave else .split leave item

/-- An item `count` times, and then the rest. -/
def times (item : Nat → Array Step → Part) : Nat → Nat → Array Step → Part
  | 0, next, steps => (next, steps)
  | count + 1, next, steps =>
    let (start, steps) := item next steps
    times item count start steps

/-- An item at most `count` times, with the choice to leave before each turn. -/
def upTo (greedy : Bool) (item : Nat → Array Step → Part) (leave : Nat) :
    Nat → Nat → Array Step → Part
  | 0, next, steps => (next, steps)
  | count + 1, next, steps =>
    let (start, steps) := item next steps
    let (turn, steps) := push steps (choice greedy start leave)
    upTo greedy item leave count turn steps

/-- An item once or more: its entry, and the step after it with the choice to take it again. -/
def loop (greedy : Bool) (item : Nat → Array Step → Part) (leave : Nat) (steps : Array Step) :
    Nat × Part :=
  let (again, steps) := push steps .success
  let (start, steps) := item again steps
  (again, start, steps.setIfInBounds again (choice greedy start leave))

/-- Compiles a pattern before the step `next`. -/
def compile : Expr → Nat → Array Step → Part
  | .empty, next, steps => (next, steps)
  | .chars set, next, steps => push steps (.chars set next)
  | .look place, next, steps => push steps (.look place next)
  | .seq a b, next, steps =>
    let (second, steps) := compile b next steps
    compile a second steps
  | .alt a b, next, steps =>
    let (first, steps) := compile a next steps
    let (second, steps) := compile b next steps
    push steps (.split first second)
  | .repetition least (some most) greedy item, next, steps =>
    let (rest, steps) := upTo greedy (compile item) next (most - least) next steps
    times (compile item) least rest steps
  | .repetition 0 none greedy item, next, steps =>
    let (again, start, steps) := loop greedy (compile item) next steps
    if item.canBeEmpty then push steps (choice greedy start next) else (again, steps)
  | .repetition (least + 1) none greedy item, next, steps =>
    let (_, start, steps) := loop greedy (compile item) next steps
    times (compile item) least start steps

/-- About how many steps a pattern takes where a character is cut into its octets. -/
def cost : Expr → Nat
  | .empty | .look _ => 1
  | .chars (.range first last) => if first == last then first.utf8Size else 2
  | .chars set => if set.isAscii then 1 else 2 * set.rangeCount + 2
  | .seq a b => cost a + cost b
  | .alt a b => cost a + cost b + 2
  | .repetition least (some most) _ item => least * cost item + (most - least) * (cost item + 1) + 1
  | .repetition least none _ item => max least 1 * cost item + 3

/-- The largest programs that are run have this many steps. -/
def maxCost : Nat := 327680

/-- The program of a pattern, unless it is too large. -/
def ofExpr? (e : Expr) : Option Program :=
  if cost e ≤ maxCost then
    let (entry, steps) := compile e 0 #[.success]
    some ⟨steps, entry⟩
  else none

end Program

end ArticleAudit.Pattern
