import ArticleAudit.Block.Basic

/-!
# Sections of headings

The section of a heading runs from the heading to the next heading of the same or a shallower level
among its siblings, or to a limit: the end of the document, or of the zone around them.
-/

set_option autoImplicit false

namespace ArticleAudit.Block

open ArticleAudit.Text

/-- The block ends the section of a heading of the given level. -/
def endsRegion (level : Nat) (b : Block) : Bool :=
  b.kind == .header && b.level ≤ level

/-- Where the section of a heading of the given level ends, given its later siblings. -/
def regionStop (level limit : Nat) (later : List Block) : Nat :=
  match later.find? (endsRegion level) with
  | some b => b.span.start
  | none => limit

theorem sizeOf_children_lt (b : Block) : sizeOf b.children < sizeOf b := by
  cases b
  simp only [mk.sizeOf_spec]
  omega

/-- Gives each heading its section, inside zones too. -/
def assignRegions (limit : Nat) : List Block → List Block
  | [] => []
  | b :: later =>
    let placed :=
      match b.kind with
      | .header => { b with region := some ⟨b.span.start, regionStop b.level limit later⟩ }
      | .zonePivot => { b with children := assignRegions b.span.stop b.children }
      | _ => b
    placed :: assignRegions limit later
termination_by blocks => sizeOf blocks
decreasing_by
  · have := sizeOf_children_lt b
    simp only [List.cons.sizeOf_spec]
    omega
  · simp only [List.cons.sizeOf_spec]
    omega

end ArticleAudit.Block
