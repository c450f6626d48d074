import ArticleAudit.Text.Slice

/-!
# Engines of patterns

What rules need of patterns: an engine compiles the text of a pattern or refuses it, and what it
compiles looks for matches in texts. Rules take their engine as a parameter, and rely on nothing but
this: matches lie in the text that is searched, on character boundaries (`Engine.FindsInText`).
-/

set_option autoImplicit false

namespace ArticleAudit.Pattern

open ArticleAudit.Text

/-- A compiled pattern: whether it fits somewhere in a text, and the spans of the text it fits. -/
structure Finder where
  isIn : List Char → Bool
  findAll : List Char → List Span

/-- An engine compiles the text of a pattern, with or without regard to case, unless it refuses. -/
structure Engine where
  compile? : Bool → String → Option Finder

/-- What a pattern finds in a text is cut out of the text on character boundaries. -/
def Finder.FindsInText (f : Finder) : Prop :=
  ∀ cs, ∀ s ∈ f.findAll cs, ∃ matched, slice? cs s = some matched

/-- All that the engine compiles finds its matches in the text that is searched. -/
def Engine.FindsInText (engine : Engine) : Prop :=
  ∀ ignoreCase text f, engine.compile? ignoreCase text = some f → f.FindsInText

end ArticleAudit.Pattern
