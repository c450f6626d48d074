/-!
# Spans of a document

A span is a range of bytes of a document's UTF-8 text, start included and stop excluded. Blocks,
links, audit entries and diagnostics all carry spans.
-/

set_option autoImplicit false

namespace ArticleAudit.Text

/-- The bytes from `start` up to, and not including, `stop`. -/
structure Span where
  start : Nat
  stop : Nat
  deriving DecidableEq, Repr, Inhabited

namespace Span

/-- The empty span at an offset. -/
def point (offset : Nat) : Span :=
  ⟨offset, offset⟩

/-- The number of bytes; zero when the span stops before it starts. -/
def length (s : Span) : Nat :=
  s.stop - s.start

/-- No byte lies in the span. -/
def isEmpty (s : Span) : Bool :=
  s.length == 0

/-- `other` lies within `s`. -/
def contains (s other : Span) : Bool :=
  s.start ≤ other.start && other.stop ≤ s.stop

/-- The span is in order and within a text of `size` bytes. -/
def isValidFor (s : Span) (size : Nat) : Bool :=
  s.start ≤ s.stop && s.stop ≤ size

/-- Spans are ordered by their start, then by their stop. -/
def precedes (a b : Span) : Bool :=
  a.start < b.start || (a.start == b.start && a.stop < b.stop)

/-- The span moved right by `offset` bytes. -/
def shift (s : Span) (offset : Nat) : Span :=
  ⟨offset + s.start, offset + s.stop⟩

/-- How messages name a span; `\x7b` and `\x7d` are braces. -/
def describe (s : Span) : String :=
  "Span \x7b start: " ++ toString s.start ++ ", end: " ++ toString s.stop ++ " \x7d"

@[simp] theorem length_point (offset : Nat) : (point offset).length = 0 := by
  simp [point, length]

theorem contains_iff {s other : Span} :
    s.contains other = true ↔ s.start ≤ other.start ∧ other.stop ≤ s.stop := by
  simp [contains]

theorem contains_self (s : Span) : s.contains s = true :=
  contains_iff.mpr ⟨Nat.le_refl _, Nat.le_refl _⟩

theorem contains_trans {a b c : Span} (hab : a.contains b = true) (hbc : b.contains c = true) :
    a.contains c = true := by
  obtain ⟨h1, h2⟩ := contains_iff.mp hab
  obtain ⟨h3, h4⟩ := contains_iff.mp hbc
  exact contains_iff.mpr ⟨Nat.le_trans h1 h3, Nat.le_trans h4 h2⟩

theorem isValidFor_iff {s : Span} {size : Nat} :
    s.isValidFor size = true ↔ s.start ≤ s.stop ∧ s.stop ≤ size := by
  simp [isValidFor]

end Span

end ArticleAudit.Text
