import ArticleAudit.Text.Slice

/-!
# Lines with their spans

A text is cut after each line feed, so the lines joined give the text back (`flatten_splitLines`)
and a line's span ends where the next one starts.
-/

set_option autoImplicit false

namespace ArticleAudit.Text

/-- The lines of a text, each with its line feed; the last one may lack it but is not empty. -/
def splitLines : List Char → List (List Char)
  | [] => []
  | c :: rest =>
    if c = '\n' then [c] :: splitLines rest
    else
      match splitLines rest with
      | [] => [[c]]
      | line :: lines => (c :: line) :: lines

/-- A line without its line feed, and without the carriage return before that. -/
def dropTerminator (line : List Char) : List Char :=
  match line.reverse with
  | '\n' :: '\r' :: rest => rest.reverse
  | '\n' :: rest => rest.reverse
  | _ => line

/-- A line of a document, its line terminator included in both fields. -/
structure Line where
  span : Span
  text : List Char
  deriving DecidableEq, Repr, Inhabited

/-- Places each of the lines after the one before it, the first at `offset`. -/
def placeLines (offset : Nat) : List (List Char) → List Line
  | [] => []
  | line :: rest =>
    ⟨⟨offset, offset + byteSize line⟩, line⟩ :: placeLines (offset + byteSize line) rest

/-- The lines of a text with their spans. -/
def linesOf (cs : List Char) : List Line :=
  placeLines 0 (splitLines cs)

@[simp] theorem flatten_splitLines (cs : List Char) : (splitLines cs).flatten = cs := by
  induction cs with
  | nil => rfl
  | cons c rest ih =>
    by_cases h : c = '\n'
    · simp [splitLines, h, ih]
    · simp only [splitLines, if_neg h]
      split
      · next heq => rw [heq] at ih; simp_all
      · next heq => rw [heq] at ih; simpa using ih

@[simp] theorem map_text_placeLines (offset : Nat) (lines : List (List Char)) :
    (placeLines offset lines).map Line.text = lines := by
  induction lines generalizing offset with
  | nil => rfl
  | cons line rest ih => simp [placeLines, ih]

end ArticleAudit.Text
