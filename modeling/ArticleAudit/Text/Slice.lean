import ArticleAudit.Text.Span

/-!
# Slices of a text

A text is a list of characters and offsets count the bytes of its UTF-8 form. `slice?` answers
only for spans that are in order, within the text and on character boundaries; it is the view
through which "the text of a span" is stated.
-/

set_option autoImplicit false

namespace ArticleAudit.Text

/-- The number of bytes of a text in UTF-8. -/
def byteSize : List Char → Nat
  | [] => 0
  | c :: rest => c.utf8Size + byteSize rest

@[simp] theorem byteSize_nil : byteSize [] = 0 := rfl

@[simp] theorem byteSize_cons (c : Char) (rest : List Char) :
    byteSize (c :: rest) = c.utf8Size + byteSize rest := rfl

@[simp] theorem byteSize_append (a b : List Char) :
    byteSize (a ++ b) = byteSize a + byteSize b := by
  induction a with
  | nil => simp
  | cons c rest ih => simp [ih, Nat.add_assoc]

/-- What follows the first `n` bytes; `none` when `n` is not on a character boundary. -/
def dropBytes? : Nat → List Char → Option (List Char)
  | 0, cs => some cs
  | _ + 1, [] => none
  | n + 1, c :: rest => if c.utf8Size ≤ n + 1 then dropBytes? (n + 1 - c.utf8Size) rest else none

/-- The first `n` bytes; `none` when `n` is not on a character boundary. -/
def takeBytes? : Nat → List Char → Option (List Char)
  | 0, _ => some []
  | _ + 1, [] => none
  | n + 1, c :: rest =>
    if c.utf8Size ≤ n + 1 then (takeBytes? (n + 1 - c.utf8Size) rest).map (c :: ·) else none

/-- The text of a span, when the span is in order, within the text and on boundaries. -/
def slice? (cs : List Char) (s : Span) : Option (List Char) :=
  if s.start ≤ s.stop then (dropBytes? s.start cs).bind (takeBytes? (s.stop - s.start)) else none

/-- The text of a span; empty when there is none. -/
def slice (cs : List Char) (s : Span) : List Char :=
  (slice? cs s).getD []

/-- The longest initial part of at most `max` bytes. -/
def takeFitting : Nat → List Char → List Char
  | _, [] => []
  | max, c :: rest =>
    if c.utf8Size ≤ max then c :: takeFitting (max - c.utf8Size) rest else []

/-- The text of a span, cut to at most `max` bytes and marked with three dots when it is longer. -/
def preview (cs : List Char) (s : Span) (max : Nat) : List Char :=
  let text := slice cs s
  if byteSize text > max then takeFitting max text ++ "...".toList else text

theorem dropBytes?_byteSize (a b : List Char) : dropBytes? (byteSize a) (a ++ b) = some b := by
  induction a with
  | nil => simp [dropBytes?]
  | cons c rest ih =>
    have hc : 0 < c.utf8Size := c.utf8Size_pos
    obtain ⟨n, hn⟩ : ∃ n, c.utf8Size + byteSize rest = n + 1 :=
      ⟨c.utf8Size + byteSize rest - 1, by omega⟩
    have hle : c.utf8Size ≤ n + 1 := by omega
    have hsub : n + 1 - c.utf8Size = byteSize rest := by omega
    simp [hn, dropBytes?, hle, hsub, ih]

theorem takeBytes?_byteSize (a b : List Char) : takeBytes? (byteSize a) (a ++ b) = some a := by
  induction a with
  | nil => simp [takeBytes?]
  | cons c rest ih =>
    have hc : 0 < c.utf8Size := c.utf8Size_pos
    obtain ⟨n, hn⟩ : ∃ n, c.utf8Size + byteSize rest = n + 1 :=
      ⟨c.utf8Size + byteSize rest - 1, by omega⟩
    have hle : c.utf8Size ≤ n + 1 := by omega
    have hsub : n + 1 - c.utf8Size = byteSize rest := by omega
    simp [hn, takeBytes?, hle, hsub, ih]

/-- The slice between two parts of a text is the part between them. -/
theorem slice?_append (a b c : List Char) :
    slice? (a ++ b ++ c) ⟨byteSize a, byteSize a + byteSize b⟩ = some b := by
  have h : byteSize a + byteSize b - byteSize a = byteSize b := by omega
  simp [slice?, List.append_assoc, dropBytes?_byteSize, takeBytes?_byteSize, h]

end ArticleAudit.Text
