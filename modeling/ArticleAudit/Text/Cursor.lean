import ArticleAudit.Text.Span

/-!
# A cursor over bytes

A cursor holds the bytes still to be read and the document offset of the next one. Reading moves it
by as many offsets as it takes bytes (`Cursor.ReadsTo`).
-/

set_option autoImplicit false

namespace ArticleAudit.Text

/-- The bytes not yet read and where the next one stands in the document. -/
structure Cursor where
  position : Nat
  bytes : List UInt8
  deriving DecidableEq, Repr, Inhabited

namespace Cursor

/-- A cursor at the start of a text that stands at `base` in the document. -/
def ofString (base : Nat) (s : String) : Cursor :=
  ⟨base, s.toUTF8.data.toList⟩

/-- All bytes have been read. -/
def atEnd (c : Cursor) : Bool :=
  c.bytes.isEmpty

/-- The next byte. -/
def peek (c : Cursor) : Option UInt8 :=
  c.bytes.head?

/-- The byte `n` after the next one. -/
def peekAt (c : Cursor) (n : Nat) : Option UInt8 :=
  c.bytes[n]?

/-- Reads one byte; at the end nothing moves. -/
def bump (c : Cursor) : Option UInt8 × Cursor :=
  match c.bytes with
  | [] => (none, c)
  | b :: rest => (some b, ⟨c.position + 1, rest⟩)

/-- The cursor after the next byte. -/
def next (c : Cursor) : Cursor :=
  c.bump.2

/-- Reads the longest run of bytes that satisfy `p`. -/
def bumpWhile (p : UInt8 → Bool) (c : Cursor) : Cursor :=
  ⟨c.position + (c.bytes.takeWhile p).length, c.bytes.dropWhile p⟩

/-! ## Reading -/

variable {c c' c'' : Cursor} {p : UInt8 → Bool} {b : UInt8}

/-- The second cursor is the first one after it has read some bytes. -/
def ReadsTo (c c' : Cursor) : Prop :=
  ∃ read, c.bytes = read ++ c'.bytes ∧ c'.position = c.position + read.length

theorem ReadsTo.refl (c : Cursor) : c.ReadsTo c :=
  ⟨[], rfl, rfl⟩

theorem ReadsTo.trans (h : c.ReadsTo c') (h' : c'.ReadsTo c'') : c.ReadsTo c'' := by
  obtain ⟨read, hbytes, hposition⟩ := h
  obtain ⟨read', hbytes', hposition'⟩ := h'
  refine ⟨read ++ read', ?_, ?_⟩
  · rw [hbytes, hbytes', List.append_assoc]
  · rw [hposition', hposition, List.length_append, Nat.add_assoc]

theorem ReadsTo.length_le (h : c.ReadsTo c') : c'.bytes.length ≤ c.bytes.length := by
  obtain ⟨read, hbytes, -⟩ := h
  rw [hbytes, List.length_append]
  exact Nat.le_add_left _ _

theorem readsTo_next (c : Cursor) : c.ReadsTo c.next := by
  unfold next bump
  split
  · exact .refl c
  · next b rest hbytes => exact ⟨[b], hbytes, rfl⟩

theorem readsTo_bumpWhile (p : UInt8 → Bool) (c : Cursor) : c.ReadsTo (c.bumpWhile p) :=
  ⟨c.bytes.takeWhile p, List.takeWhile_append_dropWhile.symm, rfl⟩

theorem length_next_lt (h : c.peek = some b) : c.next.bytes.length < c.bytes.length := by
  obtain ⟨rest, hbytes⟩ := List.head?_eq_some_iff.mp h
  simp [next, bump, hbytes]

/-- A run that takes the next byte moves the cursor. -/
theorem length_bumpWhile_lt (h : c.peek = some b) (hb : p b = true) :
    (c.bumpWhile p).bytes.length < c.bytes.length := by
  obtain ⟨rest, hbytes⟩ := List.head?_eq_some_iff.mp h
  have hle : (rest.dropWhile p).length ≤ rest.length := (List.dropWhile_suffix p).length_le
  simp only [bumpWhile, hbytes, List.dropWhile_cons, hb, if_true, List.length_cons]
  omega

end Cursor

end ArticleAudit.Text
