import ArticleAudit.Text.Position
import ArticleAudit.Proofs.Text.Bytes
import ArticleAudit.Proofs.Text.WrittenLines
import ArticleAudit.Proofs.Text.Trimming

/-!
# Positions and lines

The position of an offset is computed from the bytes before it alone: the line counts their line
feeds, and the column what follows the last one (`positionAfter`). One more byte is one step
(`step_positionAfter`), and walking a text makes exactly these steps (`positionOf_eq`). Each step
goes on to a later position, so positions are in the order of the offsets (`positionOf_before`).
Lines that are ended count one each, so an offset is positioned on the line whose span contains it
(`positionOf_of_line`). A rope that counts line feeds and knows where lines start answers the same
(`LineMetric.position_eq`).
-/

set_option autoImplicit false

namespace ArticleAudit.Text

variable {cs : List Char}

/-- The byte that ends a line. -/
def lineFeed : UInt8 :=
  '\n'.toUInt8

theorem lineFeed_mem_bytesOf_iff : lineFeed ∈ bytesOf cs ↔ '\n' ∈ cs := by
  induction cs with
  | nil => simp
  | cons c rest ih =>
    rw [bytesOf_cons, List.mem_append, ih, List.mem_cons, lineFeed,
      toUInt8_mem_utf8EncodeChar_iff (by decide), eq_comm]

/-! ## One byte after another -/

/-- The offset just after the last line feed of some bytes; zero when there is none. -/
def lineStart (bytes : List UInt8) : Nat :=
  (dropEndWhile (· != lineFeed) bytes).length

/-- The position after some bytes. -/
def positionAfter (bytes : List UInt8) : Position :=
  ⟨bytes.count lineFeed, bytes.length - lineStart bytes⟩

/-- One byte starts a new line or moves right. -/
def Position.step (p : Position) (b : UInt8) : Position :=
  if b = lineFeed then ⟨p.line + 1, 0⟩ else ⟨p.line, p.column + 1⟩

theorem lineStart_concat_lineFeed (bytes : List UInt8) :
    lineStart (bytes ++ [lineFeed]) = bytes.length + 1 := by
  simp [lineStart, dropEndWhile]

theorem lineStart_concat {b : UInt8} (hb : b ≠ lineFeed) (bytes : List UInt8) :
    lineStart (bytes ++ [b]) = lineStart bytes := by
  simp [lineStart, dropEndWhile, hb]

theorem lineStart_le_length (bytes : List UInt8) : lineStart bytes ≤ bytes.length := by
  have h := (List.dropWhile_suffix (· != lineFeed) (l := bytes.reverse)).length_le
  simpa [lineStart, dropEndWhile] using h

/-- A step goes from the position after some bytes to the one after one byte more. -/
theorem step_positionAfter (bytes : List UInt8) (b : UInt8) :
    (positionAfter bytes).step b = positionAfter (bytes ++ [b]) := by
  have hle := lineStart_le_length bytes
  unfold Position.step
  split
  · next hb =>
    rw [hb, positionAfter, positionAfter, lineStart_concat_lineFeed]
    simp
  · next hb =>
    rw [positionAfter, positionAfter, lineStart_concat hb, List.length_append, List.count_append,
      List.count_singleton, if_neg (by simpa using hb), List.length_singleton,
      Nat.sub_add_comm hle]
    rfl

/-- So do more steps. -/
theorem foldl_step_positionAfter (bytes more : List UInt8) :
    more.foldl Position.step (positionAfter bytes) = positionAfter (bytes ++ more) := by
  induction more generalizing bytes with
  | nil => rw [List.append_nil, List.foldl_nil]
  | cons b more ih => rw [List.foldl_cons, step_positionAfter, ih, List.append_assoc]; rfl

/-- Within a line every byte moves right. -/
theorem foldl_step_of_not_mem {bytes : List UInt8} (h : lineFeed ∉ bytes) (p : Position) :
    bytes.foldl Position.step p = ⟨p.line, p.column + bytes.length⟩ := by
  induction bytes generalizing p with
  | nil => rfl
  | cons b bytes ih =>
    obtain ⟨hb, hbytes⟩ := List.ne_and_not_mem_of_not_mem_cons h
    rw [List.foldl_cons, ih hbytes, Position.step, if_neg (Ne.symm hb), List.length_cons,
      Nat.add_assoc, Nat.add_comm 1]

/-- Walking a text makes a step for each of the bytes it takes. -/
theorem Position.advance_eq (p : Position) (offset : Nat) (cs : List Char) :
    p.advance offset cs = ((bytesOf cs).take offset).foldl Position.step p := by
  induction cs generalizing p offset with
  | nil => simp [Position.advance]
  | cons c rest ih =>
    have hlength := String.length_utf8EncodeChar c
    rw [Position.advance, bytesOf_cons, List.take_append, List.foldl_append, hlength]
    split
    · next hlt =>
      -- The walk ends within the character, which therefore is no line feed, or right before it.
      have hnot : lineFeed ∉ (String.utf8EncodeChar c).take offset := by
        intro hmem
        have hc : c = '\n' :=
          (toUInt8_mem_utf8EncodeChar_iff (by decide)).mp (List.mem_of_mem_take hmem)
        subst hc
        obtain rfl : offset = 0 := Nat.lt_one_iff.mp hlt
        simp at hmem
      rw [foldl_step_of_not_mem hnot, Nat.sub_eq_zero_of_le hlt.le, List.take_zero, List.foldl_nil,
        List.length_take, hlength, Nat.min_eq_left hlt.le]
    · next hlt =>
      rw [List.take_of_length_le (by omega)]
      split
      · next hc =>
        subst hc
        rw [ih]
        rfl
      · next hc =>
        have hnot : lineFeed ∉ String.utf8EncodeChar c :=
          fun hmem => hc ((toUInt8_mem_utf8EncodeChar_iff (by decide)).mp hmem)
        rw [foldl_step_of_not_mem hnot, hlength, ih]

/-- The position of an offset is the one after the bytes before it. -/
theorem positionOf_eq (cs : List Char) (offset : Nat) :
    positionOf cs offset = positionAfter ((bytesOf cs).take offset) := by
  rw [positionOf, Position.advance_eq]
  exact foldl_step_positionAfter [] _

/-- An offset past the end stands for the end. -/
theorem positionOf_min (cs : List Char) (offset : Nat) :
    positionOf cs (min offset (byteSize cs)) = positionOf cs offset := by
  rw [positionOf_eq, positionOf_eq, ← length_bytesOf, ← List.take_eq_take_min]

/-! ## The order of positions -/

namespace Position

/-- An earlier line, or an earlier column on the same line. -/
def Before (p q : Position) : Prop :=
  p.line < q.line ∨ p.line = q.line ∧ p.column < q.column

variable {p q r : Position}

theorem Before.ne (h : p.Before q) : p ≠ q := by
  rintro rfl
  rcases h with h | ⟨-, h⟩
  · exact Nat.lt_irrefl _ h
  · exact Nat.lt_irrefl _ h

theorem Before.trans (hpq : p.Before q) (hqr : q.Before r) : p.Before r := by
  unfold Before at *
  omega

theorem before_step (p : Position) (b : UInt8) : p.Before (p.step b) := by
  unfold step
  split
  · exact .inl (Nat.lt_succ_self _)
  · exact .inr ⟨rfl, Nat.lt_succ_self _⟩

/-- Any steps at all lead to a later position. -/
theorem before_foldl_step {bytes : List UInt8} (h : bytes ≠ []) (p : Position) :
    p.Before (bytes.foldl step p) := by
  induction bytes generalizing p with
  | nil => exact absurd rfl h
  | cons b bytes ih =>
    rw [List.foldl_cons]
    cases bytes with
    | nil => exact before_step p b
    | cons next more =>
      apply (before_step p b).trans
      exact ih (List.cons_ne_nil next more) _

end Position

/-- Positions are in the order of the offsets, up to the end of the text. -/
theorem positionOf_before {a b : Nat} (hlt : a < b) (hb : b ≤ byteSize cs) :
    (positionOf cs a).Before (positionOf cs b) := by
  have hlength := length_bytesOf cs
  have hsplit : (bytesOf cs).take b =
      (bytesOf cs).take a ++ ((bytesOf cs).drop a).take (b - a) := by
    rw [← List.take_add, Nat.add_sub_cancel' hlt.le]
  have hne : ((bytesOf cs).drop a).take (b - a) ≠ [] := by
    rw [← List.length_pos_iff, List.length_take, List.length_drop]
    omega
  rw [positionOf_eq, positionOf_eq, hsplit, ← foldl_step_positionAfter]
  exact Position.before_foldl_step hne _

/-- So a position tells its offset. -/
theorem eq_of_positionOf_eq {a b : Nat} (ha : a ≤ byteSize cs) (hb : b ≤ byteSize cs)
    (h : positionOf cs a = positionOf cs b) : a = b := by
  rcases Nat.lt_trichotomy a b with hlt | heq | hlt
  · exact absurd h (positionOf_before hlt hb).ne
  · exact heq
  · exact absurd h.symm (positionOf_before hlt ha).ne

/-! ## The lines of a text -/

/-- Each line that is ended starts a new one. -/
theorem foldl_step_ended {lines : List (List Char)} (h : ∀ l ∈ lines, IsEnded l) (n : Nat) :
    (bytesOf lines.flatten).foldl Position.step ⟨n, 0⟩ = ⟨n + lines.length, 0⟩ := by
  induction lines generalizing n with
  | nil => rfl
  | cons line lines ih =>
    obtain ⟨⟨body, rfl, hbody⟩, hlines⟩ := List.forall_mem_cons.mp h
    have hnot : lineFeed ∉ bytesOf body := fun hmem => hbody (lineFeed_mem_bytesOf_iff.mp hmem)
    have hline : (bytesOf (body ++ ['\n'])).foldl Position.step ⟨n, 0⟩ = ⟨n + 1, 0⟩ := by
      rw [bytesOf_append, List.foldl_append, foldl_step_of_not_mem hnot]
      rfl
    rw [List.flatten_cons, bytesOf_append, List.foldl_append, hline, ih hlines, List.length_cons,
      Nat.add_assoc, Nat.add_comm 1]

/-- Only the last byte of a line may be a line feed. -/
theorem lineFeed_not_mem_take {line : List Char} (h : IsEnded line ∨ '\n' ∉ line) {n : Nat}
    (hn : n < byteSize line) : lineFeed ∉ (bytesOf line).take n := by
  rcases h with ⟨body, rfl, hbody⟩ | hline
  · have hle : n ≤ (bytesOf body).length := by
      rw [length_bytesOf]
      rw [byteSize_append] at hn
      exact Nat.le_of_lt_succ hn
    rw [bytesOf_append, List.take_append_of_le_length hle]
    exact fun hmem => hbody (lineFeed_mem_bytesOf_iff.mp (List.mem_of_mem_take hmem))
  · exact fun hmem => hline (lineFeed_mem_bytesOf_iff.mp (List.mem_of_mem_take hmem))

/-- A placed line has its number of lines before it, and their bytes. -/
theorem exists_split_of_placeLines {offset k : Nat} {lines : List (List Char)} {l : Line}
    (h : (placeLines offset lines)[k]? = some l) :
    ∃ before after, lines = before ++ l.text :: after ∧ before.length = k ∧
      l.span.start = offset + byteSize before.flatten ∧
      l.span.stop = l.span.start + byteSize l.text := by
  induction lines generalizing offset k with
  | nil => simp [placeLines] at h
  | cons line lines ih =>
    cases k with
    | zero =>
      obtain rfl := Option.some.inj h
      exact ⟨[], lines, rfl, rfl, rfl, rfl⟩
    | succ k =>
      obtain ⟨before, after, rfl, hlength, hstart, hstop⟩ := ih h
      refine ⟨line :: before, after, rfl, by rw [List.length_cons, hlength], ?_, hstop⟩
      rw [hstart, List.flatten_cons, byteSize_append, Nat.add_assoc]

/-- Every offset before the end lies on a line. -/
theorem exists_placed_line {offset o : Nat} {lines : List (List Char)} (hle : offset ≤ o)
    (hlt : o < offset + byteSize lines.flatten) :
    ∃ (k : Nat) (l : Line), (placeLines offset lines)[k]? = some l ∧
      l.span.start ≤ o ∧ o < l.span.stop := by
  induction lines generalizing offset with
  | nil =>
    rw [List.flatten_nil, byteSize_nil] at hlt
    omega
  | cons line lines ih =>
    rw [List.flatten_cons, byteSize_append] at hlt
    rcases Nat.lt_or_ge o (offset + byteSize line) with hline | hline
    · exact ⟨0, _, rfl, hle, hline⟩
    · obtain ⟨k, l, hk, hl⟩ := ih hline (by omega)
      exact ⟨k + 1, l, hk, hl⟩

theorem exists_line_of_lt {o : Nat} (h : o < byteSize cs) :
    ∃ (k : Nat) (l : Line), (linesOf cs)[k]? = some l ∧ l.span.start ≤ o ∧ o < l.span.stop := by
  apply exists_placed_line (Nat.zero_le o)
  rwa [flatten_splitLines, Nat.zero_add]

/-- An offset is positioned on the line whose span contains it, as far right as from its start. -/
theorem positionOf_of_line {k o : Nat} {l : Line} (hk : (linesOf cs)[k]? = some l)
    (hstart : l.span.start ≤ o) (hstop : o < l.span.stop) :
    positionOf cs o = ⟨k, o - l.span.start⟩ := by
  obtain ⟨before, after, hlines, rfl, hbefore, hline⟩ := exists_split_of_placeLines hk
  have hended := isEnded_of_splitLines hlines
  have hlast : IsEnded l.text ∨ '\n' ∉ l.text :=
    isEnded_or_not_mem (by rw [hlines]; exact List.mem_append_right _ List.mem_cons_self)
  have hnot := lineFeed_not_mem_take hlast (n := o - l.span.start) (by omega)
  rw [Nat.zero_add] at hbefore
  -- The bytes before the offset are those of the lines before, and a part of the line.
  have hbytes : (bytesOf cs).take o =
      bytesOf before.flatten ++ (bytesOf l.text).take (o - l.span.start) := by
    conv_lhs => rw [← flatten_splitLines cs, hlines, List.flatten_append, List.flatten_cons,
      bytesOf_append, bytesOf_append]
    rw [List.take_append, length_bytesOf, ← hbefore, List.take_of_length_le
      (by rw [length_bytesOf]; omega), List.take_append_of_le_length
      (by rw [length_bytesOf]; omega)]
  rw [positionOf, Position.advance_eq, hbytes, List.foldl_append, foldl_step_ended hended,
    foldl_step_of_not_mem hnot, List.length_take, length_bytesOf, Nat.zero_add, Nat.zero_add,
    Nat.min_eq_left (by omega)]

/-! ## Ropes -/

/-- What a rope knows of the lines of a text: how many line feeds precede an offset, and where each
line starts, the first one at zero and every other one after a line feed. -/
structure LineMetric (cs : List Char) where
  lineOf : Nat → Nat
  startOf : Nat → Nat
  lineOf_eq : ∀ o ≤ byteSize cs, lineOf o = ((bytesOf cs).take o).count lineFeed
  startOf_zero : startOf 0 = 0
  startOf_succ : ∀ p, (bytesOf cs)[p]? = some lineFeed →
    startOf (((bytesOf cs).take (p + 1)).count lineFeed) = p + 1

namespace LineMetric

/-- The position of an offset by the rope: its line, and how far the line starts before it. -/
def position (m : LineMetric cs) (offset : Nat) : Position :=
  let o := min offset (byteSize cs)
  ⟨m.lineOf o, o - m.startOf (m.lineOf o)⟩

/-- The line of an offset starts after the last line feed before it. By induction on the offset: a
line feed starts a line, and any other byte stays on the line. -/
theorem startOf_count (m : LineMetric cs) {o : Nat} (h : o ≤ byteSize cs) :
    m.startOf (((bytesOf cs).take o).count lineFeed) = lineStart ((bytesOf cs).take o) := by
  induction o with
  | zero => exact m.startOf_zero
  | succ o ih =>
    have hlt : o < (bytesOf cs).length := by rwa [length_bytesOf]
    have htake := List.take_append_getElem hlt
    by_cases hfeed : (bytesOf cs)[o] = lineFeed
    · rw [m.startOf_succ o (by rw [List.getElem?_eq_getElem hlt, hfeed]), ← htake, hfeed,
        lineStart_concat_lineFeed, List.length_take, Nat.min_eq_left hlt.le]
    · rw [← htake, lineStart_concat hfeed, ← ih (Nat.le_of_succ_le h), List.count_append,
        List.count_singleton, if_neg (by simpa using hfeed), Nat.add_zero]

theorem position_eq (m : LineMetric cs) (offset : Nat) :
    m.position offset = positionOf cs offset := by
  have hle : min offset (byteSize cs) ≤ byteSize cs := Nat.min_le_right _ _
  rw [← positionOf_min, positionOf_eq, positionAfter, position, m.lineOf_eq _ hle,
    m.startOf_count hle, List.length_take, length_bytesOf, Nat.min_eq_left hle]

/-- The rope of a text: a line starts where the lines before it end. -/
def ofText (cs : List Char) : LineMetric cs where
  lineOf o := ((bytesOf cs).take o).count lineFeed
  startOf k := byteSize ((splitLines cs).take k).flatten
  lineOf_eq _ _ := rfl
  startOf_zero := rfl
  startOf_succ := by
    intro p hp
    obtain ⟨hlt, hfeed⟩ := List.getElem?_eq_some_iff.mp hp
    obtain ⟨k, l, hk, hstart, hstop⟩ := exists_line_of_lt (length_bytesOf cs ▸ hlt)
    have hline : ∀ o, l.span.start ≤ o → o < l.span.stop →
        ((bytesOf cs).take o).count lineFeed = k := by
      intro o hstart hstop
      have hposition := positionOf_of_line hk hstart hstop
      rw [positionOf_eq] at hposition
      exact congrArg Position.line hposition
    have hnext : ((bytesOf cs).take (p + 1)).count lineFeed = k + 1 := by
      rw [← List.take_append_getElem hlt, List.count_append, hline p hstart hstop, hfeed]
      rfl
    -- The offset after the line feed is not on the line any more, so the line ends there.
    have hend : l.span.stop = p + 1 := by
      by_contra hne
      have hsame := hline (p + 1) (by omega) (by omega)
      omega
    obtain ⟨before, after, hlines, rfl, hbefore, hsize⟩ := exists_split_of_placeLines hk
    have htake : (splitLines cs).take (before.length + 1) = before ++ [l.text] := by
      rw [hlines, List.take_append, List.take_of_length_le (Nat.le_succ _), Nat.add_sub_cancel_left]
      rfl
    rw [hnext, htake, List.flatten_append, byteSize_append, List.flatten_singleton]
    omega

end LineMetric

end ArticleAudit.Text
