import ArticleAudit.Markdown.Inline
import ArticleAudit.Text.Cursor

/-!
# Inline text byte by byte

The scan of inline text with a cursor over its bytes. It looks for ASCII bytes only and reads the
bytes of other characters one by one. A construct that turns out not to be one leaves the cursor
where it was. The nodes are those that `parseInline` finds in the characters of the text.
-/

set_option autoImplicit false

namespace ArticleAudit.Markdown.InlineBytes

open ArticleAudit.Text

/-- The byte is a tick. -/
def isTick (b : UInt8) : Bool :=
  b == tick.toUInt8

/-- The byte is a space or a tab. -/
def isBlankByte (b : UInt8) : Bool :=
  b == ' '.toUInt8 || b == '\t'.toUInt8

/-! ## Code spans -/

/-- Reads up to the next run of exactly `run` ticks: where the run stands, and the cursor behind
it. -/
def closingRun? (run : Nat) (c : Cursor) : Option (Nat × Cursor) :=
  match _h : c.peek with
  | none => none
  | some b =>
    if _hb : isTick b then
      let behind := c.bumpWhile isTick
      if behind.position - c.position == run then some (c.position, behind)
      else closingRun? run behind
    else closingRun? run c.next
termination_by c.bytes.length
decreasing_by
  · exact Cursor.length_bumpWhile_lt _h _hb
  · exact Cursor.length_next_lt _h

/-- Reads a code span. -/
def codeSpan? (c : Cursor) : Option (Inline × Cursor) :=
  if c.peek == some tick.toUInt8 then
    let inner := c.bumpWhile isTick
    (closingRun? (inner.position - c.position) inner).map fun (close, behind) =>
      (.codeSpan ⟨c.position, behind.position⟩ ⟨inner.position, close⟩, behind)
  else none

/-! ## Links -/

/-- Reads the text of a link, up to the bracket that closes it. -/
def pastText? (depth : Nat) (c : Cursor) : Option Cursor :=
  match _h : c.peek with
  | none => none
  | some b =>
    if b == '\\'.toUInt8 then pastText? depth c.next.next
    else if b == '['.toUInt8 then pastText? (depth + 1) c.next
    else if b == ']'.toUInt8 then
      if depth == 0 then some c else pastText? (depth - 1) c.next
    else pastText? depth c.next
termination_by c.bytes.length
decreasing_by
  · exact Nat.lt_of_le_of_lt (Cursor.readsTo_next _).length_le (Cursor.length_next_lt _h)
  all_goals exact Cursor.length_next_lt _h

/-- Reads the target of a link, up to a blank or the parenthesis that closes the link. -/
def pastTarget? (depth : Nat) (c : Cursor) : Option Cursor :=
  match _h : c.peek with
  | none => none
  | some b =>
    if b == '\n'.toUInt8 then none
    else if isBlankByte b then some c
    else if b == '('.toUInt8 then pastTarget? (depth + 1) c.next
    else if b == ')'.toUInt8 then
      if depth == 0 then some c else pastTarget? (depth - 1) c.next
    else pastTarget? depth c.next
termination_by c.bytes.length
decreasing_by
  all_goals exact Cursor.length_next_lt _h

/-- Reads a title, from the quote that comes next to the same quote on the same line. -/
def pastTitle? (c : Cursor) : Option Cursor :=
  match c.peek with
  | none => none
  | some quote =>
    let close := c.next.bumpWhile fun b => b != quote && b != '\n'.toUInt8
    if close.peek == some quote then some close.next else none

/-- Reads the parenthesis that closes a link. -/
def pastClose? (c : Cursor) : Option Cursor :=
  if c.peek == some ')'.toUInt8 then some c.next else none

/-- Reads what follows the target: blanks, a title if a quote comes next, blanks and the
parenthesis. -/
def pastTail? (c : Cursor) : Option Cursor :=
  let tail := c.bumpWhile isBlankByte
  if tail.peek == some '"'.toUInt8 || tail.peek == some '\''.toUInt8 then
    (pastTitle? tail).bind fun close => pastClose? (close.bumpWhile isBlankByte)
  else pastClose? tail

/-- Reads a link whose text starts at the second cursor. -/
def linkFrom? (image : Bool) (start text : Cursor) : Option (Inline × Cursor) := do
  let close ← pastText? 0 text
  if close.next.peek == some '('.toUInt8 then
    let target := close.next.next.bumpWhile (· == ' '.toUInt8)
    let targetEnd ← pastTarget? 0 target
    let behind ← pastTail? targetEnd
    return (.link ⟨start.position, behind.position⟩ ⟨text.position, close.position⟩
      ⟨target.position, targetEnd.position⟩ image, behind)
  else none

/-- Reads a link or an image. -/
def link? (c : Cursor) : Option (Inline × Cursor) :=
  if c.peek == some '!'.toUInt8 && c.peekAt 1 == some '['.toUInt8 then linkFrom? true c c.next.next
  else if c.peek == some '['.toUInt8 then linkFrom? false c c.next
  else none

/-- Reads a construct; a code span goes before a link. -/
def construct? (c : Cursor) : Option (Inline × Cursor) :=
  (codeSpan? c).orElse fun _ => link? c

/-! ## The scan

A reader leaves the cursor further on in the same bytes, and a construct takes one of them at least,
so the scan comes to the end.
-/

variable {run depth : Nat} {c c' : Cursor}

theorem readsTo_closingRun? {close : Nat} (h : closingRun? run c = some (close, c')) :
    c.ReadsTo c' := by
  fun_induction closingRun? run c with
  | case1 => cases h
  | case2 c =>
    obtain ⟨-, rfl⟩ := Prod.mk.inj (Option.some.inj h)
    exact Cursor.readsTo_bumpWhile _ c
  | case3 c _ _ _ _ _ ih => exact (Cursor.readsTo_bumpWhile _ c).trans (ih h)
  | case4 c _ _ _ ih => exact (Cursor.readsTo_next c).trans (ih h)

theorem readsTo_pastText? (h : pastText? depth c = some c') : c.ReadsTo c' := by
  fun_induction pastText? depth c with
  | case1 => cases h
  | case2 _ c _ _ _ ih => exact ((Cursor.readsTo_next c).trans (Cursor.readsTo_next _)).trans (ih h)
  | case4 =>
    obtain rfl := Option.some.inj h
    exact .refl _
  | _ => rename_i ih; exact (Cursor.readsTo_next _).trans (ih h)

theorem readsTo_pastTarget? (h : pastTarget? depth c = some c') : c.ReadsTo c' := by
  fun_induction pastTarget? depth c with
  | case1 => cases h
  | case2 => cases h
  | case3 =>
    obtain rfl := Option.some.inj h
    exact .refl _
  | case5 =>
    obtain rfl := Option.some.inj h
    exact .refl _
  | _ => rename_i ih; exact (Cursor.readsTo_next _).trans (ih h)

theorem readsTo_pastTitle? (h : pastTitle? c = some c') : c.ReadsTo c' := by
  unfold pastTitle? at h
  split at h
  · cases h
  · obtain ⟨-, h⟩ := Option.ite_none_right_eq_some.mp h
    obtain rfl := Option.some.inj h
    exact ((Cursor.readsTo_next _).trans (Cursor.readsTo_bumpWhile _ _)).trans
      (Cursor.readsTo_next _)

theorem readsTo_pastClose? (h : pastClose? c = some c') : c.ReadsTo c' := by
  obtain ⟨-, h⟩ := Option.ite_none_right_eq_some.mp h
  obtain rfl := Option.some.inj h
  exact Cursor.readsTo_next c

theorem readsTo_pastTail? (h : pastTail? c = some c') : c.ReadsTo c' := by
  have hblanks := Cursor.readsTo_bumpWhile isBlankByte c
  unfold pastTail? at h
  simp only at h
  split at h
  · obtain ⟨close, htitle, hclose⟩ := Option.bind_eq_some_iff.mp h
    exact (hblanks.trans (readsTo_pastTitle? htitle)).trans
      ((Cursor.readsTo_bumpWhile _ close).trans (readsTo_pastClose? hclose))
  · exact hblanks.trans (readsTo_pastClose? h)

theorem readsTo_linkFrom? {image : Bool} {start text : Cursor} {node : Inline}
    (h : linkFrom? image start text = some (node, c')) : text.ReadsTo c' := by
  obtain ⟨close, hclose, h⟩ := Option.bind_eq_some_iff.mp h
  obtain ⟨-, h⟩ := Option.ite_none_right_eq_some.mp h
  obtain ⟨targetEnd, htarget, h⟩ := Option.bind_eq_some_iff.mp h
  obtain ⟨behind, htail, h⟩ := Option.bind_eq_some_iff.mp h
  obtain ⟨-, rfl⟩ := Prod.mk.inj (Option.some.inj h)
  have htext := (readsTo_pastText? hclose).trans
    ((Cursor.readsTo_next _).trans (Cursor.readsTo_next _))
  exact (htext.trans (Cursor.readsTo_bumpWhile _ _)).trans
    ((readsTo_pastTarget? htarget).trans (readsTo_pastTail? htail))

/-- A construct takes its opening byte at least. -/
theorem length_construct?_lt {node : Inline} (h : construct? c = some (node, c')) :
    c'.bytes.length < c.bytes.length := by
  have hlink : ∀ {image : Bool} {text : Cursor} {b : UInt8}, c.peek = some b →
      c.next.ReadsTo text → linkFrom? image c text = some (node, c') →
      c'.bytes.length < c.bytes.length := by
    intro image text b hb htext hread
    exact Nat.lt_of_le_of_lt (htext.trans (readsTo_linkFrom? hread)).length_le
      (Cursor.length_next_lt hb)
  cases hcode : codeSpan? c with
  | some found =>
    rw [construct?, hcode] at h
    obtain rfl := Option.some.inj h
    obtain ⟨htick, hcode⟩ := Option.ite_none_right_eq_some.mp hcode
    obtain ⟨⟨close, behind⟩, hclose, hcode⟩ := Option.map_eq_some_iff.mp hcode
    obtain ⟨-, rfl⟩ := Prod.mk.inj hcode
    exact Nat.lt_of_le_of_lt (readsTo_closingRun? hclose).length_le
      (Cursor.length_bumpWhile_lt (beq_iff_eq.mp htick) (beq_self_eq_true _))
  | none =>
    rw [construct?, hcode] at h
    replace h : link? c = some (node, c') := h
    unfold link? at h
    split at h
    · next himage =>
      exact hlink (beq_iff_eq.mp (Bool.and_eq_true_iff.mp himage).1) (Cursor.readsTo_next _) h
    · obtain ⟨hbracket, h⟩ := Option.ite_none_right_eq_some.mp h
      exact hlink (beq_iff_eq.mp hbracket) (.refl _) h

/-- Scans the bytes that are left, with plain text pending from `start` on. -/
def scan (start : Nat) (c : Cursor) : List Inline :=
  match _h : c.peek with
  | none => plainText start c.position
  | some b =>
    if b == '\\'.toUInt8 then scan start c.next.next
    else
      match _hfound : construct? c with
      | some (node, behind) =>
        plainText start node.full.start ++ node :: scan node.full.stop behind
      | none => scan start c.next
termination_by c.bytes.length
decreasing_by
  · exact Nat.lt_of_le_of_lt (Cursor.readsTo_next _).length_le (Cursor.length_next_lt _h)
  · exact length_construct?_lt _hfound
  · exact Cursor.length_next_lt _h

/-- The inline nodes of a text that stands at `base` in the document. -/
def nodes (base : Nat) (s : String) : List Inline :=
  scan base (Cursor.ofString base s)

end ArticleAudit.Markdown.InlineBytes
