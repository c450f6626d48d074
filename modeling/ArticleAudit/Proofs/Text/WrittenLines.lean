import ArticleAudit.Proofs.Text.Trimming
import ArticleAudit.Text.Line

/-!
# Texts that are written line by line

A text that is written as lines, each with a line break behind it, is split into these lines again
(`splitLines_written`), and dropping the terminator of each gives the lines without the line breaks
(`dropTerminator_append`).

Of the lines of a text every one but the last is ended by a line feed (`isEnded_of_splitLines`), and
lines that are ended are split off from whatever follows them (`splitLines_flatten_append`). So
where a line ends, a text can be cut without cutting a line (`splitLines_append`). Without its
terminator no line has a line feed (`not_mem_dropTerminator`).
-/

set_option autoImplicit false

namespace ArticleAudit.Text

variable {body rest eol tail : List Char}

/-- A line feed, or a carriage return and a line feed. -/
def IsLineBreak (eol : List Char) : Prop :=
  eol = ['\n'] ∨ eol = ['\r', '\n']

/-- No character of the text ends a line. -/
def OneLine (body : List Char) : Prop :=
  ∀ c ∈ body, isLineEnd c = false

theorem OneLine.not_mem_lineFeed (h : OneLine body) : '\n' ∉ body := by
  intro hmem
  have hfeed := h '\n' hmem
  cases hfeed

theorem OneLine.getLast? (h : OneLine body) : ∀ c ∈ body.getLast?, isLineEnd c = false :=
  fun c hc => h c (List.mem_of_getLast? hc)

theorem IsLineBreak.isLineEnd (h : IsLineBreak eol) : ∀ c ∈ eol, isLineEnd c = true := by
  rcases h with rfl | rfl
  · exact List.all_eq_true.mp rfl
  · exact List.all_eq_true.mp rfl

/-- A line feed ends the line that it is the first one after. -/
theorem splitLines_lineFeed (h : '\n' ∉ body) (rest : List Char) :
    splitLines (body ++ '\n' :: rest) = (body ++ ['\n']) :: splitLines rest := by
  induction body with
  | nil => rw [List.nil_append, splitLines, if_pos rfl, List.nil_append]
  | cons c body ih =>
    rw [List.mem_cons, not_or] at h
    rw [List.cons_append, splitLines, if_neg (Ne.symm h.1), ih h.2]
    rfl

/-- A line break ends its line. -/
theorem splitLines_line (hbody : OneLine body) (heol : IsLineBreak eol) (rest : List Char) :
    splitLines (body ++ eol ++ rest) = (body ++ eol) :: splitLines rest := by
  rcases heol with rfl | rfl
  · rw [List.append_assoc]
    exact splitLines_lineFeed hbody.not_mem_lineFeed rest
  · -- Only the line feed splits; the carriage return belongs to the line before it.
    have hreturn : '\n' ∉ body ++ ['\r'] := by
      simpa using hbody.not_mem_lineFeed
    have hsplit := splitLines_lineFeed hreturn rest
    simpa only [List.append_assoc, List.cons_append, List.nil_append] using hsplit

/-- The last line may lack a line break. -/
theorem splitLines_last (hbody : OneLine body) (hne : body ≠ [])
    (htail : tail = [] ∨ IsLineBreak tail) : splitLines (body ++ tail) = [body ++ tail] := by
  rcases htail with rfl | htail
  · rw [List.append_nil]
    induction body with
    | nil => exact absurd rfl hne
    | cons c body ih =>
      have hc : c ≠ '\n' := by
        rintro rfl
        exact hbody.not_mem_lineFeed List.mem_cons_self
      rw [splitLines, if_neg hc]
      cases body with
      | nil => rfl
      | cons d body =>
        rw [ih (fun x hx => hbody x (List.mem_cons_of_mem _ hx)) (List.cons_ne_nil _ _)]
  · have hsplit := splitLines_line hbody htail []
    rwa [List.append_nil] at hsplit

/-- Lines that are written one after the other are found again. -/
theorem splitLines_written {lines : List (List Char)} (hlines : ∀ l ∈ lines, OneLine l)
    (heol : IsLineBreak eol) (rest : List Char) :
    splitLines (lines.flatMap (· ++ eol) ++ rest) = lines.map (· ++ eol) ++ splitLines rest := by
  induction lines with
  | nil => rfl
  | cons line lines ih =>
    obtain ⟨hline, hlines⟩ := List.forall_mem_cons.mp hlines
    rw [List.flatMap_cons, List.append_assoc, splitLines_line hline heol, ih hlines]
    rfl

/-- Only the line break of a line is dropped. -/
theorem dropTerminator_append (hbody : OneLine body) (htail : tail = [] ∨ IsLineBreak tail) :
    dropTerminator (body ++ tail) = body := by
  have hlast : ∀ c rest, body.reverse = c :: rest → isLineEnd c = false := by
    intro c rest hreverse
    exact hbody c (List.mem_reverse.mp (hreverse ▸ List.mem_cons_self))
  unfold dropTerminator
  rw [List.reverse_append]
  -- No matter how the line ends, the last character of the body is kept.
  rcases htail with rfl | rfl | rfl
  · rw [List.reverse_nil, List.nil_append, List.append_nil]
    split
    · next hfeed => exact absurd (hlast _ _ hfeed) (by decide)
    · next hfeed => exact absurd (hlast _ _ hfeed) (by decide)
    · rfl
  · rw [List.reverse_singleton, List.singleton_append]
    split
    · next hreturn => exact absurd (hlast _ _ (List.cons.inj hreturn).2) (by decide)
    · next hrest => rw [← (List.cons.inj hrest).2, List.reverse_reverse]
    · next hnone => exact absurd rfl (hnone _)
  · exact List.reverse_reverse body

/-- The content of a line is what is written of it. -/
theorem dropEndWhile_isLineEnd (hbody : OneLine body) (htail : tail = [] ∨ IsLineBreak tail) :
    dropEndWhile isLineEnd (body ++ tail) = body := by
  have hself := dropEndWhile_eq_self_iff.mpr hbody.getLast?
  rcases htail with rfl | htail
  · rwa [List.append_nil]
  · rw [dropEndWhile_append_of_all htail.isLineEnd, hself]

/-! ## Lines that are ended -/

variable {cs a : List Char} {lines more : List (List Char)}

/-- A line with its line feed. -/
def IsEnded (line : List Char) : Prop :=
  ∃ body, line = body ++ ['\n'] ∧ '\n' ∉ body

/-- Lines that are ended are split off. -/
theorem splitLines_flatten_append (h : ∀ l ∈ lines, IsEnded l) (rest : List Char) :
    splitLines (lines.flatten ++ rest) = lines ++ splitLines rest := by
  induction lines with
  | nil => rfl
  | cons line lines ih =>
    obtain ⟨⟨body, rfl, hbody⟩, hlines⟩ := List.forall_mem_cons.mp h
    have hline := splitLines_lineFeed hbody (lines.flatten ++ rest)
    rw [ih hlines] at hline
    simpa using hline

theorem splitLines_flatten (h : ∀ l ∈ lines, IsEnded l) : splitLines lines.flatten = lines := by
  have hsplit := splitLines_flatten_append h []
  rwa [List.append_nil, splitLines, List.append_nil] at hsplit

/-- A line before another one is ended. -/
theorem isEnded_of_splitLines {next : List Char} (h : splitLines cs = lines ++ next :: more) :
    ∀ l ∈ lines, IsEnded l := by
  induction cs generalizing lines next more with
  | nil =>
    rw [splitLines] at h
    simp at h
  | cons c cs ih =>
    cases lines with
    | nil => exact fun _ hl => absurd hl List.not_mem_nil
    | cons line lines =>
      rw [splitLines, List.cons_append] at h
      split at h
      · next hc =>
        obtain ⟨rfl, hrest⟩ := List.cons.inj h
        exact List.forall_mem_cons.mpr ⟨⟨[], by rw [hc]; rfl, List.not_mem_nil⟩, ih hrest⟩
      · next hc =>
        split at h
        · simp at h
        · next first others hsplit =>
          -- The character stands before the first line of the rest.
          obtain ⟨rfl, rfl⟩ := List.cons.inj h
          have hrest : splitLines cs = (first :: lines) ++ next :: more := hsplit
          obtain ⟨⟨body, rfl, hbody⟩, hlines⟩ := List.forall_mem_cons.mp (ih hrest)
          refine List.forall_mem_cons.mpr ⟨⟨c :: body, rfl, ?_⟩, hlines⟩
          simp [hbody, Ne.symm hc]

/-- A line of a text is ended, or it is the last one and has no line feed. -/
theorem isEnded_or_not_mem {line : List Char} (h : line ∈ splitLines cs) :
    IsEnded line ∨ '\n' ∉ line := by
  induction cs generalizing line with
  | nil => exact absurd h List.not_mem_nil
  | cons c cs ih =>
    rw [splitLines] at h
    split at h
    · next hc =>
      rcases List.mem_cons.mp h with rfl | h
      · exact .inl ⟨[], by rw [hc]; rfl, List.not_mem_nil⟩
      · exact ih h
    · next hc =>
      split at h
      · obtain rfl := List.mem_singleton.mp h
        simp [Ne.symm hc]
      · next first others hsplit =>
        rw [hsplit] at ih
        rcases List.mem_cons.mp h with rfl | h
        · -- The character stands before the first line of the rest.
          rcases ih List.mem_cons_self with ⟨body, rfl, hbody⟩ | hfirst
          · exact .inl ⟨c :: body, rfl, by simp [hbody, Ne.symm hc]⟩
          · exact .inr (by simp [hfirst, Ne.symm hc])
        · exact ih (List.mem_cons_of_mem _ h)

/-! ## Lines without their terminators -/

theorem dropTerminator_lineFeed (h : ∀ c ∈ a.getLast?, c ≠ '\r') :
    dropTerminator (a ++ ['\n']) = a := by
  have hreverse : (a ++ ['\n']).reverse = '\n' :: a.reverse := by simp
  rw [dropTerminator, hreverse]
  split
  · next rest heq =>
    have hlast : a.getLast? = some '\r' := by
      rw [← List.head?_reverse, (List.cons.inj heq).2, List.head?_cons]
    exact absurd rfl (h '\r' hlast)
  · next heq => rw [← (List.cons.inj heq).2, List.reverse_reverse]
  · next hnone => exact absurd rfl (hnone _)

theorem dropTerminator_isPrefix_of_lineFeed (a : List Char) :
    dropTerminator (a ++ ['\n']) <+: a := by
  rcases List.eq_nil_or_concat a with rfl | ⟨front, c, rfl⟩
  · exact List.nil_prefix
  · rw [List.concat_eq_append]
    by_cases hc : c = '\r'
    · rw [hc, dropTerminator]
      simp
    · have hkept := dropTerminator_lineFeed (a := front ++ [c]) (by simpa using hc)
      exact ⟨[], by rw [hkept, List.append_nil]⟩

/-- A line of a text has no line feed but the one that ends it. -/
theorem not_mem_dropTerminator {line : List Char} (h : line ∈ splitLines cs) :
    '\n' ∉ dropTerminator line := by
  rcases isEnded_or_not_mem h with ⟨body, rfl, hbody⟩ | hline
  · exact fun hmem => hbody ((dropTerminator_isPrefix_of_lineFeed body).subset hmem)
  · rw [dropTerminator]
    split
    · next rest heq =>
      exact absurd (List.mem_reverse.mp (heq ▸ List.mem_cons_self)) hline
    · next rest heq =>
      exact absurd (List.mem_reverse.mp (heq ▸ List.mem_cons_self)) hline
    · exact hline

/-! ## Texts that are cut where a line ends -/

/-- What follows a line feed is split by itself. -/
theorem splitLines_append_lineFeed (a b : List Char) :
    splitLines (a ++ '\n' :: b) = splitLines (a ++ ['\n']) ++ splitLines b := by
  induction a with
  | nil => rfl
  | cons c a ih =>
    rw [List.cons_append, List.cons_append, splitLines, splitLines]
    split
    · rw [ih, List.cons_append]
    · cases hsplit : splitLines (a ++ ['\n']) with
      | nil =>
        have hflatten := flatten_splitLines (a ++ ['\n'])
        rw [hsplit] at hflatten
        simp at hflatten
      | cons line lines =>
        rw [ih, hsplit]
        rfl

/-- A text that is empty or ends with a line feed is split by itself. -/
theorem splitLines_append (ha : ∀ c ∈ a.getLast?, c = '\n') (b : List Char) :
    splitLines (a ++ b) = splitLines a ++ splitLines b := by
  rcases List.eq_nil_or_concat a with rfl | ⟨front, c, rfl⟩
  · rfl
  · rw [List.concat_eq_append] at ha ⊢
    obtain rfl : c = '\n' := ha c (by simp)
    rw [List.append_assoc]
    exact splitLines_append_lineFeed front b

/-! ## Where lines stand -/

theorem placeLines_append (offset : Nat) (a b : List (List Char)) :
    placeLines offset (a ++ b) =
      placeLines offset a ++ placeLines (offset + byteSize a.flatten) b := by
  induction a generalizing offset with
  | nil => simp [placeLines]
  | cons line rest ih => simp [placeLines, ih, Nat.add_assoc]

/-- Lines that follow a text stand in the whole one by one. -/
theorem stands_of_mem_placeLines {source : List Char} (before : List Char) {raw : Line}
    (hsource : source = before ++ lines.flatten) (hraw : raw ∈ placeLines (byteSize before) lines) :
    Stands source raw.span.start raw.text ∧ raw.text ∈ lines := by
  induction lines generalizing before with
  | nil => cases hraw
  | cons line rest ih =>
    have hsource' : source = (before ++ line) ++ rest.flatten := by
      rw [hsource, List.flatten_cons, List.append_assoc]
    rcases List.mem_cons.mp hraw with rfl | hraw
    · exact ⟨⟨before, rest.flatten, hsource', rfl⟩, List.mem_cons_self⟩
    · rw [← byteSize_append] at hraw
      obtain ⟨hstands, hmem⟩ := ih _ hsource' hraw
      exact ⟨hstands, List.mem_cons_of_mem line hmem⟩

/-- Lines stand between the first offset and the end of them all, each over its text. -/
theorem bounds_of_mem_placeLines {offset : Nat} {raw : Line}
    (hraw : raw ∈ placeLines offset lines) :
    offset ≤ raw.span.start ∧ raw.span.stop = raw.span.start + byteSize raw.text ∧
      raw.span.stop ≤ offset + byteSize lines.flatten := by
  induction lines generalizing offset with
  | nil => cases hraw
  | cons line rest ih =>
    rw [List.flatten_cons, byteSize_append]
    rcases List.mem_cons.mp hraw with rfl | hraw
    · refine ⟨Nat.le_refl _, rfl, ?_⟩
      show offset + byteSize line ≤ _
      omega
    · obtain ⟨hstart, hstop, hle⟩ := ih hraw
      exact ⟨by omega, hstop, by omega⟩

end ArticleAudit.Text
