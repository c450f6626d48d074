import ArticleAudit.Proofs.Text.Trimming
import ArticleAudit.Text.Line
import Mathlib.Order.MinMax

/-!
# Carriage returns before line feeds

`crlf` puts a carriage return before each line feed, and `crlfOffset` says where an offset of the
text comes to lie. Offsets keep their order (`crlfOffset_strictMono`), every span has the same text
but for the carriage returns (`slice_crlf`), and the lines are the same but for them
(`splitLines_crlf`). Within a line offsets move as the line does (`MovesAlong`).
-/

set_option autoImplicit false

namespace ArticleAudit.Text

variable {source cs a b : List Char} {m n : Nat}

/-- The text with a carriage return before each line feed. -/
def crlf (cs : List Char) : List Char :=
  cs.flatMap fun c => if c = '\n' then ['\r', '\n'] else [c]

/-- The number of line feeds that start before byte `n` of a text. -/
def lineFeedsBefore : Nat → List Char → Nat
  | 0, _ => 0
  | _ + 1, [] => 0
  | n + 1, c :: rest => (if c = '\n' then 1 else 0) + lineFeedsBefore (n + 1 - c.utf8Size) rest

/-- Where byte `n` of a text stands in `crlf` of the text. -/
def crlfOffset (cs : List Char) (n : Nat) : Nat :=
  n + lineFeedsBefore n cs

/-- The span that a span of a text becomes. -/
def Span.crlf (source : List Char) (s : Span) : Span :=
  ⟨crlfOffset source s.start, crlfOffset source s.stop⟩

@[simp] theorem Span.start_crlf (source : List Char) (s : Span) :
    (s.crlf source).start = crlfOffset source s.start := rfl

@[simp] theorem Span.stop_crlf (source : List Char) (s : Span) :
    (s.crlf source).stop = crlfOffset source s.stop := rfl

theorem Span.crlf_mk (source : List Char) (m n : Nat) :
    (⟨crlfOffset source m, crlfOffset source n⟩ : Span) = Span.crlf source ⟨m, n⟩ := rfl

/-! ## The text -/

@[simp] theorem crlf_nil : crlf [] = [] := rfl

@[simp] theorem crlf_lineFeed (rest : List Char) :
    crlf ('\n' :: rest) = '\r' :: '\n' :: crlf rest := rfl

theorem crlf_cons {c : Char} (h : c ≠ '\n') (rest : List Char) :
    crlf (c :: rest) = c :: crlf rest := by
  unfold crlf
  rw [List.flatMap_cons, if_neg h]
  rfl

theorem crlf_append (a b : List Char) : crlf (a ++ b) = crlf a ++ crlf b :=
  List.flatMap_append

/-- A text on one line has no carriage returns to take. -/
theorem crlf_eq_self (h : '\n' ∉ cs) : crlf cs = cs := by
  induction cs with
  | nil => rfl
  | cons c rest ih =>
    rw [crlf_cons (List.ne_of_not_mem_cons h).symm, ih (List.not_mem_of_not_mem_cons h)]

theorem utf8Size_lineFeed : Char.utf8Size '\n' = 1 := rfl

theorem byteSize_crlf (cs : List Char) : byteSize (crlf cs) = byteSize cs + cs.count '\n' := by
  induction cs with
  | nil => rfl
  | cons c rest ih =>
    by_cases hc : c = '\n'
    · have hreturn : Char.utf8Size '\r' = 1 := rfl
      rw [hc, crlf_lineFeed, List.count_cons_self]
      simp only [byteSize_cons, ih, hreturn, utf8Size_lineFeed]
      omega
    · rw [crlf_cons hc, List.count_cons_of_ne hc]
      simp only [byteSize_cons, ih]
      omega

/-- A run of characters that are no line ends is the same run. -/
theorem takeWhile_crlf {p : Char → Bool} (hfeed : p '\n' = false) (hreturn : p '\r' = false)
    (cs : List Char) : (crlf cs).takeWhile p = cs.takeWhile p := by
  induction cs with
  | nil => rfl
  | cons c rest ih =>
    by_cases hc : c = '\n'
    · rw [hc, crlf_lineFeed, List.takeWhile_cons_of_neg (by simp [hreturn]),
        List.takeWhile_cons_of_neg (by simp [hfeed])]
    · rw [crlf_cons hc, List.takeWhile_cons, List.takeWhile_cons, ih]

theorem dropWhile_crlf {p : Char → Bool} (hfeed : p '\n' = false) (hreturn : p '\r' = false)
    (cs : List Char) : (crlf cs).dropWhile p = crlf (cs.dropWhile p) := by
  induction cs with
  | nil => rfl
  | cons c rest ih =>
    by_cases hc : c = '\n'
    · rw [hc, crlf_lineFeed, List.dropWhile_cons_of_neg (by simp [hreturn]),
        List.dropWhile_cons_of_neg (by simp [hfeed]), crlf_lineFeed]
    · rw [crlf_cons hc, List.dropWhile_cons, List.dropWhile_cons, ih]
      split
      · rfl
      · rw [crlf_cons hc]

/-- What is cut off the end together with line ends is cut off with carriage returns too. -/
theorem dropEndWhile_crlf {p : Char → Bool} (hfeed : p '\n' = true) (hreturn : p '\r' = true)
    (cs : List Char) : dropEndWhile p (crlf cs) = crlf (dropEndWhile p cs) := by
  obtain ⟨tail, hcs, htail⟩ := exists_dropEndWhile_append p cs
  have hidem := dropEndWhile_idem p cs
  generalize dropEndWhile p cs = front at hcs hidem ⊢
  have htail' : ∀ c ∈ crlf tail, p c = true := by
    intro c hc
    obtain ⟨d, hd, hmem⟩ := List.mem_flatMap.mp hc
    split at hmem
    · rcases List.mem_pair.mp hmem with rfl | rfl
      · exact hreturn
      · exact hfeed
    · rw [List.mem_singleton.mp hmem]
      exact htail d hd
  rw [hcs, crlf_append, dropEndWhile_append_of_all htail']
  -- The last character that stays is no line feed, so the image of the front ends in it too.
  rcases List.eq_nil_or_concat front with rfl | ⟨init, last, rfl⟩
  · rfl
  · rw [List.concat_eq_append] at hidem ⊢
    have hlast := dropEndWhile_eq_self_iff.mp hidem last List.getLast?_concat
    have hne : last ≠ '\n' := by
      rintro rfl
      rw [hfeed] at hlast
      cases hlast
    have hcrlf : crlf (init ++ [last]) = crlf init ++ [last] := by
      rw [crlf_append, crlf_cons hne, crlf_nil]
    rw [hcrlf, dropEndWhile_eq_self_iff]
    intro c hc
    rw [List.getLast?_concat] at hc
    rw [← Option.some.inj hc]
    exact hlast

/-! ## Offsets -/

@[simp] theorem crlfOffset_zero (cs : List Char) : crlfOffset cs 0 = 0 := by
  simp [crlfOffset, lineFeedsBefore]

theorem lineFeedsBefore_cons (c : Char) (rest : List Char) (n : Nat) :
    lineFeedsBefore (c.utf8Size + n) (c :: rest) =
      (if c = '\n' then 1 else 0) + lineFeedsBefore n rest := by
  obtain ⟨k, hk⟩ : ∃ k, c.utf8Size + n = k + 1 := by
    have := c.utf8Size_pos
    exact ⟨c.utf8Size + n - 1, by omega⟩
  rw [hk, lineFeedsBefore, ← hk, Nat.add_sub_cancel_left]

theorem lineFeedsBefore_append (a b : List Char) (n : Nat) :
    lineFeedsBefore (byteSize a + n) (a ++ b) = a.count '\n' + lineFeedsBefore n b := by
  induction a with
  | nil => simp
  | cons c rest ih =>
    rw [byteSize_cons, Nat.add_assoc, List.cons_append, lineFeedsBefore_cons, ih, List.count_cons]
    by_cases hc : c = '\n'
    · simp only [hc, if_true, beq_self_eq_true]
      omega
    · simp [hc]

/-- After a first part of the text its carriage returns are counted. -/
theorem crlfOffset_append (a b : List Char) (n : Nat) :
    crlfOffset (a ++ b) (byteSize a + n) = byteSize (crlf a) + crlfOffset b n := by
  unfold crlfOffset
  rw [lineFeedsBefore_append, byteSize_crlf]
  omega

theorem crlfOffset_byteSize (a b : List Char) :
    crlfOffset (a ++ b) (byteSize a) = byteSize (crlf a) := by
  simpa using crlfOffset_append a b 0

/-- No line feed starts within a text on one line. -/
theorem lineFeedsBefore_eq_zero (h : '\n' ∉ cs) (rest : List Char) (hn : n ≤ byteSize cs) :
    lineFeedsBefore n (cs ++ rest) = 0 := by
  induction cs generalizing n with
  | nil =>
    obtain rfl : n = 0 := Nat.le_zero.mp hn
    rw [lineFeedsBefore]
  | cons c cs ih =>
    cases n with
    | zero => rw [lineFeedsBefore]
    | succ n =>
      rw [byteSize_cons] at hn
      rw [List.cons_append, lineFeedsBefore, if_neg (List.ne_of_not_mem_cons h).symm,
        ih (List.not_mem_of_not_mem_cons h) (by omega)]

theorem lineFeedsBefore_mono (cs : List Char) (h : m ≤ n) :
    lineFeedsBefore m cs ≤ lineFeedsBefore n cs := by
  induction cs generalizing m n with
  | nil => cases m <;> cases n <;> simp [lineFeedsBefore]
  | cons c rest ih =>
    cases m with
    | zero => simp [lineFeedsBefore]
    | succ m =>
      obtain ⟨k, rfl⟩ : ∃ k, n = k + 1 := ⟨n - 1, by omega⟩
      rw [lineFeedsBefore, lineFeedsBefore]
      exact Nat.add_le_add_left (ih (by omega)) _

/-- Offsets keep their order. -/
theorem crlfOffset_strictMono (cs : List Char) : StrictMono (crlfOffset cs) := by
  intro m n h
  have := lineFeedsBefore_mono cs h.le
  unfold crlfOffset
  omega

theorem crlfOffset_le_iff {cs : List Char} : crlfOffset cs m ≤ crlfOffset cs n ↔ m ≤ n :=
  (crlfOffset_strictMono cs).le_iff_le

theorem crlfOffset_lt_iff {cs : List Char} : crlfOffset cs m < crlfOffset cs n ↔ m < n :=
  (crlfOffset_strictMono cs).lt_iff_lt

theorem crlfOffset_max (cs : List Char) (m n : Nat) :
    crlfOffset cs (max m n) = max (crlfOffset cs m) (crlfOffset cs n) :=
  (crlfOffset_strictMono cs).monotone.map_max

theorem crlfOffset_min (cs : List Char) (m n : Nat) :
    crlfOffset cs (min m n) = min (crlfOffset cs m) (crlfOffset cs n) :=
  (crlfOffset_strictMono cs).monotone.map_min

/-! ## What stands at an offset -/

namespace Stands

/-- The offset after a first part of what stands at an offset. -/
theorem crlfOffset_append (h : Stands source n (a ++ b)) :
    crlfOffset source (n + byteSize a) = crlfOffset source n + byteSize (crlf a) := by
  obtain ⟨before, after, rfl, rfl⟩ := h
  have hn : crlfOffset (before ++ (a ++ b) ++ after) (byteSize before) =
      byteSize (crlf before) := by
    rw [List.append_assoc, crlfOffset_byteSize]
  have hstop : byteSize before + byteSize a = byteSize (before ++ a) := (byteSize_append _ _).symm
  rw [hn, hstop, List.append_assoc, List.append_assoc, ← List.append_assoc before,
    crlfOffset_byteSize, crlf_append, byteSize_append]

theorem crlfOffset_stop (h : Stands source n cs) :
    crlfOffset source (n + byteSize cs) = crlfOffset source n + byteSize (crlf cs) :=
  crlfOffset_append (b := []) (by rwa [List.append_nil])

end Stands

/-! ## Offsets within a line -/

/-- The offsets up to `n` bytes after `base` move as `base` does. -/
def MovesAlong (source : List Char) (base n : Nat) : Prop :=
  ∀ m ≤ n, crlfOffset source (base + m) = crlfOffset source base + m

/-- Within a text on one line offsets move as the text does. -/
theorem Stands.movesAlong (h : Stands source n cs) (hone : '\n' ∉ cs) :
    MovesAlong source n (byteSize cs) := by
  intro m hm
  obtain ⟨before, after, rfl, rfl⟩ := h
  rw [List.append_assoc, Text.crlfOffset_append, crlfOffset_byteSize, crlfOffset,
    lineFeedsBefore_eq_zero hone after hm, Nat.add_zero]

namespace MovesAlong

variable {base : Nat}

theorem mono (h : MovesAlong source base n) (hm : m ≤ n) : MovesAlong source base m :=
  fun k hk => h k (hk.trans hm)

/-- The offsets after a first part move along too. -/
theorem right (h : MovesAlong source base (m + n)) : MovesAlong source (base + m) n := by
  intro k hk
  rw [Nat.add_assoc, h (m + k) (Nat.add_le_add_left hk m), h m (Nat.le_add_right m n),
    Nat.add_assoc]

theorem span (h : MovesAlong source base n) (hm : m ≤ n) :
    (⟨crlfOffset source base, crlfOffset source base + m⟩ : Span) =
      Span.crlf source ⟨base, base + m⟩ := by
  rw [Span.crlf, h m hm]

/-- An offset that is cut off at one that moves along. -/
theorem min_add (h : MovesAlong source base n) (hm : m ≤ n) (k : Nat) :
    min (crlfOffset source base + k) (crlfOffset source base + m) =
      crlfOffset source (min (base + k) (base + m)) := by
  rw [Nat.add_min_add_left, Nat.add_min_add_left, h (min k m) ((Nat.min_le_right k m).trans hm)]

end MovesAlong

/-! ## Slices -/

theorem crlfOffset_cons_lineFeed (rest : List Char) (n : Nat) :
    crlfOffset ('\n' :: rest) (Char.utf8Size '\n' + n) =
      Char.utf8Size '\r' + (Char.utf8Size '\n' + crlfOffset rest n) := by
  have hreturn : Char.utf8Size '\r' = 1 := rfl
  unfold crlfOffset
  rw [lineFeedsBefore_cons, if_pos rfl, hreturn]
  omega

/-- An offset after or within a first character that is no line feed. -/
theorem crlfOffset_cons {c : Char} (hc : c ≠ '\n') (rest : List Char) (n : Nat) :
    crlfOffset (c :: rest) (n + 1) =
      if c.utf8Size ≤ n + 1 then c.utf8Size + crlfOffset rest (n + 1 - c.utf8Size) else n + 1 := by
  unfold crlfOffset
  rw [lineFeedsBefore, if_neg hc]
  split
  · omega
  · next hlt =>
    rw [Nat.sub_eq_zero_of_le (by omega), lineFeedsBefore]

theorem dropBytes?_cons (c : Char) (rest : List Char) (n : Nat) :
    dropBytes? (c.utf8Size + n) (c :: rest) = dropBytes? n rest := by
  obtain ⟨k, hk⟩ : ∃ k, c.utf8Size + n = k + 1 := by
    have := c.utf8Size_pos
    exact ⟨c.utf8Size + n - 1, by omega⟩
  rw [hk, dropBytes?, if_pos (by omega), ← hk, Nat.add_sub_cancel_left]

theorem takeBytes?_cons (c : Char) (rest : List Char) (n : Nat) :
    takeBytes? (c.utf8Size + n) (c :: rest) = (takeBytes? n rest).map (c :: ·) := by
  obtain ⟨k, hk⟩ : ∃ k, c.utf8Size + n = k + 1 := by
    have := c.utf8Size_pos
    exact ⟨c.utf8Size + n - 1, by omega⟩
  rw [hk, takeBytes?, if_pos (by omega), ← hk, Nat.add_sub_cancel_left]

theorem dropBytes?_crlf (n : Nat) (cs : List Char) :
    dropBytes? (crlfOffset cs n) (crlf cs) = (dropBytes? n cs).map crlf := by
  induction cs generalizing n with
  | nil => cases n <;> rfl
  | cons c rest ih =>
    cases n with
    | zero => simp [dropBytes?]
    | succ n =>
      by_cases hc : c = '\n'
      · obtain rfl := hc
        rw [show n + 1 = Char.utf8Size '\n' + n from Nat.add_comm n 1, crlf_lineFeed,
          crlfOffset_cons_lineFeed, dropBytes?_cons, dropBytes?_cons, dropBytes?_cons, ih]
      · rw [crlf_cons hc, crlfOffset_cons hc, dropBytes?]
        split
        · rw [dropBytes?_cons, ih]
        · next hlt => rw [dropBytes?, if_neg hlt, Option.map_none]

theorem takeBytes?_crlf (n : Nat) (cs : List Char) :
    takeBytes? (crlfOffset cs n) (crlf cs) = (takeBytes? n cs).map crlf := by
  induction cs generalizing n with
  | nil => cases n <;> rfl
  | cons c rest ih =>
    cases n with
    | zero => simp [takeBytes?]
    | succ n =>
      by_cases hc : c = '\n'
      · obtain rfl := hc
        rw [show n + 1 = Char.utf8Size '\n' + n from Nat.add_comm n 1, crlf_lineFeed,
          crlfOffset_cons_lineFeed, takeBytes?_cons, takeBytes?_cons, takeBytes?_cons, ih]
        cases takeBytes? n rest <;> rfl
      · rw [crlf_cons hc, crlfOffset_cons hc, takeBytes?]
        split
        · rw [takeBytes?_cons, ih, Option.map_map, Option.map_map]
          congr 1
          funext cs
          exact (crlf_cons hc cs).symm
        · next hlt => rw [takeBytes?, if_neg hlt, Option.map_none]

theorem slice?_crlf (source : List Char) (s : Span) :
    slice? (crlf source) (s.crlf source) = (slice? source s).map crlf := by
  unfold slice?
  rw [Span.start_crlf, Span.stop_crlf]
  by_cases hle : s.start ≤ s.stop
  · rw [if_pos hle, if_pos (crlfOffset_le_iff.mpr hle), dropBytes?_crlf]
    cases hdrop : dropBytes? s.start source with
    | none => rfl
    | some rest =>
      obtain ⟨before, rfl, hbefore⟩ := dropBytes?_eq_some_iff.mp hdrop
      -- The line feeds before the slice move both ends, those inside it only its stop.
      have hstart : crlfOffset (before ++ rest) s.start = byteSize (crlf before) := by
        rw [← hbefore, crlfOffset_byteSize]
      have hstop : crlfOffset (before ++ rest) s.stop =
          byteSize (crlf before) + crlfOffset rest (s.stop - s.start) := by
        rw [← crlfOffset_append, hbefore, Nat.add_sub_cancel' hle]
      rw [hstart, hstop, Nat.add_sub_cancel_left]
      exact takeBytes?_crlf _ rest
  · rw [if_neg hle, if_neg (mt crlfOffset_le_iff.mp hle)]
    rfl

/-- The text of a span with its carriage returns. -/
theorem slice_crlf (source : List Char) (s : Span) :
    slice (crlf source) (s.crlf source) = crlf (slice source s) := by
  unfold slice
  rw [slice?_crlf]
  cases slice? source s <;> rfl

/-! ## Lines -/

theorem splitLines_crlf (cs : List Char) : splitLines (crlf cs) = (splitLines cs).map crlf := by
  induction cs with
  | nil => rfl
  | cons c rest ih =>
    by_cases hc : c = '\n'
    · rw [hc, crlf_lineFeed, splitLines, splitLines, splitLines, if_neg (by decide), if_pos rfl,
        if_pos rfl, ih]
      rfl
    · rw [crlf_cons hc, splitLines, splitLines, if_neg hc, if_neg hc, ih]
      cases splitLines rest with
      | nil =>
        show [[c]] = [crlf [c]]
        rw [crlf_cons hc, crlf_nil]
      | cons line lines =>
        show (c :: crlf line) :: lines.map crlf = crlf (c :: line) :: lines.map crlf
        rw [crlf_cons hc]

/-- Where the first of some lines stands in the text with carriage returns, and what is left. -/
theorem crlfOffset_line {before line : List Char} {rest : List (List Char)}
    (h : source = before ++ (line :: rest).flatten) :
    crlfOffset source (byteSize before) = byteSize (crlf before) ∧
      crlfOffset source (byteSize before + byteSize line) =
        byteSize (crlf before) + byteSize (crlf line) ∧
      source = (before ++ line) ++ rest.flatten := by
  have hnext : source = (before ++ line) ++ rest.flatten := by
    rw [h, List.flatten_cons, List.append_assoc]
  refine ⟨?_, ?_, hnext⟩
  · rw [h, crlfOffset_byteSize]
  · rw [hnext, ← byteSize_append, crlfOffset_byteSize, crlf_append, byteSize_append]

/-- The lines of the text with carriage returns stand where the lines of the text come to lie. -/
theorem placeLines_crlf (before : List Char) {lines : List (List Char)}
    (h : source = before ++ lines.flatten) :
    placeLines (byteSize (crlf before)) (lines.map crlf) =
      (placeLines (byteSize before) lines).map fun l => ⟨l.span.crlf source, crlf l.text⟩ := by
  induction lines generalizing before with
  | nil => rfl
  | cons line rest ih =>
    obtain ⟨hstart, hstop, hnext⟩ := crlfOffset_line h
    have hrest := ih _ hnext
    rw [crlf_append, byteSize_append, byteSize_append] at hrest
    rw [List.map_cons, placeLines, placeLines, List.map_cons, hrest]
    simp only [Span.crlf, hstart, hstop]

end ArticleAudit.Text
