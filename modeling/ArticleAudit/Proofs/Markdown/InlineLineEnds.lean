import ArticleAudit.Proofs.Block.LineEnds
import ArticleAudit.Proofs.Markdown.Links

/-!
# Inline text with carriage returns

A text and the text with carriage returns before its line feeds hold the same links. A code span and
the text of a link may cross lines and take the carriage returns along; a target, a title and the
end of a link stop at a line end in both texts. A backslash at the end of a line protects the
carriage return instead of the line feed, and neither starts a construct. So each construct is read
from the one text where it is read from the other (`constructAt?_crlf`), and the link blocks of the
one are those of the other where they come to lie (`linkBlocks_crlf`).
-/

set_option autoImplicit false

namespace ArticleAudit.Markdown

open ArticleAudit.Text

variable {source cs : List Char}

/-- What is left after a first part of a text with carriage returns. -/
theorem drop_crlf_append (a b : List Char) : (crlf (a ++ b)).drop (crlf a).length = crlf b := by
  rw [crlf_append, List.drop_left]

/-- What is left after a run of characters that are no line ends. -/
theorem drop_takeWhile_crlf {p : Char → Bool} (hfeed : p '\n' = false) (cs : List Char) :
    (crlf cs).drop (cs.takeWhile p).length = crlf (cs.drop (cs.takeWhile p).length) := by
  have hone : '\n' ∉ cs.takeWhile p := by
    intro hmem
    have := List.mem_takeWhile_imp hmem
    rw [hfeed] at this
    cases this
  obtain ⟨rest, hrest⟩ := List.takeWhile_prefix (l := cs) p
  generalize cs.takeWhile p = run at *
  rw [← hrest, List.drop_left, ← drop_crlf_append run rest, crlf_eq_self hone]

/-- A character that is no line feed, in front of what is read. -/
theorem map_cons_crlf {c : Char} (hc : c ≠ '\n') (read : Option (List Char)) :
    (read.map crlf).map (c :: ·) = (read.map (c :: ·)).map crlf := by
  cases read with
  | none => rfl
  | some cs => exact congrArg some (crlf_cons hc cs).symm

/-- A line end in front of what is read. -/
theorem map_lineFeed_crlf (read : Option (List Char)) :
    ((read.map crlf).map ('\n' :: ·)).map ('\r' :: ·) = (read.map ('\n' :: ·)).map crlf := by
  cases read <;> rfl

/-! ## Code spans -/

/-- A character that is no tick belongs to the code. -/
theorem codeInner?_cons {c : Char} (hc : ¬ (c == tick) = true) (run : Nat) (rest : List Char) :
    codeInner? run (c :: rest) = (codeInner? run rest).map (c :: ·) := by
  rw [codeInner?, if_neg hc]

theorem codeInner?_crlf (run : Nat) (cs : List Char) :
    codeInner? run (crlf cs) = (codeInner? run cs).map crlf := by
  fun_induction codeInner? run cs with
  | case1 =>
    rw [crlf_nil, codeInner?]
    rfl
  | case2 c rest hc length hrun =>
    obtain rfl : c = tick := beq_iff_eq.mp hc
    rw [crlf_cons (by decide), codeInner?, if_pos hc, takeWhile_crlf (by decide) (by decide),
      if_pos hrun]
    rfl
  | case3 c rest hc length hrun ih =>
    obtain rfl : c = tick := beq_iff_eq.mp hc
    have hticks : '\n' ∉ List.replicate (length + 1) tick := by
      intro hmem
      cases List.eq_of_mem_replicate hmem
    rw [crlf_cons (by decide), codeInner?, if_pos hc, takeWhile_crlf (by decide) (by decide),
      if_neg hrun, drop_takeWhile_crlf (by decide), ih]
    cases codeInner? run (rest.drop length) with
    | none => rfl
    | some inner =>
      refine congrArg some ?_
      show List.replicate (length + 1) tick ++ crlf inner = _
      rw [crlf_append, crlf_eq_self hticks]
  | case4 c rest hc ih =>
    by_cases hfeed : c = '\n'
    · obtain rfl := hfeed
      rw [crlf_lineFeed, codeInner?_cons (by decide), codeInner?_cons (by decide), ih,
        map_lineFeed_crlf]
    · rw [crlf_cons hfeed, codeInner?_cons hc, ih, map_cons_crlf hfeed]

/-! ## Links -/

/-- A character without a meaning of its own belongs to the text of a link. -/
theorem linkText?_cons {c : Char} (hslash : c ≠ '\\') (hopen : c ≠ '[') (hclose : c ≠ ']')
    (depth : Nat) (rest : List Char) :
    linkText? depth (c :: rest) = (linkText? depth rest).map (c :: ·) := by
  rw [linkText?]
  · exact fun h => absurd h hslash
  · exact fun _ _ h => absurd h hslash
  · exact hopen
  · exact hclose

theorem linkText?_crlf (depth : Nat) (cs : List Char) :
    linkText? depth (crlf cs) = (linkText? depth cs).map crlf := by
  fun_induction linkText? depth cs with
  | case1 => rfl
  | case2 => rfl
  | case3 depth c rest ih =>
    by_cases hfeed : c = '\n'
    · obtain rfl := hfeed
      -- The backslash protects the carriage return.
      rw [crlf_cons (by decide), crlf_lineFeed, linkText?, linkText?_cons (by decide) (by decide)
        (by decide), ih]
      cases linkText? depth rest <;> rfl
    · rw [crlf_cons (by decide), crlf_cons hfeed, linkText?, ih]
      cases linkText? depth rest with
      | none => rfl
      | some text =>
        refine congrArg some ?_
        rw [crlf_cons (by decide), crlf_cons hfeed]
  | case4 depth rest ih =>
    rw [crlf_cons (by decide), linkText?, ih, map_cons_crlf (by decide)]
  | case5 rest => rfl
  | case6 rest depth ih =>
    rw [crlf_cons (by decide), linkText?, ih, map_cons_crlf (by decide)]
  | case7 depth c rest hend hslash hopen hclose ih =>
    by_cases hfeed : c = '\n'
    · obtain rfl := hfeed
      rw [crlf_lineFeed, linkText?_cons (by decide) (by decide) (by decide),
        linkText?_cons (by decide) (by decide) (by decide), ih, map_lineFeed_crlf]
    · have hne : c ≠ '\\' := by
        rintro rfl
        cases rest with
        | nil => exact hend rfl rfl
        | cons d rest => exact hslash d rest rfl rfl
      rw [crlf_cons hfeed, linkText?_cons hne hopen hclose, ih, map_cons_crlf hfeed]

theorem linkTarget?_cons {c : Char} (hfeed : c ≠ '\n') (hspace : c ≠ ' ') (htab : c ≠ '\t')
    (hopen : c ≠ '(') (hclose : c ≠ ')') (depth : Nat) (rest : List Char) :
    linkTarget? depth (c :: rest) = (linkTarget? depth rest).map (c :: ·) := by
  rw [linkTarget?] <;> assumption

theorem linkTarget?_crlf (depth : Nat) (cs : List Char) :
    linkTarget? depth (crlf cs) = linkTarget? depth cs := by
  fun_induction linkTarget? depth cs with
  | case1 => rfl
  | case2 => rfl
  | case3 => rfl
  | case4 => rfl
  | case5 depth rest ih => rw [crlf_cons (by decide), linkTarget?, ih]
  | case6 rest => rfl
  | case7 rest depth ih => rw [crlf_cons (by decide), linkTarget?, ih]
  | case8 depth c rest hfeed hspace htab hopen hclose ih =>
    rw [crlf_cons hfeed, linkTarget?_cons hfeed hspace htab hopen hclose, ih]

/-- A target is on one line. -/
theorem lineFeed_not_mem_target {depth : Nat} {target : List Char}
    (h : linkTarget? depth cs = some target) : '\n' ∉ target := by
  fun_induction linkTarget? depth cs generalizing target with
  | case1 => cases h
  | case2 => cases h
  | case3 => cases h; exact List.not_mem_nil
  | case4 => cases h; exact List.not_mem_nil
  | case5 depth rest ih =>
    obtain ⟨read, hread, rfl⟩ := Option.map_eq_some_iff.mp h
    exact List.not_mem_cons_of_ne_of_not_mem (by decide) (ih hread)
  | case6 => cases h; exact List.not_mem_nil
  | case7 rest depth ih =>
    obtain ⟨read, hread, rfl⟩ := Option.map_eq_some_iff.mp h
    exact List.not_mem_cons_of_ne_of_not_mem (by decide) (ih hread)
  | case8 depth c rest hfeed _ _ _ _ ih =>
    obtain ⟨read, hread, rfl⟩ := Option.map_eq_some_iff.mp h
    exact List.not_mem_cons_of_ne_of_not_mem (Ne.symm hfeed) (ih hread)

theorem lineFeed_not_mem_takeWhile {p : Char → Bool} (hfeed : p '\n' = false) (cs : List Char) :
    '\n' ∉ cs.takeWhile p := by
  intro hmem
  have := List.mem_takeWhile_imp hmem
  rw [hfeed] at this
  cases this

/-- A text starts with a character that is no line end where its image does. -/
theorem head?_crlf {c : Char} (hfeed : c ≠ '\n') (hreturn : c ≠ '\r') (cs : List Char) :
    (crlf cs).head? = some c ↔ cs.head? = some c := by
  cases cs with
  | nil => rfl
  | cons d rest =>
    by_cases hd : d = '\n'
    · obtain rfl := hd
      simp [hfeed.symm, hreturn.symm]
    · rw [crlf_cons hd]
      rfl

theorem linkClose?_eq (cs : List Char) :
    linkClose? cs =
      if (cs.dropWhile isIndent).head? = some ')' then some (cs.takeWhile isIndent ++ [')'])
      else none := by
  unfold linkClose?
  split
  · next rest h => rw [h, List.head?_cons, if_pos rfl]
  · next hno =>
    rw [if_neg]
    intro hhead
    obtain ⟨rest, hrest⟩ := List.head?_eq_some_iff.mp hhead
    exact hno rest hrest

theorem linkClose?_crlf (cs : List Char) : linkClose? (crlf cs) = linkClose? cs := by
  rw [linkClose?_eq, linkClose?_eq, dropWhile_crlf (by decide) (by decide),
    takeWhile_crlf (by decide) (by decide)]
  simp only [head?_crlf (show ')' ≠ '\n' by decide) (show ')' ≠ '\r' by decide)]

theorem lineFeed_not_mem_close {tail : List Char} (h : linkClose? cs = some tail) :
    '\n' ∉ tail := by
  unfold linkClose? at h
  split at h
  · obtain rfl := Option.some.inj h
    have := lineFeed_not_mem_takeWhile (p := isIndent) rfl cs
    simpa using this
  · cases h

/-- The quotes of a title. -/
def isTitleQuote (c : Char) : Bool :=
  c == '"' || c == '\''

/-- The characters of a title after its quote. -/
def isTitleChar (quote c : Char) : Bool :=
  c != quote && c != '\n'

theorem drop_takeWhile (p : Char → Bool) (cs : List Char) :
    cs.drop (cs.takeWhile p).length = cs.dropWhile p := by
  obtain ⟨run, hrun⟩ : ∃ run, run = cs.takeWhile p := ⟨_, rfl⟩
  have hsplit := List.takeWhile_append_dropWhile (p := p) (l := cs)
  rw [← hrun] at hsplit ⊢
  generalize cs.dropWhile p = rest at *
  rw [← hsplit, List.drop_left]

theorem linkTitle?_cons (quote : Char) (rest : List Char) :
    linkTitle? (quote :: rest) =
      if isTitleQuote quote = true ∧ (rest.dropWhile (isTitleChar quote)).head? = some quote then
        some (quote :: rest.takeWhile (isTitleChar quote) ++ [quote])
      else none := by
  have hdrop := drop_takeWhile (isTitleChar quote) rest
  unfold linkTitle?
  simp only
  rw [show (fun c => c != quote && c != '\n') = isTitleChar quote from rfl, hdrop, ite_and,
    show (quote == '"' || quote == '\'') = isTitleQuote quote from rfl]
  simp only [beq_iff_eq]

/-- A title ends at its quote in both texts, or at a line end in both. -/
theorem title_crlf {quote : Char} (hquote : isTitleQuote quote = true) (rest : List Char) :
    (((crlf rest).dropWhile (isTitleChar quote)).head? = some quote ↔
        (rest.dropWhile (isTitleChar quote)).head? = some quote) ∧
      ((rest.dropWhile (isTitleChar quote)).head? = some quote →
        (crlf rest).takeWhile (isTitleChar quote) = rest.takeWhile (isTitleChar quote)) := by
  have hfeed : quote ≠ '\n' := by
    rintro rfl
    cases hquote
  have hreturn : isTitleChar quote '\r' = true := by
    have : '\r' ≠ quote := by
      rintro rfl
      cases hquote
    simp [isTitleChar, this]
  have hstop : isTitleChar quote '\n' = false := by simp [isTitleChar]
  induction rest with
  | nil => exact ⟨Iff.rfl, fun _ => rfl⟩
  | cons c rest ih =>
    by_cases hc : c = '\n'
    · obtain rfl := hc
      rw [crlf_lineFeed, List.dropWhile_cons_of_pos hreturn,
        List.dropWhile_cons_of_neg (by simp [hstop]), List.dropWhile_cons_of_neg (by simp [hstop])]
      refine ⟨Iff.rfl, fun h => ?_⟩
      exact absurd (Option.some.inj h).symm hfeed
    · rw [crlf_cons hc]
      by_cases hp : isTitleChar quote c = true
      · rw [List.dropWhile_cons_of_pos hp, List.dropWhile_cons_of_pos hp,
          List.takeWhile_cons_of_pos hp, List.takeWhile_cons_of_pos hp]
        exact ⟨ih.1, fun h => congrArg (c :: ·) (ih.2 h)⟩
      · rw [List.dropWhile_cons_of_neg hp, List.dropWhile_cons_of_neg hp,
          List.takeWhile_cons_of_neg hp, List.takeWhile_cons_of_neg hp]
        exact ⟨Iff.rfl, fun _ => rfl⟩

theorem linkTitle?_crlf (cs : List Char) : linkTitle? (crlf cs) = linkTitle? cs := by
  cases cs with
  | nil => rfl
  | cons quote rest =>
    by_cases hfeed : quote = '\n'
    · obtain rfl := hfeed
      rfl
    · rw [crlf_cons hfeed, linkTitle?_cons, linkTitle?_cons]
      by_cases hquote : isTitleQuote quote = true
      · obtain ⟨hhead, htake⟩ := title_crlf hquote rest
        by_cases hend : (rest.dropWhile (isTitleChar quote)).head? = some quote
        · rw [if_pos ⟨hquote, hhead.mpr hend⟩, if_pos ⟨hquote, hend⟩, htake hend]
        · rw [if_neg (fun h => hend (hhead.mp h.2)), if_neg (fun h => hend h.2)]
      · rw [if_neg (fun h => hquote h.1), if_neg (fun h => hquote h.1)]

theorem lineFeed_not_mem_title {title : List Char} (h : linkTitle? cs = some title) :
    '\n' ∉ title := by
  cases cs with
  | nil => cases h
  | cons quote rest =>
    rw [linkTitle?_cons] at h
    obtain ⟨⟨hquote, -⟩, hsome⟩ := Option.ite_none_right_eq_some.mp h
    obtain rfl := Option.some.inj hsome
    have hne : quote ≠ '\n' := by
      rintro rfl
      cases hquote
    have := lineFeed_not_mem_takeWhile (p := isTitleChar quote) (by simp [isTitleChar]) rest
    simp [this, hne.symm]

/-- What is left after a first part on one line. -/
theorem drop_crlf_of_prefix {front : List Char} (hone : '\n' ∉ front) (h : front <+: cs) :
    (crlf cs).drop front.length = crlf (cs.drop front.length) := by
  obtain ⟨rest, rfl⟩ := h
  rw [List.drop_left, ← drop_crlf_append front rest, crlf_eq_self hone]

theorem linkTail?_crlf (cs : List Char) : linkTail? (crlf cs) = linkTail? cs := by
  unfold linkTail?
  simp only
  rw [takeWhile_crlf (by decide) (by decide), dropWhile_crlf (by decide) (by decide),
    linkClose?_crlf, linkTitle?_crlf]
  simp only [beq_iff_eq, Bool.or_eq_true, head?_crlf (show '"' ≠ '\n' by decide) (by decide),
    head?_crlf (show '\'' ≠ '\n' by decide) (by decide)]
  split
  · cases htitle : linkTitle? (cs.dropWhile isIndent) with
    | none => rfl
    | some title =>
      rw [Option.bind_some, Option.bind_some, drop_crlf_of_prefix (lineFeed_not_mem_title htitle)
        (linkTitle?_isPrefix htitle), linkClose?_crlf]
  · rfl

theorem lineFeed_not_mem_tail {tail : List Char} (h : linkTail? cs = some tail) :
    '\n' ∉ tail := by
  unfold linkTail? at h
  simp only at h
  split at h
  · obtain ⟨title, htitle, hrest⟩ := Option.bind_eq_some_iff.mp h
    obtain ⟨close, hclose, rfl⟩ := Option.map_eq_some_iff.mp hrest
    simp [lineFeed_not_mem_takeWhile (p := isIndent) rfl cs, lineFeed_not_mem_title htitle,
      lineFeed_not_mem_close hclose]
  · exact lineFeed_not_mem_close h

namespace LinkParts

/-- The pieces of the link in the text with carriage returns. -/
def crlf (l : LinkParts) : LinkParts :=
  { l with text := Text.crlf l.text }

/-- What follows the text of the link is on one line. -/
structure EndsOnOneLine (l : LinkParts) : Prop where
  spaces : '\n' ∉ l.spaces
  target : '\n' ∉ l.target
  tail : '\n' ∉ l.tail

variable {l : LinkParts}

theorem opening_crlf (l : LinkParts) : Text.crlf l.opening = l.opening := by
  unfold opening
  split <;> rfl

theorem EndsOnOneLine.head_crlf (h : l.EndsOnOneLine) : l.crlf.head = Text.crlf l.head := by
  unfold head
  rw [crlf_append, crlf_append, crlf_append, opening_crlf, crlf_eq_self h.spaces]
  rfl

theorem EndsOnOneLine.source_crlf (h : l.EndsOnOneLine) : l.crlf.source = Text.crlf l.source := by
  unfold source
  rw [crlf_append, crlf_append, ← h.head_crlf, crlf_eq_self h.target, crlf_eq_self h.tail]
  rfl

end LinkParts

/-- Reads a link from what follows its text. -/
def linkAfter? (image : Bool) (text : List Char) : List Char → Option LinkParts
  | ']' :: '(' :: rest =>
    (linkTarget? 0 (rest.dropWhile (· == ' '))).bind fun target =>
      (linkTail? ((rest.dropWhile (· == ' ')).drop target.length)).bind fun tail =>
        some ⟨image, text, rest.takeWhile (· == ' '), target, tail⟩
  | _ => none

theorem linkParts?_eq (image : Bool) (cs : List Char) :
    linkParts? image cs = (linkText? 0 cs).bind fun text =>
      linkAfter? image text (cs.drop text.length) := by
  unfold linkParts?
  cases linkText? 0 cs <;> rfl

theorem linkAfter?_cons (image : Bool) (text rest : List Char) :
    linkAfter? image text (']' :: '(' :: rest) =
      (linkTarget? 0 (rest.dropWhile (· == ' '))).bind fun target =>
        (linkTail? ((rest.dropWhile (· == ' ')).drop target.length)).bind fun tail =>
          some ⟨image, text, rest.takeWhile (· == ' '), target, tail⟩ := rfl

theorem linkAfter?_eq_none {image : Bool} {text after : List Char}
    (h : ∀ rest, after ≠ ']' :: '(' :: rest) : linkAfter? image text after = none := by
  unfold linkAfter?
  split
  · next rest => exact absurd rfl (h rest)
  · rfl

theorem exists_of_crlf_eq_cons {c : Char} {after : List Char} (hfeed : c ≠ '\n')
    (hreturn : c ≠ '\r') (h : crlf cs = c :: after) :
    ∃ rest, cs = c :: rest ∧ after = crlf rest := by
  have hhead : (crlf cs).head? = some c := by rw [h]; rfl
  obtain ⟨rest, rfl⟩ := List.head?_eq_some_iff.mp ((head?_crlf hfeed hreturn cs).mp hhead)
  rw [crlf_cons hfeed] at h
  exact ⟨rest, rfl, (List.cons.inj h).2.symm⟩

theorem linkAfter?_crlf (image : Bool) (text after : List Char) :
    linkAfter? image (crlf text) (crlf after) =
      (linkAfter? image text after).map LinkParts.crlf := by
  by_cases h : ∃ rest, after = ']' :: '(' :: rest
  · obtain ⟨rest, rfl⟩ := h
    rw [crlf_cons (by decide), crlf_cons (by decide), linkAfter?_cons, linkAfter?_cons,
      takeWhile_crlf (by decide) (by decide), dropWhile_crlf (by decide) (by decide),
      linkTarget?_crlf]
    cases htarget : linkTarget? 0 (rest.dropWhile (· == ' ')) with
    | none => rfl
    | some target =>
      rw [Option.bind_some, Option.bind_some, drop_crlf_of_prefix
        (lineFeed_not_mem_target htarget) (linkTarget?_isPrefix htarget), linkTail?_crlf]
      cases linkTail? ((rest.dropWhile (· == ' ')).drop target.length) <;> rfl
  · have hno : ∀ rest, after ≠ ']' :: '(' :: rest := fun rest heq => h ⟨rest, heq⟩
    rw [linkAfter?_eq_none hno, linkAfter?_eq_none]
    · rfl
    · intro rest heq
      obtain ⟨after', rfl, hafter⟩ := exists_of_crlf_eq_cons (by decide) (by decide) heq
      obtain ⟨rest', rfl, -⟩ := exists_of_crlf_eq_cons (by decide) (by decide) hafter.symm
      exact hno rest' rfl

theorem linkParts?_crlf (image : Bool) (cs : List Char) :
    linkParts? image (crlf cs) = (linkParts? image cs).map LinkParts.crlf := by
  rw [linkParts?_eq, linkParts?_eq, linkText?_crlf]
  cases htext : linkText? 0 cs with
  | none => rfl
  | some text =>
    obtain ⟨after, rfl⟩ := linkText?_isPrefix htext
    rw [Option.map_some, Option.bind_some, Option.bind_some, drop_crlf_append, List.drop_left,
      linkAfter?_crlf]

theorem endsOnOneLine_of_linkParts? {image : Bool} {parts : LinkParts}
    (h : linkParts? image cs = some parts) : parts.EndsOnOneLine := by
  rw [linkParts?_eq] at h
  obtain ⟨text, -, hafter⟩ := Option.bind_eq_some_iff.mp h
  unfold linkAfter? at hafter
  split at hafter
  · obtain ⟨target, htarget, hafter⟩ := Option.bind_eq_some_iff.mp hafter
    obtain ⟨tail, htail, hafter⟩ := Option.bind_eq_some_iff.mp hafter
    obtain rfl := Option.some.inj hafter
    exact ⟨lineFeed_not_mem_takeWhile rfl _, lineFeed_not_mem_target htarget,
      lineFeed_not_mem_tail htail⟩
  · cases hafter

theorem linkAt?_eq_none (himage : ∀ rest, cs ≠ '!' :: '[' :: rest)
    (hlink : ∀ rest, cs ≠ '[' :: rest) : linkAt? cs = none := by
  unfold linkAt?
  split
  · next rest => exact absurd rfl (himage rest)
  · next rest => exact absurd rfl (hlink rest)
  · rfl

theorem linkAt?_crlf (cs : List Char) : linkAt? (crlf cs) = (linkAt? cs).map LinkParts.crlf := by
  by_cases himage : ∃ rest, cs = '!' :: '[' :: rest
  · obtain ⟨rest, rfl⟩ := himage
    rw [crlf_cons (by decide), crlf_cons (by decide), linkAt?, linkAt?, linkParts?_crlf]
  · by_cases hlink : ∃ rest, cs = '[' :: rest
    · obtain ⟨rest, rfl⟩ := hlink
      rw [crlf_cons (by decide), linkAt?, linkAt?, linkParts?_crlf]
    · rw [linkAt?_eq_none (fun rest heq => himage ⟨rest, heq⟩)
        (fun rest heq => hlink ⟨rest, heq⟩), linkAt?_eq_none]
      · rfl
      · intro rest heq
        obtain ⟨after, rfl, hafter⟩ := exists_of_crlf_eq_cons (by decide) (by decide) heq
        obtain ⟨rest', rfl, -⟩ := exists_of_crlf_eq_cons (by decide) (by decide) hafter.symm
        exact himage ⟨rest', rfl⟩
      · intro rest heq
        obtain ⟨rest', rfl, -⟩ := exists_of_crlf_eq_cons (by decide) (by decide) heq
        exact hlink ⟨rest', rfl⟩

theorem endsOnOneLine_of_linkAt? {parts : LinkParts} (h : linkAt? cs = some parts) :
    parts.EndsOnOneLine := by
  unfold linkAt? at h
  split at h
  · exact endsOnOneLine_of_linkParts? h
  · exact endsOnOneLine_of_linkParts? h
  · cases h

/-! ## Constructs -/

/-- The construct in the text with carriage returns. -/
def Construct.crlf : Construct → Construct
  | .code run inner => .code run (Text.crlf inner)
  | .link parts => .link parts.crlf

theorem codeAt?_crlf (cs : List Char) : codeAt? (crlf cs) = (codeAt? cs).map Construct.crlf := by
  unfold codeAt?
  simp only
  rw [takeWhile_crlf (by decide) (by decide), dropWhile_crlf (by decide) (by decide),
    codeInner?_crlf]
  split
  · rfl
  · cases codeInner? _ (cs.dropWhile (· == tick)) <;> rfl

/-- A construct is read from the text with carriage returns where one is read from the text. -/
theorem constructAt?_crlf (cs : List Char) :
    constructAt? (crlf cs) = (constructAt? cs).map Construct.crlf := by
  unfold constructAt?
  rw [codeAt?_crlf, linkAt?_crlf]
  cases codeAt? cs with
  | some construct => rfl
  | none => cases linkAt? cs <;> rfl

theorem endsOnOneLine_of_constructAt? {parts : LinkParts}
    (h : constructAt? cs = some (.link parts)) : parts.EndsOnOneLine := by
  rcases constructAt?_cases h with hcode | ⟨parts', hparts, heq⟩
  · obtain ⟨run, inner, after, heq, -⟩ := exists_append_of_codeAt? hcode
    cases heq
  · cases heq
    exact endsOnOneLine_of_linkAt? hparts

theorem source_crlf_of_constructAt? {construct : Construct}
    (h : constructAt? cs = some construct) : construct.crlf.source = crlf construct.source := by
  cases construct with
  | code run inner =>
    have hticks : '\n' ∉ List.replicate run tick := by
      intro hmem
      cases List.eq_of_mem_replicate hmem
    show List.replicate run tick ++ crlf inner ++ List.replicate run tick =
      crlf (List.replicate run tick ++ inner ++ List.replicate run tick)
    rw [crlf_append, crlf_append, crlf_eq_self hticks]
  | link parts => exact (endsOnOneLine_of_constructAt? h).source_crlf

/-- Neither a carriage return nor a line feed starts a construct. -/
theorem constructAt?_lineEnd {c : Char} (hc : isLineEnd c = true) (rest : List Char) :
    constructAt? (c :: rest) = none := by
  have hends : c = '\r' ∨ c = '\n' := by simpa [isLineEnd] using hc
  rcases hends with rfl | rfl
  · rfl
  · rfl

/-- The spans of a link move with it. -/
theorem LinkParts.node_crlf {l : LinkParts} {position : Nat} (h : Stands source position l.source)
    (hone : l.EndsOnOneLine) :
    l.crlf.node (crlfOffset source position) =
      .link (Span.crlf source ⟨position, position + byteSize l.source⟩)
        (Span.crlf source ⟨position + byteSize l.opening,
          position + byteSize l.opening + byteSize l.text⟩)
        (Span.crlf source ⟨position + byteSize l.head,
          position + byteSize l.head + byteSize l.target⟩) l.image := by
  have htext : l.source = l.opening ++ (l.text ++
      ([']', '('] ++ l.spaces ++ l.target ++ l.tail)) := by
    simp [LinkParts.source, LinkParts.head]
  have htarget : l.source = l.head ++ (l.target ++ l.tail) := by
    simp [LinkParts.source]
  have hopening : l.crlf.opening = l.opening := rfl
  have htextStart := Stands.crlfOffset_append (htext ▸ h)
  have htextStop := Stands.crlfOffset_append (Stands.right (htext ▸ h))
  have htargetStart := Stands.crlfOffset_append (htarget ▸ h)
  have htargetStop := Stands.crlfOffset_append (Stands.right (htarget ▸ h))
  unfold node Span.crlf
  rw [h.crlfOffset_stop, htextStop, htextStart, htargetStop, htargetStart, hone.source_crlf,
    hone.head_crlf, crlf_eq_self hone.target, hopening, opening_crlf]
  rfl

/-- A part of a text that stands in the source keeps its place in the text. -/
theorem partAt_crlf {base : Nat} {before part after : List Char}
    (h : Stands source base (before ++ part ++ after)) :
    partAt (crlfOffset source base) (crlf (before ++ part ++ after))
        (Span.crlf source ⟨base + byteSize before, base + byteSize before + byteSize part⟩) =
      crlf part := by
  have hstart : crlfOffset source (base + byteSize before) =
      crlfOffset source base + byteSize (crlf before) :=
    h.left.crlfOffset_append
  unfold Span.crlf
  rw [h.middle.crlfOffset_stop, hstart, crlf_append, crlf_append]
  exact partAt_eq

theorem linkBlock?_link (base : Nat) (cs : List Char) (full text target : Span) (image : Bool) :
    linkBlock? base cs (.link full text target image) =
      some ((((Block.leaf .link full (partAt base cs full)).withContent text).withTarget
        target).withTag (partAt base cs target)) := rfl

/-- The block of a link comes to lie where the link does. -/
theorem LinkParts.linkBlock?_crlf {base : Nat} {done after : List Char} {parts : LinkParts}
    (h : Stands source base (done ++ parts.source ++ after)) (hone : parts.EndsOnOneLine) :
    linkBlock? (crlfOffset source base) (Text.crlf (done ++ parts.source ++ after))
        (parts.crlf.node (crlfOffset source (base + byteSize done))) =
      (linkBlock? base (done ++ parts.source ++ after)
        (parts.node (base + byteSize done))).map (Block.crlf source) := by
  have hfull := partAt_crlf h
  have hfull' : partAt base (done ++ parts.source ++ after) _ = _ := partAt_eq
  -- The target is a part of the text in its own right.
  have hsplit : done ++ parts.source ++ after =
      (done ++ parts.head) ++ parts.target ++ (parts.tail ++ after) := by
    simp [LinkParts.source]
  have htarget := partAt_crlf (hsplit ▸ h)
  have htarget' :
      partAt base ((done ++ parts.head) ++ parts.target ++ (parts.tail ++ after)) _ = _ :=
    partAt_eq
  rw [← hsplit, byteSize_append, ← Nat.add_assoc] at htarget htarget'
  rw [crlf_eq_self hone.target] at htarget
  rw [LinkParts.node_crlf h.middle hone, LinkParts.node, linkBlock?_link, linkBlock?_link, hfull,
    hfull', htarget, htarget', Option.map_some, Block.leaf_crlf, Block.withContent_crlf,
    Block.withTarget_crlf, Block.withTag_crlf]

theorem linkBlock?_crlf {base : Nat} {done after : List Char} {construct : Construct}
    (h : Stands source base (done ++ construct.source ++ after))
    (hread : constructAt? cs = some construct) :
    linkBlock? (crlfOffset source base) (crlf (done ++ construct.source ++ after))
        (construct.crlf.node (crlfOffset source (base + byteSize done))) =
      (linkBlock? base (done ++ construct.source ++ after)
        (construct.node (base + byteSize done))).map (Block.crlf source) := by
  cases construct with
  | code run inner => rfl
  | link parts => exact LinkParts.linkBlock?_crlf h (endsOnOneLine_of_constructAt? hread)

/-! ## The scan -/

section Scan

variable {read : List Char → Option Construct} {start position : Nat}

theorem scanInline_escape (c : Char) (rest : List Char) :
    scanInline read start position ('\\' :: c :: rest) =
      scanInline read start (position + 1 + c.utf8Size) rest := by
  rw [scanInline]

theorem scanInline_text {c : Char} {rest : List Char} (hc : c ≠ '\\')
    (hread : read (c :: rest) = none) :
    scanInline read start position (c :: rest) =
      scanInline read start (position + c.utf8Size) rest := by
  rw [scanInline, hread]
  · exact fun h => absurd h hc
  · exact fun _ _ h => absurd h hc

theorem scanInline_construct {c : Char} {rest : List Char} {construct : Construct} (hc : c ≠ '\\')
    (hread : read (c :: rest) = some construct) :
    scanInline read start position (c :: rest) =
      plainText start position ++ construct.node position ::
        scanInline read (construct.node position).full.stop (construct.node position).full.stop
          (rest.drop (construct.source.length - 1)) := by
  rw [scanInline, hread]
  · exact fun h => absurd h hc
  · exact fun _ _ h => absurd h hc

end Scan

/-- Plain text has no link blocks. -/
theorem filterMap_plainText (base start stop : Nat) (whole : List Char) :
    (plainText start stop).filterMap (linkBlock? base whole) = [] := by
  unfold plainText
  split <;> rfl

theorem filterMap_cons_crlf {read read' : Inline → Option Block} {node node' : Inline}
    {nodes nodes' : List Inline} (hnode : read' node' = (read node).map (Block.crlf source))
    (hnodes : nodes'.filterMap read' = (nodes.filterMap read).map (Block.crlf source)) :
    (node' :: nodes').filterMap read' =
      ((node :: nodes).filterMap read).map (Block.crlf source) := by
  rw [List.filterMap_cons, List.filterMap_cons, hnode, hnodes]
  cases read node <;> rfl

/-- The scan of the text with carriage returns finds the links that the scan of the text finds. -/
theorem scanInline_crlf {base start start' position : Nat} {whole : List Char} (done : List Char)
    (h : Stands source base whole) (hwhole : whole = done ++ cs)
    (hposition : position = base + byteSize done) :
    (scanInline constructAt? start' (crlfOffset source position) (crlf cs)).filterMap
        (linkBlock? (crlfOffset source base) (crlf whole)) =
      ((scanInline constructAt? start position cs).filterMap (linkBlock? base whole)).map
        (Block.crlf source) := by
  have hslash : Char.utf8Size '\\' = 1 := rfl
  fun_induction scanInline constructAt? start position cs generalizing start' done with
  | case1 start position =>
    rw [crlf_nil, scanInline, filterMap_plainText, filterMap_plainText]
    rfl
  | case2 start position =>
    rw [crlf_cons (by decide), crlf_nil, scanInline, filterMap_plainText, filterMap_plainText]
    rfl
  | case3 start position c rest ih =>
    subst hwhole hposition
    have hnext := Stands.crlfOffset_append (a := ['\\', c]) (b := rest) h.right
    have hbytes : base + byteSize done + byteSize ['\\', c] =
        base + byteSize done + 1 + c.utf8Size := by
      simp only [byteSize_cons, byteSize_nil, hslash]
      omega
    have hrest := @ih start' (done ++ ['\\', c]) (by simp) (by
      rw [byteSize_append, ← Nat.add_assoc, hbytes])
    rw [hbytes] at hnext
    rw [← hrest, hnext]
    by_cases hfeed : c = '\n'
    · obtain rfl := hfeed
      -- The backslash protects the carriage return, and the line feed is plain text.
      rw [crlf_cons (by decide), crlf_lineFeed, scanInline_escape, scanInline_text (by decide)
        (constructAt?_lineEnd rfl _), crlf_cons (by decide), crlf_lineFeed]
      rfl
    · rw [crlf_cons (by decide), crlf_cons hfeed, scanInline_escape, crlf_cons (by decide),
        crlf_cons hfeed, crlf_nil, byteSize_cons, byteSize_cons, byteSize_nil, hslash,
        Nat.add_assoc]
      rfl
  | case4 start position c rest hend hescape construct hread =>
    rename_i stop ih
    subst hwhole hposition
    have hne : c ≠ '\\' := by
      rintro rfl
      cases rest with
      | nil => exact hend rfl rfl
      | cons d rest => exact hescape d rest rfl rfl
    have hfeed : c ≠ '\n' := by
      rintro rfl
      cases hread
    obtain ⟨hsource, after, hafter⟩ := constructAt?_eq_some hread
    have hwhole : done ++ c :: rest = done ++ construct.source ++ after := by
      rw [hafter, List.append_assoc]
    have hdrop := drop_of_cons_eq_append hafter hsource
    have hstop : stop = base + byteSize done + byteSize construct.source := by
      show (construct.node _).full.stop = _
      rw [full_node]
    clear_value stop
    -- The construct in the text with carriage returns.
    have hread' := constructAt?_crlf (c :: rest)
    rw [hread, Option.map_some, crlf_cons hfeed] at hread'
    have hafter' : c :: crlf rest = construct.crlf.source ++ crlf after := by
      rw [source_crlf_of_constructAt? hread, ← crlf_append, ← hafter, crlf_cons hfeed]
    have hdrop' := drop_of_cons_eq_append hafter' (constructAt?_eq_some hread').1
    rw [hwhole] at h
    have hstop' : (construct.crlf.node (crlfOffset source (base + byteSize done))).full.stop =
        crlfOffset source stop := by
      rw [full_node, hstop, h.middle.crlfOffset_stop, source_crlf_of_constructAt? hread]
    rw [crlf_cons hfeed, scanInline_construct hne hread', List.filterMap_append,
      List.filterMap_append, filterMap_plainText, filterMap_plainText, List.nil_append,
      List.nil_append, hdrop', hstop', hdrop, hwhole]
    rw [hdrop, hwhole] at ih
    refine filterMap_cons_crlf (linkBlock?_crlf h hread) (ih (done ++ construct.source) rfl ?_)
    rw [hstop, byteSize_append, Nat.add_assoc]
  | case5 start position c rest hend hescape hread ih =>
    subst hwhole hposition
    have hne : c ≠ '\\' := by
      rintro rfl
      cases rest with
      | nil => exact hend rfl rfl
      | cons d rest => exact hescape d rest rfl rfl
    have hnext := Stands.crlfOffset_append (a := [c]) (b := rest) h.right
    have hrest := @ih start' (done ++ [c]) (by simp) (by
      rw [byteSize_append, ← Nat.add_assoc]
      rfl)
    rw [show base + byteSize done + byteSize [c] = base + byteSize done + c.utf8Size from rfl]
      at hnext
    rw [← hrest, hnext]
    by_cases hfeed : c = '\n'
    · obtain rfl := hfeed
      rw [crlf_lineFeed, scanInline_text (by decide) (constructAt?_lineEnd rfl _),
        scanInline_text (by decide) (constructAt?_lineEnd rfl _)]
      rfl
    · have hread' := constructAt?_crlf (c :: rest)
      rw [hread, Option.map_none, crlf_cons hfeed] at hread'
      rw [crlf_cons hfeed, scanInline_text hne hread', crlf_cons hfeed]
      rfl

/-- The links of a text that stands in the source come to lie where the text does. -/
theorem linkBlocks_crlf {base : Nat} (h : Stands source base cs) :
    linkBlocks (crlfOffset source base) (crlf cs) =
      (linkBlocks base cs).map (Block.crlf source) :=
  scanInline_crlf [] h rfl rfl

/-- The links of a slice. -/
theorem linkBlocks_slice_crlf (source : List Char) (s : Span) :
    linkBlocks (crlfOffset source s.start) (slice (crlf source) (s.crlf source)) =
      (linkBlocks s.start (slice source s)).map (Block.crlf source) := by
  rw [slice_crlf]
  cases hslice : slice? source s with
  | none =>
    rw [slice, hslice, Option.getD_none, crlf_nil, linkBlocks, linkBlocks, parseInline, parseInline,
      scanInline, scanInline, filterMap_plainText, filterMap_plainText]
    rfl
  | some cs =>
    rw [slice, hslice, Option.getD_some]
    exact linkBlocks_crlf (slice?_eq_some_iff.mp hslice).1

end ArticleAudit.Markdown
