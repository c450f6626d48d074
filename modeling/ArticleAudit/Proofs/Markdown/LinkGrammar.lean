import ArticleAudit.Proofs.Markdown.InlineLineEnds

/-!
# The grammar of links

A link is a text with balanced brackets between brackets, and between parentheses spaces, a target
in which no parenthesis is closed that was not opened, and a tail of blanks with at most one quoted
title. `LinkParts.IsLink` states this of the pieces of a link, without a reader and without a
counter: the text is generated by rules, the target is described by its initial parts.

The reader of links recognizes exactly this grammar (`linkAt?_eq_some_iff`), piece by piece: the
text (`linkText?_eq_some_iff`), the target (`linkTarget?_eq_some_iff`) and the tail
(`linkTail?_eq_some_iff`). As it is a function, a text starts with at most one link.
-/

set_option autoImplicit false

namespace ArticleAudit.Markdown

open ArticleAudit.Text

variable {cs text target tail : List Char} {depth : Nat}

/-! ## The grammar -/

/-- The text of a link: a backslash takes the next character along, and the brackets that are left
are balanced. -/
inductive IsLinkText : List Char → Prop
  | nil : IsLinkText []
  | escape (c : Char) {rest : List Char} (hrest : IsLinkText rest) : IsLinkText ('\\' :: c :: rest)
  | plain {c : Char} {rest : List Char} (hslash : c ≠ '\\') (hopen : c ≠ '[') (hclose : c ≠ ']')
      (hrest : IsLinkText rest) : IsLinkText (c :: rest)
  | nest {inside rest : List Char} (hinside : IsLinkText inside) (hrest : IsLinkText rest) :
      IsLinkText ('[' :: (inside ++ ']' :: rest))

/-- A title: a run between two equal quotes that holds neither that quote nor a line feed. -/
def IsTitle (title : List Char) : Prop :=
  ∃ quote inside, isTitleQuote quote = true ∧ (∀ c ∈ inside, c ≠ quote ∧ c ≠ '\n') ∧
    title = quote :: inside ++ [quote]

/-- The end of a link: spaces and tabs, and the closing parenthesis. -/
def IsLinkEnd (tail : List Char) : Prop :=
  ∃ blanks, (∀ c ∈ blanks, isIndent c = true) ∧ tail = blanks ++ [')']

/-- What follows the target: the end of the link, or at least one blank, a title and then the
end. -/
inductive IsLinkTail : List Char → Prop
  | bare {tail : List Char} (h : IsLinkEnd tail) : IsLinkTail tail
  | titled {blanks title tail : List Char} (hne : blanks ≠ [])
      (hblanks : ∀ c ∈ blanks, isIndent c = true) (htitle : IsTitle title)
      (htail : IsLinkEnd tail) : IsLinkTail (blanks ++ title ++ tail)

/-- The pieces are those of a link. -/
structure LinkParts.IsLink (l : LinkParts) : Prop where
  text : IsLinkText l.text
  spaces : ∀ c ∈ l.spaces, c = ' '
  /-- The spaces are the whole run. -/
  spaces_all : (l.target ++ l.tail).head? ≠ some ' '
  target : ∀ c ∈ l.target, c ≠ ' ' ∧ c ≠ '\t' ∧ c ≠ '\n'
  /-- No initial part of the target closes more parentheses than it opens. -/
  opened : ∀ front, front <+: l.target → front.count ')' ≤ front.count '('
  /-- The target is balanced unless a space or a tab follows it. -/
  closed : l.target.count ')' = l.target.count '(' ∨ ∃ c ∈ l.tail.head?, isIndent c = true
  tail : IsLinkTail l.tail

/-! ## The text -/

theorem IsLinkText.append {a b : List Char} (ha : IsLinkText a) (hb : IsLinkText b) :
    IsLinkText (a ++ b) := by
  induction ha with
  | nil => exact hb
  | escape c _ ih => exact .escape c ih
  | plain hslash hopen hclose _ ih => exact .plain hslash hopen hclose ih
  | nest hinside _ _ ih =>
    rw [List.cons_append, List.append_assoc, List.cons_append]
    exact .nest hinside ih

/-- The reader goes through balanced text at every depth. -/
theorem linkText?_append (htext : IsLinkText text) (depth : Nat) (after : List Char) :
    linkText? depth (text ++ after) = (linkText? depth after).map (text ++ ·) := by
  induction htext generalizing depth after with
  | nil => simp
  | escape c _ ih =>
    rw [List.cons_append, List.cons_append, linkText?, ih, Option.map_map]
    rfl
  | plain hslash hopen hclose _ ih =>
    rw [List.cons_append, linkText?_cons hslash hopen hclose, ih, Option.map_map]
    rfl
  | nest _ _ ihinside ihrest =>
    -- The inside is read one bracket deeper, so the induction is for all depths.
    rw [List.cons_append, List.append_assoc, List.cons_append, linkText?, ihinside, linkText?,
      ihrest, Option.map_map, Option.map_map, Option.map_map]
    congr 1
    funext more
    simp

/-- Text that closes `depth` brackets which were opened before it. -/
inductive ClosesBrackets : Nat → List Char → Prop
  | here {text : List Char} (h : IsLinkText text) : ClosesBrackets 0 text
  | next {depth : Nat} {text rest : List Char} (h : IsLinkText text)
      (hrest : ClosesBrackets depth rest) : ClosesBrackets (depth + 1) (text ++ ']' :: rest)

theorem ClosesBrackets.prepend {part : List Char} (hpart : IsLinkText part)
    (h : ClosesBrackets depth text) : ClosesBrackets depth (part ++ text) := by
  cases h with
  | here h => exact .here (hpart.append h)
  | next h hrest =>
    rw [← List.append_assoc]
    exact .next (hpart.append h) hrest

/-- What the reader takes closes the open brackets, and a bracket follows it. -/
theorem closesBrackets_of_linkText? (h : linkText? depth cs = some text) :
    ClosesBrackets depth text ∧ ∃ after, cs = text ++ ']' :: after := by
  -- The induction is on the reader: at depth `n` it takes a text that closes `n` brackets.
  fun_induction linkText? depth cs generalizing text with
  | case1 => cases h
  | case2 => cases h
  | case3 depth c rest ih =>
    obtain ⟨read, hread, rfl⟩ := Option.map_eq_some_iff.mp h
    obtain ⟨hcloses, after, rfl⟩ := ih hread
    exact ⟨hcloses.prepend (.escape c .nil), after, rfl⟩
  | case4 depth rest ih =>
    obtain ⟨read, hread, rfl⟩ := Option.map_eq_some_iff.mp h
    obtain ⟨hcloses, after, rfl⟩ := ih hread
    -- The first part of what was read is inside the bracket.
    cases hcloses with
    | @next _ inside more hinside hmore =>
      have hnest : IsLinkText ('[' :: (inside ++ ']' :: [])) := .nest hinside .nil
      refine ⟨?_, after, rfl⟩
      have hall := hmore.prepend hnest
      rwa [List.cons_append, List.append_assoc, List.cons_append, List.nil_append] at hall
  | case5 rest =>
    cases h
    exact ⟨.here .nil, rest, rfl⟩
  | case6 rest depth ih =>
    obtain ⟨read, hread, rfl⟩ := Option.map_eq_some_iff.mp h
    obtain ⟨hcloses, after, rfl⟩ := ih hread
    exact ⟨.next .nil hcloses, after, rfl⟩
  | case7 depth c rest hend hslash hopen hclose ih =>
    obtain ⟨read, hread, rfl⟩ := Option.map_eq_some_iff.mp h
    obtain ⟨hcloses, after, rfl⟩ := ih hread
    have hne : c ≠ '\\' := by
      rintro rfl
      cases hcs : read ++ ']' :: after with
      | nil => simp at hcs
      | cons d rest => exact hslash d rest rfl hcs
    exact ⟨hcloses.prepend (.plain hne hopen hclose .nil), after, rfl⟩

/-- The text of a link is read exactly when it is balanced and a bracket follows it. -/
theorem linkText?_eq_some_iff :
    linkText? 0 cs = some text ↔ IsLinkText text ∧ ∃ after, cs = text ++ ']' :: after := by
  constructor
  · intro h
    obtain ⟨hcloses, hafter⟩ := closesBrackets_of_linkText? h
    cases hcloses with
    | here htext => exact ⟨htext, hafter⟩
  · rintro ⟨htext, after, rfl⟩
    rw [linkText?_append htext, linkText?]
    simp

/-! ## The target -/

/-- With `depth` parentheses open before it, no initial part closes one that is not open. -/
def ClosesOnlyOpen (depth : Nat) (cs : List Char) : Prop :=
  ∀ front, front <+: cs → front.count ')' ≤ depth + front.count '('

theorem closesOnlyOpen_nil (depth : Nat) : ClosesOnlyOpen depth [] := by
  intro front hfront
  rw [List.prefix_nil.mp hfront]
  exact Nat.zero_le _

theorem closesOnlyOpen_cons {c : Char} : ClosesOnlyOpen depth (c :: cs) ↔
    ∀ front, front <+: cs → (c :: front).count ')' ≤ depth + (c :: front).count '(' := by
  constructor
  · intro h front hfront
    exact h _ (List.cons_prefix_cons.mpr ⟨rfl, hfront⟩)
  · intro h front hfront
    rcases List.prefix_cons_iff.mp hfront with rfl | ⟨front', rfl, hfront'⟩
    · exact Nat.zero_le _
    · exact h front' hfront'

theorem closesOnlyOpen_open : ClosesOnlyOpen depth ('(' :: cs) ↔ ClosesOnlyOpen (depth + 1) cs := by
  rw [closesOnlyOpen_cons]
  refine forall₂_congr fun front _ => ?_
  rw [List.count_cons_self, List.count_cons_of_ne (by decide)]
  omega

theorem closesOnlyOpen_close :
    ClosesOnlyOpen (depth + 1) (')' :: cs) ↔ ClosesOnlyOpen depth cs := by
  rw [closesOnlyOpen_cons]
  refine forall₂_congr fun front _ => ?_
  rw [List.count_cons_self, List.count_cons_of_ne (by decide)]
  omega

theorem not_closesOnlyOpen_close : ¬ ClosesOnlyOpen 0 (')' :: cs) := by
  intro h
  have hfirst := closesOnlyOpen_cons.mp h [] List.nil_prefix
  simp at hfirst

theorem closesOnlyOpen_plain {c : Char} (hopen : c ≠ '(') (hclose : c ≠ ')') :
    ClosesOnlyOpen depth (c :: cs) ↔ ClosesOnlyOpen depth cs := by
  rw [closesOnlyOpen_cons]
  refine forall₂_congr fun front _ => ?_
  rw [List.count_cons_of_ne hopen, List.count_cons_of_ne hclose]

/-- Where a target ends: before a space or a tab, or before a parenthesis when all others are
closed. -/
def EndsTarget (depth : Nat) (target after : List Char) : Prop :=
  (∃ c ∈ after.head?, isIndent c = true) ∨
    after.head? = some ')' ∧ target.count ')' = depth + target.count '('

/-- A target that is read with `depth` parentheses open. -/
structure IsTargetFrom (depth : Nat) (target after : List Char) : Prop where
  plain : ∀ c ∈ target, c ≠ ' ' ∧ c ≠ '\t' ∧ c ≠ '\n'
  opened : ClosesOnlyOpen depth target
  ends : EndsTarget depth target after

namespace IsTargetFrom

variable {after : List Char}

theorem nil_of_indent {c : Char} {rest : List Char} (hc : isIndent c = true) :
    IsTargetFrom depth [] (c :: rest) :=
  ⟨by simp, closesOnlyOpen_nil depth, Or.inl ⟨c, rfl, hc⟩⟩

theorem nil_of_close {rest : List Char} : IsTargetFrom 0 [] (')' :: rest) :=
  ⟨by simp, closesOnlyOpen_nil 0, Or.inr ⟨rfl, rfl⟩⟩

theorem open_iff : IsTargetFrom depth ('(' :: target) after ↔
    IsTargetFrom (depth + 1) target after := by
  have hcount : ('(' :: target).count ')' = depth + ('(' :: target).count '(' ↔
      target.count ')' = depth + 1 + target.count '(' := by
    rw [List.count_cons_self, List.count_cons_of_ne (by decide)]
    omega
  constructor
  · rintro ⟨hplain, hopened, hends⟩
    exact ⟨fun c hc => hplain c (List.mem_cons_of_mem _ hc), closesOnlyOpen_open.mp hopened,
      hends.imp_right fun h => ⟨h.1, hcount.mp h.2⟩⟩
  · rintro ⟨hplain, hopened, hends⟩
    refine ⟨List.forall_mem_cons.mpr ⟨by decide, hplain⟩, closesOnlyOpen_open.mpr hopened,
      hends.imp_right fun h => ⟨h.1, hcount.mpr h.2⟩⟩

theorem close_iff : IsTargetFrom (depth + 1) (')' :: target) after ↔
    IsTargetFrom depth target after := by
  have hcount : (')' :: target).count ')' = depth + 1 + (')' :: target).count '(' ↔
      target.count ')' = depth + target.count '(' := by
    rw [List.count_cons_self, List.count_cons_of_ne (by decide)]
    omega
  constructor
  · rintro ⟨hplain, hopened, hends⟩
    exact ⟨fun c hc => hplain c (List.mem_cons_of_mem _ hc), closesOnlyOpen_close.mp hopened,
      hends.imp_right fun h => ⟨h.1, hcount.mp h.2⟩⟩
  · rintro ⟨hplain, hopened, hends⟩
    refine ⟨List.forall_mem_cons.mpr ⟨by decide, hplain⟩, closesOnlyOpen_close.mpr hopened,
      hends.imp_right fun h => ⟨h.1, hcount.mpr h.2⟩⟩

theorem plain_iff {c : Char} (hc : c ≠ ' ' ∧ c ≠ '\t' ∧ c ≠ '\n') (hopen : c ≠ '(')
    (hclose : c ≠ ')') : IsTargetFrom depth (c :: target) after ↔
      IsTargetFrom depth target after := by
  have hcount : (c :: target).count ')' = depth + (c :: target).count '(' ↔
      target.count ')' = depth + target.count '(' := by
    rw [List.count_cons_of_ne hopen, List.count_cons_of_ne hclose]
  constructor
  · rintro ⟨hplain, hopened, hends⟩
    exact ⟨fun d hd => hplain d (List.mem_cons_of_mem _ hd),
      (closesOnlyOpen_plain hopen hclose).mp hopened,
      hends.imp_right fun h => ⟨h.1, hcount.mp h.2⟩⟩
  · rintro ⟨hplain, hopened, hends⟩
    exact ⟨List.forall_mem_cons.mpr ⟨hc, hplain⟩, (closesOnlyOpen_plain hopen hclose).mpr hopened,
      hends.imp_right fun h => ⟨h.1, hcount.mpr h.2⟩⟩

end IsTargetFrom

theorem isTargetFrom_of_linkTarget? (h : linkTarget? depth cs = some target) :
    ∃ after, cs = target ++ after ∧ IsTargetFrom depth target after := by
  fun_induction linkTarget? depth cs generalizing target with
  | case1 => cases h
  | case2 => cases h
  | case3 depth rest =>
    cases h
    exact ⟨_, rfl, .nil_of_indent rfl⟩
  | case4 depth rest =>
    cases h
    exact ⟨_, rfl, .nil_of_indent rfl⟩
  | case5 depth rest ih =>
    obtain ⟨read, hread, rfl⟩ := Option.map_eq_some_iff.mp h
    obtain ⟨after, rfl, htarget⟩ := ih hread
    exact ⟨after, rfl, IsTargetFrom.open_iff.mpr htarget⟩
  | case6 rest =>
    cases h
    exact ⟨_, rfl, .nil_of_close⟩
  | case7 rest depth ih =>
    obtain ⟨read, hread, rfl⟩ := Option.map_eq_some_iff.mp h
    obtain ⟨after, rfl, htarget⟩ := ih hread
    exact ⟨after, rfl, IsTargetFrom.close_iff.mpr htarget⟩
  | case8 depth c rest hfeed hspace htab hopen hclose ih =>
    obtain ⟨read, hread, rfl⟩ := Option.map_eq_some_iff.mp h
    obtain ⟨after, rfl, htarget⟩ := ih hread
    exact ⟨after, rfl, (IsTargetFrom.plain_iff ⟨hspace, htab, hfeed⟩ hopen hclose).mpr htarget⟩

theorem linkTarget?_of_isTargetFrom {after : List Char} (h : IsTargetFrom depth target after) :
    linkTarget? depth (target ++ after) = some target := by
  induction target generalizing depth with
  | nil =>
    rcases h.ends with ⟨c, hc, hindent⟩ | ⟨hclose, hcount⟩
    · obtain ⟨rest, rfl⟩ := List.head?_eq_some_iff.mp hc
      rcases isIndent_iff.mp hindent with rfl | rfl
      · rw [List.nil_append, linkTarget?]
      · rw [List.nil_append, linkTarget?]
    · obtain ⟨rest, rfl⟩ := List.head?_eq_some_iff.mp hclose
      obtain rfl : 0 = depth := by simpa using hcount
      rw [List.nil_append, linkTarget?]
  | cons c target ih =>
    obtain ⟨hspace, htab, hfeed⟩ := h.plain c List.mem_cons_self
    rw [List.cons_append]
    by_cases hopen : c = '('
    · subst hopen
      rw [linkTarget?, ih (IsTargetFrom.open_iff.mp h)]
      rfl
    · by_cases hclose : c = ')'
      · subst hclose
        cases depth with
        | zero => exact absurd h.opened not_closesOnlyOpen_close
        | succ depth =>
          rw [linkTarget?, ih (IsTargetFrom.close_iff.mp h)]
          rfl
      · rw [linkTarget?_cons hfeed hspace htab hopen hclose,
          ih ((IsTargetFrom.plain_iff ⟨hspace, htab, hfeed⟩ hopen hclose).mp h)]
        rfl

/-- A target is read exactly when it is one and ends where the text goes on as it has to. -/
theorem linkTarget?_eq_some_iff : linkTarget? depth cs = some target ↔
    ∃ after, cs = target ++ after ∧ IsTargetFrom depth target after := by
  refine ⟨isTargetFrom_of_linkTarget?, ?_⟩
  rintro ⟨after, rfl, h⟩
  exact linkTarget?_of_isTargetFrom h

/-! ## The tail -/

theorem linkClose?_eq_some_iff : linkClose? cs = some tail ↔ IsLinkEnd tail ∧ tail <+: cs := by
  constructor
  · intro h
    refine ⟨?_, (linkClose?_isPrefix h).1⟩
    rw [linkClose?_eq] at h
    obtain ⟨-, htail⟩ := Option.ite_none_right_eq_some.mp h
    exact ⟨cs.takeWhile isIndent, fun c hc => List.mem_takeWhile_imp hc,
      (Option.some.inj htail).symm⟩
  · rintro ⟨⟨blanks, hblanks, rfl⟩, after, rfl⟩
    obtain ⟨htake, hdrop⟩ := takeWhile_run after hblanks
      (show isIndent ')' = false from rfl)
    rw [List.append_assoc, List.singleton_append, linkClose?_eq, htake, hdrop, List.head?_cons,
      if_pos rfl]

theorem isTitleChar_iff {quote c : Char} :
    isTitleChar quote c = true ↔ c ≠ quote ∧ c ≠ '\n' := by
  simp [isTitleChar]

theorem linkTitle?_eq_some_iff {title : List Char} :
    linkTitle? cs = some title ↔ IsTitle title ∧ title <+: cs := by
  constructor
  · intro h
    refine ⟨?_, linkTitle?_isPrefix h⟩
    cases cs with
    | nil => cases h
    | cons quote rest =>
      rw [linkTitle?_cons] at h
      obtain ⟨⟨hquote, -⟩, htitle⟩ := Option.ite_none_right_eq_some.mp h
      exact ⟨quote, rest.takeWhile (isTitleChar quote), hquote,
        fun c hc => isTitleChar_iff.mp (List.mem_takeWhile_imp hc), (Option.some.inj htitle).symm⟩
  · rintro ⟨⟨quote, inside, hquote, hinside, rfl⟩, after, rfl⟩
    have hstop : isTitleChar quote quote = false := by simp [isTitleChar]
    obtain ⟨htake, hdrop⟩ := takeWhile_run after
      (fun c hc => isTitleChar_iff.mpr (hinside c hc)) hstop
    rw [List.append_assoc, List.cons_append, List.singleton_append, linkTitle?_cons, htake, hdrop,
      if_pos ⟨hquote, rfl⟩]

theorem linkTail?_eq (cs : List Char) :
    linkTail? cs =
      if (cs.dropWhile isIndent).head?.any isTitleQuote = true then
        (linkTitle? (cs.dropWhile isIndent)).bind fun title =>
          (linkClose? ((cs.dropWhile isIndent).drop title.length)).map
            (cs.takeWhile isIndent ++ title ++ ·)
      else linkClose? cs := by
  unfold linkTail?
  simp only
  refine if_congr ?_ rfl rfl
  cases (cs.dropWhile isIndent).head? with
  | none => simp
  | some c => simp [isTitleQuote]

theorem isLinkTail_of_linkTail? (hquote : ∀ c ∈ cs.head?, isTitleQuote c = false)
    (h : linkTail? cs = some tail) : IsLinkTail tail ∧ tail <+: cs := by
  refine ⟨?_, (linkTail?_isPrefix h).1⟩
  rw [linkTail?_eq] at h
  split at h
  · next hstart =>
    obtain ⟨title, htitle, hrest⟩ := Option.bind_eq_some_iff.mp h
    obtain ⟨close, hclose, rfl⟩ := Option.map_eq_some_iff.mp hrest
    have hne : cs.takeWhile isIndent ≠ [] := by
      -- The quote does not start the tail, so blanks do.
      intro hnil
      have hsplit := List.takeWhile_append_dropWhile (p := isIndent) (l := cs)
      rw [hnil, List.nil_append] at hsplit
      obtain ⟨quote, hhead, hq⟩ := (Option.any_eq_true _ _).mp hstart
      rw [hsplit] at hhead
      rw [hquote quote hhead] at hq
      cases hq
    exact .titled hne (fun c hc => List.mem_takeWhile_imp hc) (linkTitle?_eq_some_iff.mp htitle).1
      (linkClose?_eq_some_iff.mp hclose).1
  · exact .bare (linkClose?_eq_some_iff.mp h).1

theorem linkTail?_of_isLinkTail (h : IsLinkTail tail) (after : List Char) :
    linkTail? (tail ++ after) = some tail := by
  rw [linkTail?_eq]
  cases h with
  | bare hend =>
    obtain ⟨blanks, hblanks, rfl⟩ := hend
    have hdrop := (takeWhile_run after hblanks (show isIndent ')' = false from rfl)).2
    have hhead : ((blanks ++ [')'] ++ after).dropWhile isIndent).head? = some ')' := by
      rw [List.append_assoc, List.singleton_append, hdrop]
      rfl
    have hquote : isTitleQuote ')' = false := rfl
    rw [hhead, Option.any_some, hquote, if_neg Bool.false_ne_true]
    exact linkClose?_eq_some_iff.mpr ⟨⟨blanks, hblanks, rfl⟩, after, rfl⟩
  | @titled blanks title tail hne hblanks htitle hend =>
    obtain ⟨quote, inside, hq, -, hquoted⟩ := id htitle
    have hindent : isIndent quote = false := by
      have : quote = '"' ∨ quote = '\'' := by simpa [isTitleQuote] using hq
      rcases this with rfl | rfl <;> rfl
    have hstart : title ++ (tail ++ after) = quote :: (inside ++ [quote] ++ (tail ++ after)) := by
      rw [hquoted]
      simp
    obtain ⟨htake, hdrop⟩ := takeWhile_run (inside ++ [quote] ++ (tail ++ after)) hblanks
      hindent
    rw [← hstart, ← List.append_assoc, ← List.append_assoc] at htake hdrop
    rw [htake, hdrop, hstart, if_pos (by rw [List.head?_cons, Option.any_some, hq]), ← hstart,
      linkTitle?_eq_some_iff.mpr ⟨htitle, tail ++ after, rfl⟩, Option.bind_some, List.drop_left,
      linkClose?_eq_some_iff.mpr ⟨hend, after, rfl⟩]
    rfl

/-- The tail of a link is read exactly when it is one, where no quote comes first. -/
theorem linkTail?_eq_some_iff (hquote : ∀ c ∈ cs.head?, isTitleQuote c = false) :
    linkTail? cs = some tail ↔ IsLinkTail tail ∧ tail <+: cs := by
  refine ⟨isLinkTail_of_linkTail? hquote, ?_⟩
  rintro ⟨htail, after, rfl⟩
  exact linkTail?_of_isLinkTail htail after

/-! ## The link -/

theorem isTitleQuote_of_endsTarget {after : List Char} (h : EndsTarget depth target after) :
    ∀ c ∈ after.head?, isTitleQuote c = false := by
  intro c hc
  rcases h with ⟨d, hd, hindent⟩ | ⟨hclose, -⟩
  · obtain rfl := Option.mem_unique hc hd
    rcases isIndent_iff.mp hindent with rfl | rfl <;> rfl
  · obtain rfl := Option.mem_unique hc hclose
    rfl

/-- The first character of a tail is a space, a tab or the closing parenthesis. -/
theorem IsLinkTail.head? (h : IsLinkTail tail) (after : List Char) :
    ∃ c, tail.head? = some c ∧ (tail ++ after).head? = some c ∧ (isIndent c = true ∨ c = ')') := by
  have hstart : ∃ c rest, tail = c :: rest ∧ (isIndent c = true ∨ c = ')') := by
    cases h with
    | bare hend =>
      obtain ⟨blanks, hblanks, rfl⟩ := hend
      cases blanks with
      | nil => exact ⟨')', [], rfl, Or.inr rfl⟩
      | cons c rest => exact ⟨c, rest ++ [')'], rfl, Or.inl (hblanks c List.mem_cons_self)⟩
    | @titled blanks title tail hne hblanks _ _ =>
      obtain ⟨c, rest, rfl⟩ := List.exists_cons_of_ne_nil hne
      exact ⟨c, rest ++ title ++ tail, rfl, Or.inl (hblanks c List.mem_cons_self)⟩
  obtain ⟨c, rest, rfl, hc⟩ := hstart
  exact ⟨c, rfl, rfl, hc⟩

namespace LinkParts

variable {l : LinkParts}

/-- The target of a link ends as its tail starts. -/
theorem IsLink.isTargetFrom (h : l.IsLink) (after : List Char) :
    IsTargetFrom 0 l.target (l.tail ++ after) := by
  obtain ⟨c, hc, hall, hkind⟩ := h.tail.head? after
  refine ⟨h.target, fun front hfront => ?_, ?_⟩
  · rw [Nat.zero_add]
    exact h.opened front hfront
  · rcases h.closed with hcount | ⟨d, hd, hindent⟩
    · rcases hkind with hindent | rfl
      · exact Or.inl ⟨c, hall, hindent⟩
      · exact Or.inr ⟨hall, by rw [Nat.zero_add, hcount]⟩
    · obtain rfl := Option.mem_unique hc hd
      exact Or.inl ⟨c, hall, hindent⟩

/-- After the spaces of a link comes a character that is no space. -/
theorem IsLink.exists_body (h : l.IsLink) (after : List Char) :
    ∃ c rest, l.target ++ (l.tail ++ after) = c :: rest ∧ (c == ' ') = false := by
  obtain ⟨d, hd, -, -⟩ := h.tail.head? after
  obtain ⟨more, htail⟩ := List.head?_eq_some_iff.mp hd
  obtain ⟨c, rest, hbody⟩ : ∃ c rest, l.target ++ l.tail = c :: rest :=
    List.exists_cons_of_ne_nil (by simp [htail])
  have hspace := h.spaces_all
  rw [hbody] at hspace
  refine ⟨c, rest ++ after, ?_, by simpa using hspace⟩
  rw [← List.append_assoc, hbody, List.cons_append]

end LinkParts

/-- What the readers of target and tail take after the opening parenthesis are pieces of a link. -/
theorem isLink_of_pieces {image : Bool} {body : List Char}
    (htext : IsLinkText text) (htarget : linkTarget? 0 (cs.dropWhile (· == ' ')) = some target)
    (hbody : cs.dropWhile (· == ' ') = target ++ body) (htail : linkTail? body = some tail) :
    LinkParts.IsLink ⟨image, text, cs.takeWhile (· == ' '), target, tail⟩ := by
  obtain ⟨after, hafter, hfrom⟩ := linkTarget?_eq_some_iff.mp htarget
  obtain rfl : body = after := List.append_cancel_left (hbody.symm.trans hafter)
  obtain ⟨hrule, more, rfl⟩ :=
    (linkTail?_eq_some_iff (isTitleQuote_of_endsTarget hfrom.ends)).mp htail
  obtain ⟨c, hc, hall, -⟩ := hrule.head? more
  refine ⟨htext, fun d hd => ?_, fun hspace => ?_, hfrom.plain, fun front hfront => ?_, ?_, hrule⟩
  · simpa using List.mem_takeWhile_imp hd
  · have hhead : (cs.dropWhile (· == ' ')).head? = some ' ' := by
      rw [hbody, ← List.append_assoc, List.head?_append, hspace]
      rfl
    have hnot := List.head?_dropWhile_not (· == ' ') cs
    rw [hhead] at hnot
    cases hnot
  · have hle := hfrom.opened front hfront
    rwa [Nat.zero_add] at hle
  · rcases hfrom.ends with ⟨d, hd, hindent⟩ | ⟨-, hcount⟩
    · obtain rfl := Option.mem_unique hd hall
      exact Or.inr ⟨d, hc, hindent⟩
    · rw [Nat.zero_add] at hcount
      exact Or.inl hcount

theorem isLink_of_linkParts? {image : Bool} {l : LinkParts} (h : linkParts? image cs = some l) :
    l.IsLink := by
  rw [linkParts?_eq] at h
  obtain ⟨text, hread, hafter⟩ := Option.bind_eq_some_iff.mp h
  obtain ⟨htext, -⟩ := linkText?_eq_some_iff.mp hread
  unfold linkAfter? at hafter
  split at hafter
  · obtain ⟨target, htarget, hafter⟩ := Option.bind_eq_some_iff.mp hafter
    obtain ⟨tail, htail, hafter⟩ := Option.bind_eq_some_iff.mp hafter
    obtain rfl := Option.some.inj hafter
    obtain ⟨body, hbody⟩ := linkTarget?_isPrefix htarget
    rw [← hbody, List.drop_left] at htail
    exact isLink_of_pieces htext htarget hbody.symm htail
  · cases hafter

/-- The pieces of a link are read from the text that they make up. -/
theorem LinkParts.IsLink.linkParts?_eq {l : LinkParts} (h : l.IsLink) (after : List Char) :
    linkParts? l.image
        (l.text ++ ']' :: '(' :: (l.spaces ++ (l.target ++ (l.tail ++ after)))) = some l := by
  have htext : linkText? 0 (l.text ++ ']' :: '(' :: (l.spaces ++ (l.target ++ (l.tail ++ after)))) =
      some l.text :=
    linkText?_eq_some_iff.mpr ⟨h.text, _, rfl⟩
  obtain ⟨c, rest, hbody, hc⟩ := h.exists_body after
  obtain ⟨htake, hdrop⟩ := takeWhile_run (p := (· == ' ')) rest
    (fun x hx => by simpa using h.spaces x hx) hc
  rw [← hbody] at htake hdrop
  rw [Markdown.linkParts?_eq, htext, Option.bind_some, List.drop_left, linkAfter?_cons, htake,
    hdrop, linkTarget?_of_isTargetFrom (h.isTargetFrom after), Option.bind_some, List.drop_left,
    linkTail?_of_isLinkTail h.tail, Option.bind_some]

/-- A link is read at the start of a text exactly when the grammar has one there. -/
theorem linkAt?_eq_some_iff {l : LinkParts} :
    linkAt? cs = some l ↔ l.IsLink ∧ l.source <+: cs := by
  constructor
  · intro h
    obtain ⟨-, after, hafter⟩ := linkAt?_eq_some h
    refine ⟨?_, after, hafter.symm⟩
    unfold linkAt? at h
    split at h
    · exact isLink_of_linkParts? h
    · exact isLink_of_linkParts? h
    · cases h
  · rintro ⟨h, after, rfl⟩
    have hread := h.linkParts?_eq after
    cases himage : l.image with
    | false =>
      rw [himage] at hread
      rw [← hread]
      simp [LinkParts.source, LinkParts.head, LinkParts.opening, himage, linkAt?]
    | true =>
      rw [himage] at hread
      rw [← hread]
      simp [LinkParts.source, LinkParts.head, LinkParts.opening, himage, linkAt?]

end ArticleAudit.Markdown
