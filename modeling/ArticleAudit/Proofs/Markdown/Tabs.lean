import ArticleAudit.Markdown.Leaf
import ArticleAudit.Proofs.Markdown.LinkNodes

/-!
# Tab titles and tab links

A heading is a tab when its title has the form of a tab: a bracketed text, then `#tab/` and an
identifier between parentheses (`isTab_headingBlock_iff`). The title is a tab link when its inline
nodes are one link to such a target (`isTabLink_iff`). The two are read apart, a tab title up to the
first closing bracket and a link by the grammar of links. A title is both exactly when the text is
one that links have and the identifier opens no parenthesis; `isTab_isTabLink_cases` also says which
titles are only one of the two. The same condition decides whether a tab has the link to its
identifier as its only child (`IsTabTitle.hasOnlyLink_iff`).
-/

set_option autoImplicit false

namespace ArticleAudit.Markdown

open ArticleAudit.Text

variable {base : Nat} {source title text id : List Char} {line : LineFacts} {heading : Heading}
  {p : LinkParts}

/-! ## The two forms -/

/-- What stands between the text and the identifier of a tab. -/
def tabMark : List Char := "#tab/".toList

/-- A title of the form of a tab: a text without a closing bracket, in brackets, and between
parentheses the mark of tabs and an identifier without blanks and closing parentheses. -/
structure IsTabTitle (text id title : List Char) : Prop where
  eq : title = '[' :: (text ++ ']' :: '(' :: (tabMark ++ (id ++ [')'])))
  text_ne : text ≠ []
  text : ']' ∉ text
  id_ne : id ≠ []
  id : ∀ c ∈ id, c ≠ ')' ∧ isBlank c = false

/-- The inline nodes of a title are one link over the whole of it, not an image, to the mark of tabs
and the identifier. -/
def IsTabLink (base : Nat) (title id : List Char) : Prop :=
  ∃ text target, parseInline base title =
      [.link ⟨base, base + byteSize title⟩ text target false] ∧
    partAt base title target = tabMark ++ id

/-- A block is the tab with an identifier. -/
def IsTab (b : Block) (id : List Char) : Prop :=
  b.kind = .conceptualTab ∧ b.tag = some (String.ofList id)

/-! ## Tab titles

The reader of tabs takes the text up to the first closing bracket, and the identifier up to the
first closing parenthesis or blank, which has to be a parenthesis at the end of the title.
-/

/-- The characters of an identifier. -/
def isIdChar (c : Char) : Bool :=
  c != ')' && !isBlank c

theorem isIdChar_iff {c : Char} : isIdChar c = true ↔ c ≠ ')' ∧ isBlank c = false := by
  simp [isIdChar]

theorem exists_isTabTitle_of_tabId? (h : tabId? title = some id) :
    ∃ text, IsTabTitle text id title := by
  unfold tabId? at h
  split at h
  · next rest =>
    simp only at h
    split at h
    · cases h
    · next target htarget =>
      obtain ⟨hproper, hid⟩ := Option.ite_none_right_eq_some.mp h
      simp only [Bool.and_eq_true, Bool.not_eq_true', beq_iff_eq,
        List.isEmpty_eq_false_iff] at hproper
      obtain ⟨⟨htext, hne⟩, hclose⟩ := hproper
      obtain rfl : target.takeWhile isIdChar = id := Option.some.inj hid
      have hafter := eq_append_of_isPrefixOf? htarget
      have hparts : target = target.takeWhile isIdChar ++ [')'] := by
        conv_lhs => rw [← List.takeWhile_append_dropWhile (p := isIdChar) (l := target)]
        exact congrArg _ hclose
      refine ⟨rest.takeWhile (· != ']'), ?_, htext, ?_, hne, ?_⟩
      · conv_lhs => rw [← List.takeWhile_append_dropWhile (p := (· != ']')) (l := rest), hafter,
          hparts]
        rfl
      · intro hmem
        have hbracket := List.mem_takeWhile_imp hmem
        cases hbracket
      · exact fun c hc => isIdChar_iff.mp (List.mem_takeWhile_imp hc)
  · cases h

theorem IsTabTitle.tabId?_eq (h : IsTabTitle text id title) : tabId? title = some id := by
  have hbracket : ∀ c ∈ text, (c != ']') = true := by
    intro c hc
    rw [bne_iff_ne]
    rintro rfl
    exact h.text hc
  obtain ⟨htake, hdrop⟩ := takeWhile_run ('(' :: (tabMark ++ (id ++ [')']))) hbracket
    (bne_self_eq_false ']')
  obtain ⟨htakeId, hdropId⟩ := takeWhile_run [] (fun c hc => isIdChar_iff.mpr (h.id c hc))
    (show isIdChar ')' = false from rfl)
  have htarget : "](#tab/".toList.isPrefixOf? (']' :: '(' :: (tabMark ++ (id ++ [')']))) =
      some (id ++ [')']) :=
    List.isPrefixOf?_eq_some_iff_append_eq.mpr rfl
  unfold isIdChar at htakeId hdropId
  rw [h.eq, tabId?]
  simp only [htake, hdrop, htarget, htakeId, hdropId]
  simp [h.text_ne, h.id_ne]

/-- The identifier is read exactly from the titles of the form of a tab. -/
theorem tabId?_eq_some_iff : tabId? title = some id ↔ ∃ text, IsTabTitle text id title :=
  ⟨exists_isTabTitle_of_tabId?, fun ⟨_, h⟩ => h.tabId?_eq⟩

/-- A heading line makes a tab with an identifier exactly when its title has the form. -/
theorem isTab_headingBlock_iff :
    IsTab (headingBlock source line heading) id ↔ ∃ text, IsTabTitle text id heading.title := by
  rw [← tabId?_eq_some_iff, IsTab, headingBlock]
  cases htab : tabId? heading.title with
  | none =>
    constructor
    · rintro ⟨hkind, -⟩
      cases hkind
    · nofun
  | some found =>
    constructor
    · rintro ⟨-, htag⟩
      have hfound : String.ofList found = String.ofList id := Option.some.inj htag
      rw [String.ofList_injective hfound]
    · rintro hfound
      obtain rfl := Option.some.inj hfound
      exact ⟨rfl, rfl⟩

/-! ## Tab links

Inline text is one link over the whole of it exactly when it is written as a link: the scan reads
the link at its first place, and a link in other places leaves something before or behind it.
-/

/-- A node that is a link over the whole text is made from the pieces of the text. -/
theorem exists_link_of_whole {cs : List Char} {text target : Span} {image : Bool}
    (h : Inline.link ⟨base, base + byteSize cs⟩ text target image ∈ parseInline base cs) :
    ∃ p : LinkParts, p.IsLink ∧ p.source = cs ∧
      .link ⟨base, base + byteSize cs⟩ text target image = p.node base := by
  obtain ⟨before, rest, found, rfl, -, hread, hnode⟩ :=
    exists_of_mem_scanInline recognizes_constructAt? (fun s hs => by cases hs) h
  cases found with
  | code run inner => cases hnode
  | link p =>
    obtain ⟨hp, after, rfl⟩ := linkAt?_eq_some_iff.mp (constructAt?_eq_link_iff.mp hread)
    -- The link starts and stops with the text, so nothing stands before or after it.
    have hstart : base = base + byteSize before := congrArg (fun n => n.full.start) hnode
    have hstop : base + byteSize (before ++ (p.source ++ after)) =
        base + byteSize before + byteSize p.source := congrArg (fun n => n.full.stop) hnode
    rw [byteSize_append, byteSize_append] at hstop
    obtain rfl : before = [] := byteSize_eq_zero_iff.mp (by omega)
    obtain rfl : after = [] := byteSize_eq_zero_iff.mp (by omega)
    refine ⟨p, hp, by simp, ?_⟩
    rw [hnode]
    rfl

/-- A text that is a link has one node. -/
theorem LinkParts.IsLink.parseInline_eq (hp : p.IsLink) (base : Nat) :
    parseInline base p.source = [p.node base] := by
  have hread : constructAt? (Construct.source (.link p) ++ []) = some (.link p) := by
    rw [List.append_nil]
    exact constructAt?_eq_link_iff.mpr (linkAt?_eq_some_iff.mpr ⟨hp, List.prefix_rfl⟩)
  have hscan := scanInline_of_some recognizes_constructAt? hread base base
  rw [List.append_nil] at hscan
  show scanInline constructAt? base base (Construct.source (.link p)) = _
  rw [hscan, scanInline, plainText, plainText, if_neg (Nat.lt_irrefl _),
    if_neg (Nat.lt_irrefl _)]
  rfl

/-- A text that is a link has one link block. -/
theorem LinkParts.IsLink.linkBlocks_eq (hp : p.IsLink) (base : Nat) :
    ∃ b, linkBlocks base p.source = [b] ∧ b.kind = .link ∧
      b.span = ⟨base, base + byteSize p.source⟩ ∧
      b.targetText? = some (String.ofList p.target) := by
  obtain ⟨b, hb, hkind, hspan, -, -, htarget, -⟩ := linkBlock?_node base [] [] p
  rw [List.nil_append, List.append_nil, byteSize_nil, Nat.add_zero] at hb
  rw [byteSize_nil, Nat.add_zero] at hspan
  refine ⟨b, ?_, hkind, hspan, htarget⟩
  rw [linkBlocks, hp.parseInline_eq, List.filterMap_cons_some hb, List.filterMap_nil]

/-- A text with a link block over the whole of it is a link. -/
theorem exists_link_of_mem_linkBlocks {cs : List Char} {b : Block} (hb : b ∈ linkBlocks base cs)
    (hspan : b.span = ⟨base, base + byteSize cs⟩) : ∃ p : LinkParts, p.IsLink ∧ p.source = cs := by
  obtain ⟨node, hnode, hblock⟩ := List.mem_filterMap.mp hb
  unfold linkBlock? at hblock
  split at hblock
  · next full text target image =>
    obtain rfl : full = ⟨base, base + byteSize cs⟩ := by
      rw [← hspan, ← Option.some.inj hblock]
      rfl
    obtain ⟨p, hp, hsource, -⟩ := exists_link_of_whole hnode
    exact ⟨p, hp, hsource⟩
  · cases hblock

/-- The target of a link is found in its text. -/
theorem partAt_target (base : Nat) (p : LinkParts) :
    partAt base p.source ⟨base + byteSize p.head, base + byteSize p.head + byteSize p.target⟩ =
      p.target := by
  have hpart := partAt_linkTarget base [] [] p
  rw [List.append_nil] at hpart
  exact hpart

/-- A title is a tab link exactly when it is a link, not an image, to the mark and the
identifier. -/
theorem isTabLink_iff : IsTabLink base title id ↔
    ∃ p : LinkParts, p.IsLink ∧ p.source = title ∧ p.image = false ∧ p.target = tabMark ++ id := by
  constructor
  · rintro ⟨text, target, hnodes, htarget⟩
    obtain ⟨p, hp, rfl, hnode⟩ := exists_link_of_whole (hnodes ▸ List.mem_singleton_self _)
    obtain ⟨-, -, rfl, himage⟩ := Inline.link.inj hnode
    rw [partAt_target] at htarget
    exact ⟨p, hp, rfl, himage.symm, htarget⟩
  · rintro ⟨p, hp, rfl, himage, htarget⟩
    refine ⟨⟨base + byteSize p.opening, base + byteSize p.opening + byteSize p.text⟩,
      ⟨base + byteSize p.head, base + byteSize p.head + byteSize p.target⟩,
      ?_, (partAt_target base p).trans htarget⟩
    rw [hp.parseInline_eq, LinkParts.node, himage]

/-! ## Titles of both forms

In a title of the form of a tab the text of a link cannot go on behind the first closing bracket, as
the rest would have to hold a second target. So the pieces of the two forms are the same, and what
is left of the grammar of links is that the text has its brackets in balance and that parentheses in
the target do.
-/

/-- The pieces of a tab title as those of a link. -/
def tabParts (text id : List Char) : LinkParts :=
  ⟨false, text, [], tabMark ++ id, [')']⟩

theorem source_tabParts (text id : List Char) :
    (tabParts text id).source = '[' :: (text ++ ']' :: '(' :: (tabMark ++ (id ++ [')']))) := by
  simp [tabParts, LinkParts.source, LinkParts.head, LinkParts.opening]

/-- A title of the form of a tab that is a link to its identifier has no other pieces. -/
theorem IsTabTitle.eq_tabParts (h : IsTabTitle text id title) (hp : p.IsLink)
    (hsource : p.source = title) (himage : p.image = false) (htarget : p.target = tabMark ++ id) :
    p = tabParts text id := by
  obtain ⟨hlength, hpieces⟩ : 1 ≤ p.tail.length ∧
      p.text ++ ']' :: '(' :: (p.spaces ++ (tabMark ++ (id ++ p.tail))) =
        text ++ ']' :: '(' :: (tabMark ++ (id ++ [')'])) := by
    obtain ⟨c, hc, -⟩ := hp.tail.head? []
    obtain ⟨rest, htail⟩ := List.head?_eq_some_iff.mp hc
    refine ⟨by simp [htail], ?_⟩
    have hall := hsource.trans h.eq
    simpa [LinkParts.source, LinkParts.head, LinkParts.opening, himage, htarget] using hall
  -- The text of the link goes on as far as that of the title, which has no closing bracket.
  obtain ⟨more, htext, hrest⟩ : ∃ more, p.text = text ++ more ∧
      ']' :: '(' :: (tabMark ++ (id ++ [')'])) =
        more ++ ']' :: '(' :: (p.spaces ++ (tabMark ++ (id ++ p.tail))) := by
    rcases List.append_eq_append_iff.mp hpieces with ⟨more, htext, hrest⟩ | ⟨more, htext, hrest⟩
    · cases more with
      | nil => exact ⟨[], by simpa using htext.symm, by simpa using hrest.symm⟩
      | cons c more =>
        obtain ⟨rfl, -⟩ := List.cons.inj hrest
        exact absurd (by simp [htext]) h.text
    · exact ⟨more, htext, hrest⟩
  -- What is left has room for the pieces of a tab title only.
  have hsizes := congrArg List.length hrest
  simp only [List.length_cons, List.length_append, List.length_nil] at hsizes
  obtain rfl : more = [] := List.length_eq_zero_iff.mp (by omega)
  have hspaces : p.spaces = [] := List.length_eq_zero_iff.mp (by omega)
  have htail : p.tail = [')'] := by
    rw [hspaces] at hrest
    simpa using hrest.symm
  rw [List.append_nil] at htext
  obtain ⟨image, text', spaces, target, tail⟩ := p
  simp_all [tabParts]

theorem count_eq_zero_of_id (hid : ∀ c ∈ id, c ≠ ')' ∧ isBlank c = false) :
    (tabMark ++ id).count ')' = 0 := by
  rw [List.count_append, List.count_eq_zero.mpr (by decide), List.count_eq_zero.mpr ?_]
  exact fun hmem => (hid ')' hmem).1 rfl

/-- A tab title is a link to its identifier exactly when its text is one that links have and its
identifier opens no parenthesis. -/
theorem IsTabTitle.isLink_iff (h : IsTabTitle text id title) :
    (tabParts text id).IsLink ↔ IsLinkText text ∧ '(' ∉ id := by
  have hcount := count_eq_zero_of_id h.id
  constructor
  · intro hlink
    refine ⟨hlink.text, fun hmem => ?_⟩
    rcases hlink.closed with hbalanced | ⟨c, hc, hindent⟩
    · have hnone : (tabMark ++ id).count '(' = 0 := hbalanced.symm.trans hcount
      exact List.count_eq_zero.mp hnone (List.mem_append_right _ hmem)
    · obtain rfl := Option.some.inj hc
      cases hindent
  · rintro ⟨htext, hparen⟩
    have hopen : (tabMark ++ id).count '(' = 0 := by
      rw [List.count_append, List.count_eq_zero.mpr (by decide), List.count_eq_zero.mpr hparen]
    refine ⟨htext, nofun, nofun, ?_, ?_, Or.inl (hcount.trans hopen.symm), .bare ⟨[], nofun, rfl⟩⟩
    · intro c hc
      have hink : isBlank c = false := by
        have hmarks : tabMark.all (!isBlank ·) = true := rfl
        rcases List.mem_append.mp hc with hmark | hid
        · simpa using List.all_eq_true.mp hmarks c hmark
        · exact (h.id c hid).2
      refine ⟨?_, ?_, ?_⟩ <;>
      · rintro rfl
        cases hink
    · intro front hfront
      have hle := hfront.sublist.count_le ')'
      have hzero : (tabParts text id).target.count ')' = 0 := hcount
      omega

/-- A title of the form of a tab is the link to its identifier exactly when its text is one that
links have and the identifier opens no parenthesis. -/
theorem IsTabTitle.isTabLink_iff (h : IsTabTitle text id title) :
    IsTabLink base title id ↔ IsLinkText text ∧ '(' ∉ id := by
  rw [← h.isLink_iff, Markdown.isTabLink_iff]
  constructor
  · rintro ⟨p, hp, hsource, himage, htarget⟩
    exact h.eq_tabParts hp hsource himage htarget ▸ hp
  · intro hlink
    exact ⟨tabParts text id, hlink, (source_tabParts text id).trans h.eq.symm, rfl, rfl⟩

/-- The pieces of a link to an identifier are not those of a title of the form of a tab. -/
def LinkParts.IsNoTab (p : LinkParts) (id : List Char) : Prop :=
  p.text = [] ∨ ']' ∈ p.text ∨ p.spaces ≠ [] ∨ p.tail ≠ [')'] ∨ ∃ c ∈ id, c = ')' ∨ isBlank c = true

/-- A title that is a link to an identifier has the form of a tab exactly when its pieces do. -/
theorem LinkParts.IsLink.isTabTitle_iff (hp : p.IsLink) (hsource : p.source = title)
    (himage : p.image = false) (htarget : p.target = tabMark ++ id) (hid : id ≠ []) :
    (∃ text, IsTabTitle text id title) ↔ ¬ p.IsNoTab id := by
  constructor
  · rintro ⟨text, h⟩
    obtain rfl := h.eq_tabParts hp hsource himage htarget
    rintro (htext | hbracket | hspaces | htail | ⟨c, hc, hclose | hblank⟩)
    · exact h.text_ne htext
    · exact h.text hbracket
    · exact hspaces rfl
    · exact htail rfl
    · exact (h.id c hc).1 hclose
    · rw [(h.id c hc).2] at hblank
      cases hblank
  · intro h
    simp only [LinkParts.IsNoTab, not_or, not_exists, not_and, not_not, Bool.not_eq_true] at h
    obtain ⟨htext, hbracket, hspaces, htail, hchars⟩ := h
    refine ⟨p.text, ?_, htext, hbracket, hid, hchars⟩
    rw [← hsource]
    simp [LinkParts.source, LinkParts.head, LinkParts.opening, himage, hspaces, htail, htarget]

/-- When a heading is a tab with an identifier and when its title is the link to it: both, only the
one, and only the other. -/
theorem isTab_isTabLink_cases (hid : id ≠ []) :
    (IsTab (headingBlock source line heading) id ∧ IsTabLink base heading.title id ↔
      ∃ text, IsTabTitle text id heading.title ∧ IsLinkText text ∧ '(' ∉ id) ∧
    (IsTab (headingBlock source line heading) id ∧ ¬ IsTabLink base heading.title id ↔
      ∃ text, IsTabTitle text id heading.title ∧ (¬ IsLinkText text ∨ '(' ∈ id)) ∧
    (¬ IsTab (headingBlock source line heading) id ∧ IsTabLink base heading.title id ↔
      ∃ p : LinkParts, p.IsLink ∧ p.source = heading.title ∧ p.image = false ∧
        p.target = tabMark ++ id ∧ p.IsNoTab id) := by
  rw [isTab_headingBlock_iff]
  refine ⟨⟨?_, ?_⟩, ⟨?_, ?_⟩, ⟨?_, ?_⟩⟩
  · rintro ⟨⟨text, htitle⟩, hlink⟩
    exact ⟨text, htitle, htitle.isTabLink_iff.mp hlink⟩
  · rintro ⟨text, htitle, hplain⟩
    exact ⟨⟨text, htitle⟩, htitle.isTabLink_iff.mpr hplain⟩
  · rintro ⟨⟨text, htitle⟩, hlink⟩
    rw [htitle.isTabLink_iff, not_and_or, not_not] at hlink
    exact ⟨text, htitle, hlink⟩
  · rintro ⟨text, htitle, hplain⟩
    refine ⟨⟨text, htitle⟩, ?_⟩
    rwa [htitle.isTabLink_iff, not_and_or, not_not]
  · rintro ⟨htab, hlink⟩
    obtain ⟨p, hp, hsource, himage, htarget⟩ := isTabLink_iff.mp hlink
    rw [hp.isTabTitle_iff hsource himage htarget hid, not_not] at htab
    exact ⟨p, hp, hsource, himage, htarget, htab⟩
  · rintro ⟨p, hp, hsource, himage, htarget, hno⟩
    refine ⟨?_, isTabLink_iff.mpr ⟨p, hp, hsource, himage, htarget⟩⟩
    rwa [hp.isTabTitle_iff hsource himage htarget hid, not_not]

/-! ## The link in a tab -/

/-- The only child of a block is a link over a span with a target. -/
def HasOnlyLink (b : Block) (s : Span) (target : List Char) : Prop :=
  ∃ c, b.children = [c] ∧ c.kind = .link ∧ c.span = s ∧
    c.targetText? = some (String.ofList target)

/-- A heading whose title has the form of a tab has the link to its identifier as its only child
exactly when the title is that link. -/
theorem IsTabTitle.hasOnlyLink_iff (h : IsTabTitle text id heading.title) :
    HasOnlyLink (headingBlock source line heading)
      ⟨line.content.start + heading.offset, line.content.start + heading.stop⟩ (tabMark ++ id) ↔
      IsLinkText text ∧ '(' ∉ id := by
  have hchildren : (headingBlock source line heading).children =
      linkBlocks (line.content.start + heading.offset) heading.title := by
    rw [headingBlock]
    rfl
  rw [HasOnlyLink, hchildren, ← h.isLink_iff, Heading.stop, ← Nat.add_assoc]
  generalize line.content.start + heading.offset = base
  constructor
  · rintro ⟨c, hc, -, hspan, htarget⟩
    have hmem : c ∈ linkBlocks base heading.title := by
      rw [hc]
      exact List.mem_singleton_self c
    obtain ⟨p, hp, hsource⟩ := exists_link_of_mem_linkBlocks hmem hspan
    obtain ⟨c', hc', -, -, htarget'⟩ := hp.linkBlocks_eq base
    -- The link of the whole title is the child, so it has the target of the child.
    rw [hsource, hc] at hc'
    obtain rfl := (List.cons.inj hc').1
    rw [htarget] at htarget'
    have hpieces : p.target = tabMark ++ id :=
      (String.ofList_injective (Option.some.inj htarget')).symm
    have himage : p.image = false := by
      cases hp' : p.image with
      | false => rfl
      | true =>
        have hstart := hsource.trans h.eq
        simp [LinkParts.source, LinkParts.head, LinkParts.opening, hp'] at hstart
    exact h.eq_tabParts hp hsource himage hpieces ▸ hp
  · intro hlink
    obtain ⟨c, hc, hkind, hspan, htarget⟩ := hlink.linkBlocks_eq base
    rw [source_tabParts, ← h.eq] at hc hspan
    exact ⟨c, hc, hkind, hspan, htarget⟩

end ArticleAudit.Markdown
