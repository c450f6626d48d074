import ArticleAudit.Proofs.Markdown.LinkGrammar
import ArticleAudit.Proofs.Markdown.Scanning

/-!
# Links are recognized by their grammar

At every place that the scan of an inline text comes to, a link starts exactly when the grammar has
one there. The grammar leaves no choice: where the link ends, its text and its target are
determined by what is left at the place. The node has the spans of the text and the target, and the
link block has them as its content, target and tag (`parseInline_links`).
-/

set_option autoImplicit false

namespace ArticleAudit.Markdown

open ArticleAudit.Text

variable {base : Nat} {cs before rest after : List Char} {l : LinkParts}

/-- No code span starts where a link does. -/
theorem constructAt?_eq_link_iff : constructAt? cs = some (.link l) ↔ linkAt? cs = some l := by
  constructor
  · intro h
    rcases constructAt?_cases h with hcode | ⟨l', hl', heq⟩
    · obtain ⟨run, inner, -, heq, -⟩ := exists_append_of_codeAt? hcode
      cases heq
    · cases heq
      exact hl'
  · intro h
    have hcode : codeAt? cs = none := by
      unfold linkAt? at h
      split at h
      · rfl
      · rfl
      · cases h
    rw [constructAt?, hcode, h]
    rfl

/-- A link that is read at a place of the scan is a node. -/
theorem Reaches.mem_of_linkAt? (h : Reaches constructAt? before rest) (hl : linkAt? rest = some l)
    (base : Nat) : l.node (base + byteSize before) ∈ parseInline base (before ++ rest) :=
  h.mem_scanInline recognizes_constructAt? (constructAt?_eq_link_iff.mpr hl) base base

/-- The grammar has at most one link at a place. -/
theorem LinkParts.IsLink.unique {l' : LinkParts} (h : l.IsLink) (hcs : l.source <+: cs)
    (h' : l'.IsLink) (hcs' : l'.source <+: cs) : l' = l := by
  have hread := linkAt?_eq_some_iff.mpr ⟨h, hcs⟩
  rw [linkAt?_eq_some_iff.mpr ⟨h', hcs'⟩] at hread
  exact Option.some.inj hread

/-- The text of a link stands behind its opening. -/
theorem partAt_linkText (base : Nat) (before after : List Char) (l : LinkParts) :
    partAt base (before ++ (l.source ++ after))
      ⟨base + byteSize before + byteSize l.opening,
        base + byteSize before + byteSize l.opening + byteSize l.text⟩ = l.text := by
  have hcs : before ++ (l.source ++ after) = (before ++ l.opening) ++ l.text ++
      ([']', '('] ++ l.spaces ++ l.target ++ l.tail ++ after) := by
    simp [LinkParts.source, LinkParts.head]
  rw [hcs, Nat.add_assoc base, ← byteSize_append]
  exact partAt_eq

/-- The target of a link stands behind its head. -/
theorem partAt_linkTarget (base : Nat) (before after : List Char) (l : LinkParts) :
    partAt base (before ++ (l.source ++ after))
      ⟨base + byteSize before + byteSize l.head,
        base + byteSize before + byteSize l.head + byteSize l.target⟩ = l.target := by
  have hcs : before ++ (l.source ++ after) =
      (before ++ l.head) ++ l.target ++ (l.tail ++ after) := by
    simp [LinkParts.source]
  rw [hcs, Nat.add_assoc base, ← byteSize_append]
  exact partAt_eq

/-- The block of a link has the text and the target of the link. -/
theorem linkBlock?_node (base : Nat) (before after : List Char) (l : LinkParts) :
    ∃ b, linkBlock? base (before ++ l.source ++ after) (l.node (base + byteSize before)) = some b ∧
      b.kind = .link ∧
      b.span = ⟨base + byteSize before, base + byteSize before + byteSize l.source⟩ ∧
      b.text = String.ofList l.source ∧ b.contentText = String.ofList l.text ∧
      b.targetText? = some (String.ofList l.target) ∧ b.tag = some (String.ofList l.target) := by
  have htarget := partAt_linkTarget base before after l
  rw [← List.append_assoc] at htarget
  obtain ⟨p, hp⟩ : ∃ p, p = base + byteSize before := ⟨_, rfl⟩
  have hfull : partAt base (before ++ l.source ++ after) ⟨p, p + byteSize l.source⟩ = l.source := by
    rw [hp]
    exact partAt_eq
  rw [← hp] at htarget
  -- A piece of the link is found in the text of the block where it stands in the link.
  have hpiece : ∀ {b : Block} {a piece c : List Char},
      b.span = ⟨p, p + byteSize l.source⟩ → b.text = String.ofList l.source →
      l.source = a ++ piece ++ c →
      b.textAt? ⟨p + byteSize a, p + byteSize a + byteSize piece⟩ =
        some (String.ofList piece) := by
    intro b a piece c hspan htext hsource
    unfold Block.textAt?
    rw [hspan, htext, String.toList_ofList, hsource]
    simp only [Nat.le_add_right, Nat.add_assoc, decide_true, Bool.and_self, if_true,
      Nat.add_sub_cancel_left]
    rw [slice?_append]
    rfl
  rw [← hp, LinkParts.node, linkBlock?_link, hfull, htarget]
  refine ⟨_, rfl, rfl, rfl, rfl, ?_, ?_, rfl⟩
  · have hsource : l.source = l.opening ++ l.text ++
        ([']', '('] ++ l.spaces ++ l.target ++ l.tail) := by
      simp [LinkParts.source, LinkParts.head]
    unfold Block.contentText
    exact congrArg (Option.getD · _) (hpiece rfl rfl hsource)
  · exact hpiece rfl rfl rfl

/-- At a place that the scan comes to, a link from there to `q` is a node exactly when the grammar
has a link of that extent there; its pieces are unique, the node has the spans of its text and its
target and is an image when an exclamation mark comes first, and its block has the text as its
content and the target as its target and tag. -/
theorem parseInline_links (base : Nat) {before rest : List Char}
    (h : Reaches constructAt? before rest) :
    (∀ q, (∃ text target image, Inline.link ⟨base + byteSize before, q⟩ text target image ∈
        parseInline base (before ++ rest)) ↔
      ∃ l : LinkParts, l.IsLink ∧ l.source <+: rest ∧
        q = base + byteSize before + byteSize l.source) ∧
    ∀ l : LinkParts, l.IsLink → l.source <+: rest →
      (∀ l' : LinkParts, l'.IsLink → l'.source <+: rest → l' = l) ∧
      (∀ q text target image, Inline.link ⟨base + byteSize before, q⟩ text target image ∈
          parseInline base (before ++ rest) →
        Inline.link ⟨base + byteSize before, q⟩ text target image =
          l.node (base + byteSize before)) ∧
      (l.image = true ↔ rest.head? = some '!') ∧
      ∃ b ∈ linkBlocks base (before ++ rest), b.kind = .link ∧
        b.span = ⟨base + byteSize before, base + byteSize before + byteSize l.source⟩ ∧
        b.text = String.ofList l.source ∧ b.contentText = String.ofList l.text ∧
        b.targetText? = some (String.ofList l.target) ∧
        b.tag = some (String.ofList l.target) := by
  have hnode : ∀ {l : LinkParts}, l.IsLink → l.source <+: rest →
      l.node (base + byteSize before) ∈ parseInline base (before ++ rest) := by
    intro l hl hprefix
    exact h.mem_of_linkAt? (linkAt?_eq_some_iff.mpr ⟨hl, hprefix⟩) base
  have hparts : ∀ {q text target image}, Inline.link ⟨base + byteSize before, q⟩ text target image ∈
      parseInline base (before ++ rest) → ∃ l : LinkParts, l.IsLink ∧ l.source <+: rest ∧
        Inline.link ⟨base + byteSize before, q⟩ text target image =
          l.node (base + byteSize before) := by
    intro q text target image hmem
    obtain ⟨before', rest', found, hcs, -, hread, heq⟩ :=
      exists_of_mem_scanInline recognizes_constructAt? (fun s hs => by cases hs) hmem
    cases found with
    | code run inner => cases heq
    | link l =>
      -- The node starts at the place, so what it was read from is what is left there.
      have hstart : base + byteSize before = base + byteSize before' :=
        congrArg (fun n => n.full.start) heq
      obtain ⟨rfl, rfl⟩ := append_inj_of_byteSize hcs (Nat.add_left_cancel hstart)
      obtain ⟨hl, hprefix⟩ := linkAt?_eq_some_iff.mp (constructAt?_eq_link_iff.mp hread)
      exact ⟨l, hl, hprefix, heq⟩
  refine ⟨fun q => ⟨?_, ?_⟩, fun l hl hprefix => ⟨?_, ?_, ?_, ?_⟩⟩
  · rintro ⟨text, target, image, hmem⟩
    obtain ⟨l, hl, hprefix, heq⟩ := hparts hmem
    exact ⟨l, hl, hprefix, congrArg (fun n => n.full.stop) heq⟩
  · rintro ⟨l, hl, hprefix, rfl⟩
    exact ⟨_, _, _, hnode hl hprefix⟩
  · exact fun l' hl' hprefix' => hl.unique hprefix hl' hprefix'
  · intro q text target image hmem
    obtain ⟨l', hl', hprefix', heq⟩ := hparts hmem
    rw [heq, hl.unique hprefix hl' hprefix']
  · obtain ⟨after, rfl⟩ := hprefix
    cases himage : l.image <;>
      simp [LinkParts.source, LinkParts.head, LinkParts.opening, himage]
  · obtain ⟨after, rfl⟩ := hprefix
    have hmem := hnode hl (List.prefix_append _ _)
    rw [← List.append_assoc] at hmem ⊢
    obtain ⟨b, hb, hfields⟩ := linkBlock?_node base before after l
    exact ⟨b, List.mem_filterMap.mpr ⟨_, hmem, hb⟩, hfields⟩

/-- An image with a title, behind an escaped bracket. -/
theorem parseInline_links_image :
    Reaches constructAt? "\\[".toList "![a[b]](c(d) \"t\") e".toList ∧
      ∃ l : LinkParts, l.IsLink ∧ l.source <+: "![a[b]](c(d) \"t\") e".toList ∧
        l.text = "a[b]".toList ∧ l.target = "c(d)".toList ∧
        (∃ text target image, Inline.link ⟨2, 19⟩ text target image ∈
          parseInline 0 ("\\[".toList ++ "![a[b]](c(d) \"t\") e".toList)) ∧
        ∃ b ∈ linkBlocks 0 ("\\[".toList ++ "![a[b]](c(d) \"t\") e".toList),
          b.contentText = "a[b]" ∧ b.targetText? = some "c(d)" := by
  have hreaches : Reaches constructAt? "\\[".toList "![a[b]](c(d) \"t\") e".toList :=
    .single (.escape '[' _)
  have hread : linkAt? "![a[b]](c(d) \"t\") e".toList =
      some ⟨true, "a[b]".toList, [], "c(d)".toList, " \"t\")".toList⟩ := by
    decide
  obtain ⟨hl, hprefix⟩ := linkAt?_eq_some_iff.mp hread
  obtain ⟨hextent, hpieces⟩ := parseInline_links 0 hreaches
  obtain ⟨-, -, -, b, hb, -, -, -, hcontent, htarget, -⟩ := hpieces _ hl hprefix
  exact ⟨hreaches, _, hl, hprefix, rfl, rfl, (hextent 19).mpr ⟨_, hl, hprefix, rfl⟩, b, hb,
    hcontent, htarget⟩

end ArticleAudit.Markdown
