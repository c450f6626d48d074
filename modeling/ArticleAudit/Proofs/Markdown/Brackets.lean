import ArticleAudit.Proofs.Markdown.Tiling
import ArticleAudit.Proofs.Markdown.Precedence

/-!
# Links at the brackets of a text

The scan goes on behind a link, so it does not look for a link inside another one. A bracket with
the grammar of a link behind it that no backslash escapes and no code span covers therefore has its
link among the nodes exactly when it does not stand within another link
(`hasLinkAt_iff`). An image is recognized from its exclamation mark on; its text and
its target are those of the construct from the bracket on, so images need no case of their own, and
an image in the text of a link is as little a node as a link there is.
-/

set_option autoImplicit false

namespace ArticleAudit.Markdown

open ArticleAudit.Text

variable {base offset : Nat} {cs before after rest : List Char} {l : LinkParts} {n : Inline}

/-! ## Brackets -/

/-- The number of backslashes at the end of a text. -/
def slashes (cs : List Char) : Nat :=
  (cs.reverse.takeWhile (· == '\\')).length

/-- The character after the text is escaped: it follows an odd number of backslashes. -/
def EscapesNext (before : List Char) : Prop :=
  slashes before % 2 = 1

instance (before : List Char) : Decidable (EscapesNext before) :=
  inferInstanceAs (Decidable (_ = _))

/-- The construct from its bracket on, without the exclamation mark of an image. -/
def LinkParts.bare (l : LinkParts) : LinkParts :=
  { l with image := false }

/-- The offset lies within a link: behind its opening, in the text, the target or the title. -/
def Inline.Holds (offset : Nat) : Inline → Prop
  | .link full label _ _ => label.start ≤ offset ∧ offset < full.stop
  | _ => False

instance (offset : Nat) : (n : Inline) → Decidable (n.Holds offset)
  | .text _ => inferInstanceAs (Decidable False)
  | .codeSpan _ _ => inferInstanceAs (Decidable False)
  | .link _ _ _ _ => inferInstanceAs (Decidable (_ ∧ _))

/-- A link node has the text and the target of a construct whose bracket stands at an offset. -/
def HasLinkAt (nodes : List Inline) (l : LinkParts) (offset : Nat) : Prop :=
  ∃ full image, Inline.link full ⟨offset + 1, offset + 1 + byteSize l.text⟩
    ⟨offset + byteSize l.bare.head, offset + byteSize l.bare.head + byteSize l.target⟩ image ∈ nodes

@[simp] theorem slashes_concat_slash (cs : List Char) :
    slashes (cs ++ ['\\']) = slashes cs + 1 := by
  simp [slashes]

theorem slashes_concat {c : Char} (hc : c ≠ '\\') (cs : List Char) : slashes (cs ++ [c]) = 0 := by
  simp [slashes, hc]

theorem byteSize_bare_head (l : LinkParts) :
    byteSize l.bare.head = 1 + byteSize l.text + 2 + byteSize l.spaces := by
  have hopening : byteSize l.bare.opening = 1 := rfl
  have hmiddle : byteSize [']', '('] = 2 := rfl
  rw [LinkParts.head, byteSize_append, byteSize_append, byteSize_append, hopening, hmiddle]
  rfl

/-- The grammar is the same with and without an exclamation mark. -/
theorem LinkParts.IsLink.bare (h : l.IsLink) : l.bare.IsLink :=
  ⟨h.text, h.spaces, h.spaces_all, h.target, h.opened, h.closed, h.tail⟩

/-- An image has its text and its target where the construct from its bracket on has them. -/
theorem LinkParts.node_eq (l : LinkParts) (position : Nat) :
    l.node position = .link ⟨position, position + byteSize l.source⟩
      ⟨position + byteSize l.opening, position + byteSize l.opening + byteSize l.text⟩
      ⟨position + byteSize l.opening - 1 + byteSize l.bare.head,
        position + byteSize l.opening - 1 + byteSize l.bare.head + byteSize l.target⟩ l.image := by
  have hhead : position + byteSize l.head =
      position + byteSize l.opening - 1 + byteSize l.bare.head := by
    have hmiddle : byteSize [']', '('] = 2 := rfl
    have hopening : 1 ≤ byteSize l.opening := by
      unfold LinkParts.opening
      split <;> decide
    rw [byteSize_bare_head, LinkParts.head, byteSize_append, byteSize_append, byteSize_append,
      hmiddle]
    omega
  rw [LinkParts.node, hhead]

/-! ## Backslashes before a place -/

/-- A construct ends in a tick or in a parenthesis. -/
theorem exists_last_of_constructAt? {found : Construct} (h : constructAt? cs = some found) :
    ∃ init c, found.source = init ++ [c] ∧ c ≠ '\\' := by
  rcases constructAt?_cases h with hcode | ⟨l, hl, rfl⟩
  · obtain ⟨run, body, after, rfl, hiscode, -⟩ := exists_of_codeAt? hcode
    obtain ⟨k, rfl⟩ := Nat.exists_eq_succ_of_ne_zero hiscode.run_pos.ne'
    refine ⟨List.replicate (k + 1) tick ++ body ++ List.replicate k tick, tick, ?_, by decide⟩
    simp only [Construct.source, List.replicate_succ', List.append_assoc]
  · obtain ⟨init, htail⟩ := (linkAt?_eq_some hl).1
    refine ⟨l.head ++ l.target ++ init, ')', ?_, by decide⟩
    rw [Construct.source, LinkParts.source, htail, ← List.append_assoc]

/-- The scan takes backslashes two by two, so it comes to no escaped character. -/
theorem Reaches.not_escapesNext (h : Reaches constructAt? before rest) (hrest : rest ≠ []) :
    ¬ EscapesNext before := by
  -- Only the step over an escaped character leaves backslashes at the end, one more or two more.
  induction h using Reaches.induction_last with
  | here => nofun
  | step before part rest hbefore htake ih =>
    have hbefore := ih (List.append_ne_nil_of_left_ne_nil (htake.ne_nil recognizes_constructAt?) _)
    unfold EscapesNext at hbefore ⊢
    cases htake with
    | escape c =>
      rw [show before ++ ['\\', c] = before ++ ['\\'] ++ [c] by simp]
      by_cases hc : c = '\\'
      · subst hc
        rw [slashes_concat_slash, slashes_concat_slash]
        omega
      · rw [slashes_concat hc]
        decide
    | lastEscape => exact absurd rfl hrest
    | construct hread hpart =>
      obtain ⟨init, c, hsource, hc⟩ := exists_last_of_constructAt? hread
      rw [← hpart, hsource, ← List.append_assoc, slashes_concat hc]
      decide
    | plain hc =>
      rw [slashes_concat hc]
      decide

/-! ## Brackets and links

A bracket is a place of the scan, or it lies in a construct that the scan has taken. In the first
case its link is read there. In the second the construct is no escape, since the bracket is not
escaped, and no code; so it is a link around the bracket, or the image that the bracket opens.
-/

/-- An offset that a node holds is a byte of it. -/
theorem holdsByte_of_holds (hn : n ∈ parseInline base cs) (h : n.Holds offset) :
    HoldsByte n.full offset := by
  cases n with
  | text => cases h
  | codeSpan => cases h
  | link full label target image =>
    obtain ⟨before, l, after, -, -, -, hnode⟩ := exists_of_delimiters hn (List.cons_ne_nil _ _)
    obtain ⟨rfl, rfl, -, -⟩ := Inline.link.inj hnode
    exact ⟨(Nat.le_add_right _ _).trans h.1, h.2⟩

theorem hasLinkAt_of_mem {nodes : List Inline} {position : Nat} {image : Bool}
    (h : LinkParts.node { l with image } position ∈ nodes)
    (hoffset : position + byteSize (LinkParts.opening { l with image }) = offset + 1) :
    HasLinkAt nodes l offset := by
  rw [LinkParts.node_eq, hoffset, Nat.add_sub_cancel] at h
  exact ⟨_, _, h⟩

/-- A place within the opening of a link is the one between an exclamation mark and the bracket. -/
theorem LinkParts.eq_of_within_opening {m : LinkParts} {left right : List Char}
    (hsource : m.source = left ++ right) (hleft : left ≠ [])
    (hlt : byteSize left < byteSize m.opening) :
    left = ['!'] ∧ m.image = true ∧ right = m.bare.source := by
  obtain ⟨c, left, rfl⟩ := List.exists_cons_of_ne_nil hleft
  have hc := c.utf8Size_pos
  rw [byteSize_cons] at hlt
  cases himage : m.image with
  | false =>
    have hopening : byteSize m.opening = 1 := by
      rw [LinkParts.opening, himage]
      rfl
    omega
  | true =>
    have hopening : byteSize m.opening = 2 := by
      rw [LinkParts.opening, himage]
      rfl
    have hbang : m.source = '!' :: m.bare.source := by
      simp [LinkParts.source, LinkParts.head, LinkParts.opening, LinkParts.bare, himage]
    obtain ⟨rfl, hright⟩ := List.cons.inj (hbang.symm.trans hsource)
    obtain rfl : left = [] := byteSize_eq_zero_iff.mp (by omega)
    exact ⟨rfl, rfl, hright.symm⟩

/-- A bracket with the grammar of a link behind it, not escaped and in no code span, has its link
among the nodes exactly when no link holds the bracket. -/
theorem hasLinkAt_iff (base : Nat) (hl : l.IsLink) (hescape : ¬ EscapesNext before)
    (hcode : ∀ full inner,
      Inline.codeSpan full inner ∈ parseInline base (before ++ (l.bare.source ++ after)) →
        ¬ HoldsByte full (base + byteSize before)) :
    HasLinkAt (parseInline base (before ++ (l.bare.source ++ after))) l
        (base + byteSize before) ↔
      ∀ n ∈ parseInline base (before ++ (l.bare.source ++ after)),
        ¬ n.Holds (base + byteSize before) := by
  constructor
  · rintro ⟨full, image, hlink⟩ n hn hholds
    -- Both nodes have the bracket, so they are the same one, and no link holds its own bracket.
    have hbyte := holdsByte_of_mem_delimiters hlink (List.mem_cons_self ..)
    rw [Nat.add_sub_cancel] at hbyte
    obtain rfl := eq_of_holdsByte hn hlink (holdsByte_of_holds hn hholds) hbyte
    exact absurd hholds.1 (Nat.not_succ_le_self _)
  · intro hfree
    rcases Reaches.or_cut recognizes_constructAt? before (l.bare.source ++ after) with hplace |
      ⟨front, left, right, back, rfl, hright, hleft, hne, hfront, htake⟩
    · have hread := linkAt?_eq_some_iff.mpr ⟨hl.bare, List.prefix_append l.bare.source after⟩
      exact hasLinkAt_of_mem (hplace.mem_of_linkAt? hread base) rfl
    · have hslash : left ≠ ['\\'] := by
        rintro rfl
        have hfront := hfront.not_escapesNext (by simp)
        unfold EscapesNext at hescape hfront
        rw [slashes_concat_slash] at hescape
        omega
      obtain ⟨found, hread, hsource⟩ := htake.exists_of_cut hleft hne hslash
      have hmem := hfront.mem_scanInline recognizes_constructAt? hread base base
      have hcs : front ++ (left ++ right ++ back) = front ++ left ++ (l.bare.source ++ after) := by
        rw [hright]
        simp only [List.append_assoc]
      rw [hcs] at hmem
      have hbyte : HoldsByte (found.node (base + byteSize front)).full
          (base + byteSize (front ++ left)) := by
        have hpos := byteSize_pos_of_ne_nil hne
        rw [full_node, hsource, byteSize_append, byteSize_append]
        constructor
        · show base + byteSize front ≤ base + (byteSize front + byteSize left)
          omega
        · show base + (byteSize front + byteSize left) <
            base + byteSize front + (byteSize left + byteSize right)
          omega
      -- A construct around the bracket is no code. If it is a link, then the bracket is its own.
      cases found with
      | code run inner => exact absurd hbyte (hcode _ _ hmem)
      | link m =>
        obtain ⟨hm, -⟩ := linkAt?_eq_some_iff.mp (constructAt?_eq_link_iff.mp hread)
        have hopen : byteSize left < byteSize m.opening := by
          by_contra hle
          refine hfree _ hmem ⟨?_, hbyte.2⟩
          show base + byteSize front + byteSize m.opening ≤ base + byteSize (front ++ left)
          rw [byteSize_append]
          omega
        obtain ⟨rfl, himage, rfl⟩ := LinkParts.eq_of_within_opening hsource hleft hopen
        have hbare : m.bare = l.bare :=
          hl.bare.unique ⟨after, rfl⟩ hm.bare ⟨back, hright.symm⟩
        obtain rfl : m = { l with image := true } := by
          rw [← himage]
          exact congrArg (fun x : LinkParts => { x with image := m.image }) hbare
        refine hasLinkAt_of_mem hmem ?_
        rw [byteSize_append, ← Nat.add_assoc]
        rfl

/-! ## Link blocks

Each link of the scan gives one block. Its content and its target are spans of the node, and their
texts are those of the construct.
-/

/-- The block is the link of a construct whose bracket stands at an offset. -/
structure IsLinkBlock (b : Block) (l : LinkParts) (offset : Nat) : Prop where
  kind : b.kind = .link
  content : b.content = some ⟨offset + 1, offset + 1 + byteSize l.text⟩
  target : b.target =
    some ⟨offset + byteSize l.bare.head, offset + byteSize l.bare.head + byteSize l.target⟩
  contentText : b.contentText = String.ofList l.text
  targetText : b.targetText? = some (String.ofList l.target)
  tag : b.tag = some (String.ofList l.target)

/-- The text and the target of a link block are what stands at the spans of the node. -/
theorem exists_linkBlock {full text target : Span} {image : Bool}
    (h : Inline.link full text target image ∈ parseInline base cs) :
    ∃ b ∈ linkBlocks base cs, b.kind = .link ∧ b.content = some text ∧ b.target = some target ∧
      b.contentText = String.ofList (partAt base cs text) ∧
      b.targetText? = some (String.ofList (partAt base cs target)) ∧
      b.tag = some (String.ofList (partAt base cs target)) := by
  obtain ⟨before, m, after, rfl, -, -, hnode⟩ := exists_of_delimiters h (List.cons_ne_nil _ _)
  obtain ⟨b, hb, hkind, -, -, hcontentText, htargetText, htag⟩ :=
    linkBlock?_node base before after m
  rw [← hnode, List.append_assoc] at hb
  obtain ⟨-, htext, htarget, -⟩ := Inline.link.inj hnode
  have htextPart := partAt_linkText base before after m
  have htargetPart := partAt_linkTarget base before after m
  rw [← htext] at htextPart
  rw [← htarget] at htargetPart
  rw [htextPart, htargetPart]
  refine ⟨b, List.mem_filterMap.mpr ⟨_, h, hb⟩, hkind, ?_, ?_, hcontentText, htargetText, htag⟩
  · rw [← Option.some.inj hb]
    rfl
  · rw [← Option.some.inj hb]
    rfl

/-- The link of a bracket is a block exactly when it is a node. -/
theorem exists_isLinkBlock_iff_hasLinkAt (base : Nat) (before after : List Char) (l : LinkParts) :
    (∃ b ∈ linkBlocks base (before ++ (l.bare.source ++ after)),
        IsLinkBlock b l (base + byteSize before)) ↔
      HasLinkAt (parseInline base (before ++ (l.bare.source ++ after))) l
        (base + byteSize before) := by
  constructor
  · rintro ⟨b, hb, hlink⟩
    obtain ⟨n, hn, hblock⟩ := List.mem_filterMap.mp hb
    unfold linkBlock? at hblock
    split at hblock
    · next full text target image =>
      obtain rfl := Option.some.inj hblock
      obtain rfl := Option.some.inj hlink.content
      obtain rfl := Option.some.inj hlink.target
      exact ⟨full, image, hn⟩
    · cases hblock
  · rintro ⟨full, image, hnode⟩
    obtain ⟨b, hb, hkind, hcontent, htarget, hcontentText, htargetText, htag⟩ :=
      exists_linkBlock hnode
    have htextPart := partAt_linkText base before after l.bare
    have htargetPart := partAt_linkTarget base before after l.bare
    refine ⟨b, hb, hkind, hcontent, htarget, ?_, ?_, ?_⟩
    · rw [hcontentText]
      exact congrArg String.ofList htextPart
    · rw [htargetText]
      exact congrArg (fun part => some (String.ofList part)) htargetPart
    · rw [htag]
      exact congrArg (fun part => some (String.ofList part)) htargetPart

end ArticleAudit.Markdown
