import ArticleAudit.Markdown.Link
import ArticleAudit.Proofs.Block.Nesting
import ArticleAudit.Proofs.Text.Runs

/-!
# Where links stand

A construct that the inline scan recognizes is an initial part of the text it was read from
(`constructAt?_eq_some`), so the scan's nodes follow one another and every link is cut out
of the scanned text. So the blocks of the links of a text are laid out over it, and end before the
blanks at its end (`laid_linkBlocks`).
-/

set_option autoImplicit false

namespace ArticleAudit.Markdown

open ArticleAudit.Text

variable {source cs : List Char}

/-! ## Constructs are initial parts -/

theorem byteSize_ticks (n : Nat) : byteSize (List.replicate n tick) = n := by
  rw [byteSize_eq_length]
  · simp
  · intro c hc
    obtain rfl := List.eq_of_mem_replicate hc
    rfl

/-- A run of ticks and what follows it. -/
theorem ticks_append_drop (cs : List Char) :
    List.replicate (cs.takeWhile (· == tick)).length tick ++
      cs.drop (cs.takeWhile (· == tick)).length = cs := by
  have hrun := takeWhile_eq_replicate tick cs
  obtain ⟨after, hafter⟩ := List.takeWhile_prefix (l := cs) (· == tick)
  generalize cs.takeWhile (· == tick) = run at *
  rw [← hrun, ← hafter, List.drop_left]

/-- The inner text of a code span is followed by the closing run. -/
theorem exists_append_of_codeInner? {run : Nat} {inner : List Char}
    (h : codeInner? run cs = some inner) :
    ∃ after, cs = inner ++ List.replicate run tick ++ after := by
  fun_induction codeInner? run cs generalizing inner with
  | case1 => simp at h
  | case2 c rest hc =>
    rename_i hrun
    obtain rfl : [] = inner := by simpa using h
    obtain rfl : c = tick := by simpa using hc
    have hlen : (rest.takeWhile (· == tick)).length + 1 = run := by simpa using hrun
    refine ⟨rest.drop (rest.takeWhile (· == tick)).length, ?_⟩
    conv_lhs => rw [← ticks_append_drop rest]
    rw [← hlen, List.replicate_succ]
    rfl
  | case3 c rest hc =>
    rename_i ih
    obtain ⟨inner', hinner', rfl⟩ := Option.map_eq_some_iff.mp h
    obtain rfl : c = tick := by simpa using hc
    obtain ⟨after, hafter⟩ := ih hinner'
    refine ⟨after, ?_⟩
    show tick :: rest = List.replicate ((rest.takeWhile (· == tick)).length + 1) tick ++ inner' ++
      List.replicate run tick ++ after
    conv_lhs => rw [← ticks_append_drop rest]
    rw [hafter, List.replicate_succ]
    simp
  | case4 c rest hc ih =>
    obtain ⟨inner', hinner', rfl⟩ := Option.map_eq_some_iff.mp h
    obtain ⟨after, rfl⟩ := ih hinner'
    exact ⟨after, by simp⟩

theorem exists_append_of_codeAt? {construct : Construct} (h : codeAt? cs = some construct) :
    ∃ run inner after, construct = .code run inner ∧ 0 < run ∧
      cs = construct.source ++ after := by
  simp only [codeAt?] at h
  split at h
  · simp at h
  · next hrun =>
    obtain ⟨inner, hinner, rfl⟩ := Option.map_eq_some_iff.mp h
    obtain ⟨after, hafter⟩ := exists_append_of_codeInner? hinner
    refine ⟨_, inner, after, rfl, ?_, ?_⟩
    · have : (cs.takeWhile (· == tick)).length ≠ 0 := by simpa using hrun
      omega
    · conv_lhs => rw [← List.takeWhile_append_dropWhile (p := (· == tick)) (l := cs), hafter,
        takeWhile_eq_replicate]
      simp [Construct.source]

/-- A reader that puts characters in front of what it reads from the rest. -/
theorem isPrefix_of_map {found : Option (List Char)} {rest text : List Char}
    (front : List Char) (ih : ∀ {read}, found = some read → read <+: rest)
    (h : found.map (front ++ ·) = some text) : text <+: front ++ rest := by
  obtain ⟨read, hread, rfl⟩ := Option.map_eq_some_iff.mp h
  exact (List.prefix_append_right_inj front).mpr (ih hread)

theorem linkText?_isPrefix {depth : Nat} {text : List Char} (h : linkText? depth cs = some text) :
    text <+: cs := by
  fun_induction linkText? depth cs generalizing text with
  | case1 => simp at h
  | case2 => simp at h
  | case3 depth c rest ih => exact isPrefix_of_map ['\\', c] ih h
  | case4 depth rest ih => exact isPrefix_of_map ['['] ih h
  | case5 rest =>
    obtain rfl : [] = text := by simpa using h
    exact List.nil_prefix
  | case6 rest depth ih => exact isPrefix_of_map [']'] ih h
  | case7 depth c rest _ _ _ _ ih => exact isPrefix_of_map [c] ih h

theorem linkTarget?_isPrefix {depth : Nat} {target : List Char}
    (h : linkTarget? depth cs = some target) : target <+: cs := by
  fun_induction linkTarget? depth cs generalizing target with
  | case1 => simp at h
  | case2 => simp at h
  | case3 | case4 | case6 =>
    obtain rfl : [] = target := by simpa using h
    exact List.nil_prefix
  | case5 depth rest ih => exact isPrefix_of_map ['('] ih h
  | case7 rest depth ih => exact isPrefix_of_map [')'] ih h
  | case8 depth c rest _ _ _ _ _ ih => exact isPrefix_of_map [c] ih h

/-- The end of a link: an initial part that ends in the closing parenthesis. -/
theorem linkClose?_isPrefix {tail : List Char} (h : linkClose? cs = some tail) :
    tail <+: cs ∧ ∃ init, tail = init ++ [')'] := by
  unfold linkClose? at h
  split at h
  · next rest hrest =>
    obtain rfl := Option.some.inj h
    refine ⟨⟨rest, ?_⟩, _, rfl⟩
    have hsplit := List.takeWhile_append_dropWhile (p := isIndent) (l := cs)
    rw [hrest] at hsplit
    conv_rhs => rw [← hsplit]
    simp
  · simp at h

theorem linkTitle?_isPrefix {title : List Char} (h : linkTitle? cs = some title) :
    title <+: cs := by
  unfold linkTitle? at h
  split at h
  · simp at h
  · next quote rest =>
    split at h
    · simp only at h
      split at h
      · next hquote =>
        obtain rfl := Option.some.inj h
        refine (List.prefix_append_right_inj [quote]).mpr ?_
        have hfirst := List.takeWhile_prefix (l := rest) fun c => c != quote && c != '\n'
        generalize List.takeWhile (fun c => c != quote && c != '\n') rest = inner at *
        obtain ⟨after, rfl⟩ := hfirst
        have hhead : after.head? = some quote := by simpa using hquote
        obtain ⟨after', rfl⟩ := List.head?_eq_some_iff.mp hhead
        exact ⟨after', by simp⟩
      · simp at h
    · simp at h

theorem linkTail?_isPrefix {tail : List Char} (h : linkTail? cs = some tail) :
    tail <+: cs ∧ ∃ init, tail = init ++ [')'] := by
  unfold linkTail? at h
  simp only at h
  split at h
  · obtain ⟨title, htitle, hrest⟩ := Option.bind_eq_some_iff.mp h
    obtain ⟨close, hclose, rfl⟩ := Option.map_eq_some_iff.mp hrest
    obtain ⟨after, hafter⟩ := linkTitle?_isPrefix htitle
    rw [← hafter, List.drop_left] at hclose
    obtain ⟨⟨after', rfl⟩, init, rfl⟩ := linkClose?_isPrefix hclose
    refine ⟨⟨after', ?_⟩, cs.takeWhile isIndent ++ title ++ init, by simp⟩
    conv_rhs => rw [← List.takeWhile_append_dropWhile (p := isIndent) (l := cs), ← hafter]
    simp
  · exact linkClose?_isPrefix h

theorem linkParts?_eq_some {image : Bool} {parts : LinkParts}
    (h : linkParts? image cs = some parts) :
    parts.image = image ∧ (∃ init, parts.tail = init ++ [')']) ∧
      ∃ after, cs = parts.text ++ [']', '('] ++ parts.spaces ++ parts.target ++ parts.tail ++
        after := by
  unfold linkParts? at h
  obtain ⟨text, htext, hrest⟩ := Option.bind_eq_some_iff.mp h
  obtain ⟨afterText, rfl⟩ := linkText?_isPrefix htext
  rw [List.drop_left] at hrest
  split at hrest
  · next rest =>
    obtain ⟨target, htarget, hrest⟩ := Option.bind_eq_some_iff.mp hrest
    obtain ⟨tail, htail, hrest⟩ := Option.bind_eq_some_iff.mp hrest
    obtain rfl := Option.some.inj hrest
    obtain ⟨afterTarget, hbody⟩ := linkTarget?_isPrefix htarget
    rw [← hbody, List.drop_left] at htail
    obtain ⟨⟨after, rfl⟩, hlast⟩ := linkTail?_isPrefix htail
    refine ⟨rfl, hlast, after, ?_⟩
    have hsplit := List.takeWhile_append_dropWhile (p := (· == ' ')) (l := rest)
    rw [← hbody] at hsplit
    conv_lhs => rw [← hsplit]
    simp
  · simp at hrest

/-- A link is an initial part of the text it is read from, and ends in a parenthesis. -/
theorem linkAt?_eq_some {parts : LinkParts} (h : linkAt? cs = some parts) :
    (∃ init, parts.tail = init ++ [')']) ∧ ∃ after, cs = parts.source ++ after := by
  unfold linkAt? at h
  split at h
  · next rest =>
    obtain ⟨himage, hlast, after, rfl⟩ := linkParts?_eq_some h
    exact ⟨hlast, after, by simp [LinkParts.source, LinkParts.head, LinkParts.opening, himage]⟩
  · next rest =>
    obtain ⟨himage, hlast, after, rfl⟩ := linkParts?_eq_some h
    exact ⟨hlast, after, by simp [LinkParts.source, LinkParts.head, LinkParts.opening, himage]⟩
  · simp at h

/-- A construct is a code span or a link. -/
theorem constructAt?_cases {construct : Construct} (h : constructAt? cs = some construct) :
    codeAt? cs = some construct ∨ ∃ parts, linkAt? cs = some parts ∧ construct = .link parts := by
  unfold constructAt? at h
  cases hcode : codeAt? cs with
  | some code =>
    rw [hcode] at h
    exact Or.inl h
  | none =>
    rw [hcode] at h
    obtain ⟨parts, hparts, rfl⟩ := Option.map_eq_some_iff.mp h
    exact Or.inr ⟨parts, hparts, rfl⟩

/-- A construct is an initial part of the text it is read from. -/
theorem constructAt?_eq_some {construct : Construct} (h : constructAt? cs = some construct) :
    construct.source ≠ [] ∧ ∃ after, cs = construct.source ++ after := by
  rcases constructAt?_cases h with hcode | ⟨parts, hparts, rfl⟩
  · obtain ⟨run, inner, after, rfl, hrun, hcs⟩ := exists_append_of_codeAt? hcode
    refine ⟨?_, after, hcs⟩
    simp only [Construct.source, ne_eq, List.append_eq_nil_iff, List.replicate_eq_nil_iff]
    omega
  · obtain ⟨⟨init, htail⟩, after, hcs⟩ := linkAt?_eq_some hparts
    refine ⟨?_, after, hcs⟩
    simp [Construct.source, LinkParts.source, htail]

theorem constructAt?_eq_some_link {parts : LinkParts} (h : constructAt? cs = some (.link parts)) :
    ∃ init, parts.tail = init ++ [')'] := by
  rcases constructAt?_cases h with hcode | ⟨parts', hparts, heq⟩
  · obtain ⟨run, inner, after, heq, -⟩ := exists_append_of_codeAt? hcode
    cases heq
  · cases heq
    exact (linkAt?_eq_some hparts).1

/-- The node of a construct spans what is written. -/
theorem full_node (construct : Construct) (position : Nat) :
    (construct.node position).full = ⟨position, position + byteSize construct.source⟩ := by
  cases construct with
  | code run inner =>
    simp only [Construct.node, Inline.full, Construct.source, byteSize_append, byteSize_ticks,
      Span.mk.injEq, true_and]
    omega
  | link parts => rfl

/-! ## The scan -/

/-- What a scan yields from `start` on: nodes in order, and links that are written in the scanned
text, which stands at `base`. -/
structure Scanned (base : Nat) (whole : List Char) (start : Nat) (nodes : List Inline) : Prop where
  start_le : ∀ node ∈ nodes, start ≤ node.full.start
  inOrder : nodes.Pairwise fun a b => a.full.stop ≤ b.full.start
  links : ∀ full text target image, Inline.link full text target image ∈ nodes →
    ∃ (before : List Char) (parts : LinkParts) (after : List Char),
      whole = before ++ parts.source ++ after ∧ (∃ init, parts.tail = init ++ [')']) ∧
      Inline.link full text target image = parts.node (base + byteSize before)

namespace Scanned

variable {base start stop : Nat} {whole : List Char} {nodes : List Inline}

theorem nil : Scanned base whole start [] :=
  ⟨by simp, List.Pairwise.nil, by simp⟩

/-- Plain text in front of nodes. -/
theorem plain (h : Scanned base whole stop nodes) (hle : start ≤ stop) :
    Scanned base whole start (plainText start stop ++ nodes) := by
  unfold plainText
  split
  · refine ⟨?_, ?_, ?_⟩
    · intro node hnode
      rcases List.mem_cons.mp hnode with rfl | hnode
      · exact Nat.le_refl start
      · exact hle.trans (h.start_le node hnode)
    · exact List.pairwise_cons.mpr ⟨fun node hnode => h.start_le node hnode, h.inOrder⟩
    · intro full text target image hlink
      rcases List.mem_cons.mp hlink with hlink | hlink
      · cases hlink
      · exact h.links full text target image hlink
  · exact ⟨fun node hnode => hle.trans (h.start_le node hnode), h.inOrder, h.links⟩

/-- A construct in front of nodes. -/
theorem construct {done after : List Char} {found : Construct}
    (h : Scanned base whole (base + byteSize done + byteSize found.source) nodes)
    (hwhole : whole = done ++ found.source ++ after)
    (hfound : ∀ parts, found = .link parts → ∃ init, parts.tail = init ++ [')']) :
    Scanned base whole (base + byteSize done) (found.node (base + byteSize done) :: nodes) := by
  have hfull := full_node found (base + byteSize done)
  refine ⟨?_, ?_, ?_⟩
  · intro node hnode
    rcases List.mem_cons.mp hnode with rfl | hnode
    · rw [hfull]
    · exact (Nat.le_add_right _ _).trans (h.start_le node hnode)
  · refine List.pairwise_cons.mpr ⟨fun node hnode => ?_, h.inOrder⟩
    rw [hfull]
    exact h.start_le node hnode
  · intro full text target image hlink
    rcases List.mem_cons.mp hlink with hlink | hlink
    · cases found with
      | code run inner => cases hlink
      | link parts => exact ⟨done, parts, after, hwhole, hfound parts rfl, hlink⟩
    · exact h.links full text target image hlink

end Scanned

theorem scanned_scanInline {base start position : Nat} {whole : List Char} (done : List Char)
    (hwhole : whole = done ++ cs) (hposition : position = base + byteSize done)
    (hstart : start ≤ position) :
    Scanned base whole start (scanInline constructAt? start position cs) := by
  fun_induction scanInline constructAt? start position cs generalizing done with
  | case1 start position => simpa using Scanned.nil.plain hstart
  | case2 start position =>
    have hnil : Scanned base whole (position + 1) [] := .nil
    simpa using hnil.plain (hstart.trans (Nat.le_succ position))
  | case3 start position c rest ih =>
    refine ih (done ++ ['\\', c]) (by simp [hwhole]) ?_ (by omega)
    have hslash : Char.utf8Size '\\' = 1 := rfl
    simp only [byteSize_append, byteSize_cons, byteSize_nil, hslash]
    omega
  | case4 start position c rest _ _ construct hread =>
    rename_i stop ih
    obtain ⟨hne, after, hafter⟩ := constructAt?_eq_some hread
    have hrest : rest.drop (construct.source.length - 1) = after :=
      drop_of_cons_eq_append hafter hne
    have hstop : stop = base + byteSize done + byteSize construct.source := by
      show (construct.node position).full.stop = _
      rw [full_node, hposition]
    have hwhole' : whole = done ++ construct.source ++ after := by
      rw [hwhole, hafter, List.append_assoc]
    clear_value stop
    rw [hrest] at ih ⊢
    have hnodes := ih _ hwhole' (by rw [hstop, byteSize_append, Nat.add_assoc]) (Nat.le_refl stop)
    rw [hstop] at hnodes ⊢
    have hscan := hnodes.construct hwhole' fun parts hparts =>
      constructAt?_eq_some_link (hparts ▸ hread)
    rw [← hposition] at hscan ⊢
    exact hscan.plain hstart
  | case5 start position c rest _ _ hread ih =>
    refine ih (done ++ [c]) (by simp [hwhole]) ?_ (by omega)
    simp only [byteSize_append, byteSize_cons, byteSize_nil]
    omega

/-! ## Link blocks -/

/-- The text of a part of a text that stands in the source. -/
theorem partAt_eq {base : Nat} {before part after : List Char} :
    partAt base (before ++ part ++ after)
      ⟨base + byteSize before, base + byteSize before + byteSize part⟩ = part := by
  have hstart : base + byteSize before - base = byteSize before := by omega
  have hstop : base + byteSize before + byteSize part - base =
      byteSize before + byteSize part := by omega
  unfold partAt
  rw [hstart, hstop]
  rw [slice, slice?_append]
  rfl

/-- The block of a link is laid out where the link is written. -/
theorem laid_linkBlock {base : Nat} {before after : List Char} {parts : LinkParts} {b : Block}
    (h : Stands source base cs) (hcs : cs = before ++ parts.source ++ after)
    (hb : linkBlock? base cs (parts.node (base + byteSize before)) = some b) :
    Block.Laid source (base + byteSize before) (base + byteSize before + byteSize parts.source)
      [b] := by
  obtain rfl := Option.some.inj hb
  have hfull : Stands source (base + byteSize before) parts.source := by
    rw [hcs] at h
    exact h.middle
  have htext : Stands source (base + byteSize before + byteSize parts.opening) parts.text := by
    have hparts : parts.source = parts.opening ++ parts.text ++
        ([']', '('] ++ parts.spaces ++ parts.target ++ parts.tail) := by
      simp [LinkParts.source, LinkParts.head]
    rw [hparts] at hfull
    exact hfull.middle
  have htarget : Stands source (base + byteSize before + byteSize parts.head) parts.target :=
    hfull.middle
  have hsize : byteSize parts.source = byteSize parts.head + byteSize parts.target +
      byteSize parts.tail := by
    simp only [LinkParts.source, byteSize_append]
  have hhead : byteSize parts.opening + byteSize parts.text ≤ byteSize parts.head := by
    simp only [LinkParts.head, byteSize_append]
    omega
  refine .singleton rfl ?_ hfull.boundary hfull.boundary_stop (Nat.le_add_right _ _)
    (.nil _ _ _) (Block.innerFits_of_within (Block.not_overhangs nofun nofun) ?_ ?_) rfl
  · show String.ofList (partAt base cs ⟨_, _⟩) = _
    rw [hfull.slice, hcs, partAt_eq]
  · intro s hs
    obtain rfl := Option.some.inj hs
    refine ⟨⟨_, htext.slice?⟩, Nat.le_add_right _ _, ?_⟩
    show base + byteSize before + byteSize parts.opening + byteSize parts.text ≤
      base + byteSize before + byteSize parts.source
    omega
  · intro s hs
    obtain rfl := Option.some.inj hs
    refine ⟨⟨_, htarget.slice?⟩, Nat.le_add_right _ _, ?_⟩
    show base + byteSize before + byteSize parts.head + byteSize parts.target ≤
      base + byteSize before + byteSize parts.source
    omega

/-- The links of a text are laid out over it, up to any offset that its characters stop by which
are not blank. -/
theorem laid_linkBlocks {base hi : Nat} (h : Stands source base cs)
    (hink : InkStopsBy base cs hi) : Block.Laid source base hi (linkBlocks base cs) := by
  have hscan : Scanned base cs base (parseInline base cs) :=
    scanned_scanInline [] rfl rfl (Nat.le_refl base)
  have hblock : ∀ node ∈ parseInline base cs, ∀ b, linkBlock? base cs node = some b →
      b.span = node.full ∧ Block.Laid source base hi [b] := by
    intro node hnode b hb
    cases node with
    | text full => cases hb
    | codeSpan full inner => cases hb
    | link full text target image =>
      obtain ⟨before, parts, after, hcs, ⟨init, htail⟩, hparts⟩ :=
        hscan.links full text target image hnode
      have hspan : b.span = full := by
        obtain rfl := Option.some.inj hb
        rfl
      rw [hparts] at hb
      refine ⟨hspan, (laid_linkBlock h hcs hb).weaken (Nat.le_add_right _ _) ?_⟩
      -- The link ends in a parenthesis, which is not blank.
      have hlast : parts.source.getLast? = some ')' := by
        simp [LinkParts.source, htail]
      rw [hcs] at hink
      exact hink.part_le hlast rfl
  refine ⟨Block.throughout_of_mem ?_, ?_, ?_⟩
  · intro b hb
    obtain ⟨node, hnode, hb⟩ := List.mem_filterMap.mp hb
    exact (hblock node hnode b hb).2.sound.of_mem (List.mem_singleton_self b)
  · refine List.pairwise_filterMap.mpr (hscan.inOrder.imp_of_mem ?_)
    intro x y hx hy hxy b hb b' hb'
    rw [(hblock x hx b hb).1, (hblock y hy b' hb').1]
    exact hxy
  · intro b hb
    obtain ⟨node, hnode, hb⟩ := List.mem_filterMap.mp hb
    exact (hblock node hnode b hb).2.within b (List.mem_singleton_self b)

/-- The links of a slice are laid out over it. -/
theorem laid_linkBlocks_slice {m n : Nat} (hm : Boundary source m) (hn : Boundary source n)
    (hle : m ≤ n) : Block.Laid source m n (linkBlocks m (slice source ⟨m, n⟩)) := by
  obtain ⟨hstands, hstop⟩ := slice?_eq_some_iff.mp (hm.slice?_eq hn hle)
  exact laid_linkBlocks hstands (.of_byteSize_le hstop.ge)

end ArticleAudit.Markdown
