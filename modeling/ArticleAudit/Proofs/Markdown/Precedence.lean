import ArticleAudit.Proofs.Markdown.LinkNodes
import ArticleAudit.Proofs.Markdown.TickRuns
import ArticleAudit.Proofs.Markdown.Tiling

/-!
# Code before links

Code goes before a link where both are tried, at the places that the scan comes to. Inside a link
the scan does not look for code: the text and the target are read to their ends whatever ticks they
hold. The measure is the scan that recognizes no links (`IsRaw`). A link holds when this scan,
started with the link, finds no code that starts within the link and covers one of its delimiters.
Where all links hold both scans stay in step (`Reaches.in_step`), for a link is parted only by code
that runs over its closing parenthesis (`reaches_stop_or_raw`). So no delimiter of a link lies in
code exactly when every link holds for itself (`parseInline_codeFirst`), and then the code without
links is the code of the scan and what stands within its links (`CodeFirst.codeSpan_or_within`).
-/

set_option autoImplicit false

namespace ArticleAudit.Markdown

open ArticleAudit.Text

variable {base : Nat} {cs before part rest : List Char} {l : LinkParts} {n : Inline} {s : Span}

/-! ## Delimiters and raw code -/

/-- The byte at an offset lies in the span. -/
def HoldsByte (s : Span) (offset : Nat) : Prop :=
  s.start ≤ offset ∧ offset < s.stop

/-- Where the delimiters of a link stand: the bracket before its text, the bracket and the
parenthesis after it, and the parenthesis at the end. -/
def Inline.delimiters : Inline → List Nat
  | .link full label _ _ => [label.start - 1, label.stop, label.stop + 1, full.stop - 1]
  | _ => []

/-- A code span of the scan that recognizes no links. -/
def IsRaw (base : Nat) (cs : List Char) (s : Span) : Prop :=
  ∃ inner, Inline.codeSpan s inner ∈ scanInline codeAt? base base cs

/-- No delimiter of a link lies in code. -/
def CodeFirst (base : Nat) (cs : List Char) : Prop :=
  ∀ n ∈ parseInline base cs, ∀ s, IsRaw base cs s → ∀ d ∈ n.delimiters, ¬ HoldsByte s d

/-- For every link, the scan without links from the start of the link on finds no code that starts
within the link and covers one of its delimiters. -/
def LinksHold (base : Nat) (cs : List Char) : Prop :=
  ∀ before l after, cs = before ++ (l.source ++ after) →
    Reaches constructAt? before (l.source ++ after) → linkAt? (l.source ++ after) = some l →
    ∀ s, IsRaw (base + byteSize before) (l.source ++ after) s →
      s.start < base + byteSize before + byteSize l.source →
      ∀ d ∈ (l.node (base + byteSize before)).delimiters, ¬ HoldsByte s d

/-- The delimiters of a link are the brackets and parentheses it is written with. -/
theorem exists_of_mem_delimiters {position d : Nat} (hl : linkAt? cs = some l)
    (h : d ∈ (l.node position).delimiters) :
    ∃ front c back, l.source = front ++ c :: back ∧ d = position + byteSize front ∧
      c ∈ ['[', ']', '(', ')'] := by
  obtain ⟨bang, hopening⟩ : ∃ bang, l.opening = bang ++ ['['] := by
    unfold LinkParts.opening
    split
    · exact ⟨['!'], rfl⟩
    · exact ⟨[], rfl⟩
  obtain ⟨init, htail⟩ := (linkAt?_eq_some hl).1
  have hone : byteSize ['['] = 1 := rfl
  have hclose : byteSize [']'] = 1 := rfl
  have hend : byteSize [')'] = 1 := rfl
  simp only [Inline.delimiters, LinkParts.node, List.mem_cons, List.not_mem_nil, or_false] at h
  rcases h with rfl | rfl | rfl | rfl
  · refine ⟨bang, '[', l.text ++ [']', '('] ++ l.spaces ++ l.target ++ l.tail, ?_, ?_, by simp⟩
    · simp [LinkParts.source, LinkParts.head, hopening]
    · rw [hopening, byteSize_append, hone]
      omega
  · refine ⟨l.opening ++ l.text, ']', '(' :: l.spaces ++ l.target ++ l.tail, ?_, ?_, by simp⟩
    · simp [LinkParts.source, LinkParts.head]
    · rw [byteSize_append, Nat.add_assoc]
  · refine ⟨l.opening ++ l.text ++ [']'], '(', l.spaces ++ l.target ++ l.tail, ?_, ?_, by simp⟩
    · simp [LinkParts.source, LinkParts.head]
    · rw [byteSize_append, byteSize_append, hclose]
      omega
  · refine ⟨l.head ++ l.target ++ init, ')', [], ?_, ?_, by simp⟩
    · simp [LinkParts.source, htail]
    · rw [LinkParts.source, htail, ← List.append_assoc, byteSize_append, hend]
      omega

theorem stop_mem_delimiters (l : LinkParts) (position : Nat) :
    position + byteSize l.source - 1 ∈ (l.node position).delimiters := by
  simp [Inline.delimiters, LinkParts.node]

/-- The delimiters of a link lie in it. -/
theorem bounds_of_mem_delimiters {position d : Nat} (hl : linkAt? cs = some l)
    (h : d ∈ (l.node position).delimiters) :
    position ≤ d ∧ d < position + byteSize l.source := by
  obtain ⟨front, c, back, hsource, rfl, -⟩ := exists_of_mem_delimiters hl h
  have hc : 0 < c.utf8Size := c.utf8Size_pos
  rw [hsource, byteSize_append, byteSize_cons]
  omega

/-- Raw code is read at a place of the scan that recognizes no links. -/
theorem IsRaw.exists_place (h : IsRaw base cs s) :
    ∃ before part rest found, cs = before ++ (part ++ rest) ∧
      Reaches codeAt? before (part ++ rest) ∧ codeAt? (part ++ rest) = some found ∧
      found.source = part ∧
      s = ⟨base + byteSize before, base + byteSize before + byteSize part⟩ := by
  obtain ⟨inner, hmem⟩ := h
  obtain ⟨before, rest, found, rfl, hreaches, hread, hnode⟩ :=
    exists_of_mem_scanInline recognizes_codeAt? (fun s hs => by cases hs) hmem
  obtain ⟨-, after, rfl⟩ := recognizes_codeAt?.initial hread
  refine ⟨before, found.source, after, found, rfl, hreaches, hread, rfl, ?_⟩
  rw [← full_node, ← hnode]
  rfl

/-- Code that is read at a place of the scan that recognizes no links is raw. -/
theorem Reaches.isRaw {found : Construct} (base : Nat) (h : Reaches codeAt? before rest)
    (hread : codeAt? rest = some found) :
    IsRaw base (before ++ rest)
      ⟨base + byteSize before, base + byteSize before + byteSize found.source⟩ := by
  have hmem := h.mem_scanInline recognizes_codeAt? hread base base
  obtain ⟨run, inner, -, rfl, -⟩ := exists_append_of_codeAt? hread
  rw [← full_node]
  exact ⟨_, hmem⟩

/-- From a place of the scan without links on, the raw code is that of the text that is left. -/
theorem isRaw_append_iff (h : Reaches codeAt? before rest) :
    IsRaw (base + byteSize before) rest s ↔
      IsRaw base (before ++ rest) s ∧ base + byteSize before ≤ s.start := by
  constructor
  · intro hraw
    obtain ⟨front, part, back, found, rfl, hfront, hread, rfl, rfl⟩ := hraw.exists_place
    have hglobal := (h.trans hfront).isRaw base hread
    rw [List.append_assoc, byteSize_append, ← Nat.add_assoc] at hglobal
    exact ⟨hglobal, Nat.le_add_right _ _⟩
  · rintro ⟨hraw, hstart⟩
    obtain ⟨front, part, back, found, hcs, hfront, hread, rfl, rfl⟩ := hraw.exists_place
    rcases hfront.outside recognizes_codeAt? (.construct hread rfl) h hcs.symm with
      ⟨mid, rfl⟩ | hbehind
    · rw [List.append_assoc] at hcs
      obtain rfl := List.append_cancel_left hcs
      have hlocal := (h.of_append recognizes_codeAt? hfront).isRaw (base + byteSize before) hread
      rw [Nat.add_assoc base, ← byteSize_append] at hlocal
      exact hlocal
    · -- Code that ends before the place does not start behind it.
      have hsize := byteSize_le_of_isPrefix hbehind
      have hpos := byteSize_pos_of_ne_nil (recognizes_codeAt?.initial hread).1
      rw [byteSize_append] at hsize
      simp only at hstart
      omega

/-- A node with delimiters is a link that is read at a place of the scan. -/
theorem exists_of_delimiters (hn : n ∈ parseInline base cs) (hd : n.delimiters ≠ []) :
    ∃ before l after, cs = before ++ (l.source ++ after) ∧
      Reaches constructAt? before (l.source ++ after) ∧ linkAt? (l.source ++ after) = some l ∧
      n = l.node (base + byteSize before) := by
  obtain ⟨before, rest, found, rfl, hreaches, hread, rfl⟩ :=
    exists_of_mem_scanInline recognizes_constructAt? (by rintro s rfl; exact hd rfl) hn
  cases found with
  | code run inner => exact absurd rfl hd
  | link l =>
    obtain ⟨-, after, rfl⟩ := recognizes_constructAt?.initial hread
    exact ⟨before, l, after, rfl, hreaches, constructAt?_eq_link_iff.mp hread, rfl⟩

/-! ## Both scans in step -/

/-- From the start of a link on the scan without links comes to the end of the link, or it finds
code that starts within the link and runs over its closing parenthesis. -/
theorem reaches_stop_or_raw {after : List Char} (position : Nat)
    (hl : linkAt? (l.source ++ after) = some l) :
    Reaches codeAt? l.source after ∨
      ∃ s, IsRaw position (l.source ++ after) s ∧ s.start < position + byteSize l.source ∧
        ∃ d ∈ (l.node position).delimiters, HoldsByte s d := by
  -- Otherwise a step takes characters from both sides of the end of the link.
  rcases Reaches.or_cut recognizes_codeAt? l.source after with hstop |
    ⟨front, left, right, back, hcut, rfl, hleft, hright, hfront, htake⟩
  · exact Or.inl hstop
  have hslash : left ≠ ['\\'] := by
    rintro rfl
    obtain ⟨init, htail⟩ := (linkAt?_eq_some hl).1
    rw [LinkParts.source, htail, ← List.append_assoc] at hcut
    have hlast := (List.append_inj' hcut rfl).2
    cases hlast
  obtain ⟨found, hread, hsource⟩ := htake.exists_of_cut hleft hright hslash
  have hraw := hfront.isRaw position hread
  have hwhole : front ++ (left ++ right ++ back) = l.source ++ (right ++ back) := by
    rw [hcut]
    simp only [List.append_assoc]
  rw [hwhole, hsource, byteSize_append] at hraw
  have hsize := congrArg byteSize hcut
  have hpos := byteSize_pos_of_ne_nil hleft
  have hpos' := byteSize_pos_of_ne_nil hright
  rw [byteSize_append] at hsize
  refine Or.inr ⟨_, hraw, ?_, _, stop_mem_delimiters l position, ?_⟩
  · show position + byteSize front < position + byteSize l.source
    omega
  · show position + byteSize front ≤ position + byteSize l.source - 1 ∧
      position + byteSize l.source - 1 <
        position + byteSize front + (byteSize left + byteSize right)
    omega

/-- As long as the scan without links comes from the start of a link to its end, it comes to all
places of the scan. -/
theorem Reaches.in_step
    (hlinks : ∀ before l after, cs = before ++ (l.source ++ after) →
      Reaches constructAt? before (l.source ++ after) → linkAt? (l.source ++ after) = some l →
      Reaches codeAt? before (l.source ++ after) → Reaches codeAt? l.source after)
    (h : Reaches constructAt? before rest) (hcs : cs = before ++ rest) :
    Reaches codeAt? before rest := by
  induction h using Reaches.induction_last with
  | here rest => exact .here rest
  | step before part rest hbefore htake ih =>
    rw [List.append_assoc] at hcs
    have hreaches := ih hcs
    cases htake with
    | escape c => exact hreaches.snoc (.escape c rest)
    | lastEscape => exact hreaches.snoc .lastEscape
    | plain hc hnone => exact hreaches.snoc (.plain hc (codeAt?_eq_none hnone))
    | construct hread hpart =>
      -- Code is tried first in both scans; only a link can part them.
      rcases constructAt?_cases hread with hcode | ⟨l, hl, rfl⟩
      · exact hreaches.snoc (.construct hcode hpart)
      · subst hpart
        exact hreaches.trans (hlinks _ l rest hcs hbefore hl hreaches)

theorem LinksHold.reaches (hhold : LinksHold base cs) (h : Reaches constructAt? before rest)
    (hcs : cs = before ++ rest) : Reaches codeAt? before rest := by
  refine h.in_step (fun before l after hlink hplace hl _ => ?_) hcs
  rcases reaches_stop_or_raw (base + byteSize before) hl with
    hstop | ⟨s, hraw, hstart, d, hd, hbyte⟩
  · exact hstop
  · exact absurd hbyte (hhold before l after hlink hplace hl s hraw hstart d hd)

theorem CodeFirst.reaches (hfirst : CodeFirst base cs) (h : Reaches constructAt? before rest)
    (hcs : cs = before ++ rest) : Reaches codeAt? before rest := by
  refine h.in_step (fun before l after hlink hplace hl hreaches => ?_) hcs
  rcases reaches_stop_or_raw (base + byteSize before) hl with
    hstop | ⟨s, hraw, -, d, hd, hbyte⟩
  · exact hstop
  · subst hlink
    have hmem := hplace.mem_of_linkAt? hl base
    exact absurd hbyte (hfirst _ hmem s ((isRaw_append_iff hreaches).mp hraw).1 d hd)

/-- A step of the scan without links takes nothing from both sides of a place that it comes to. -/
theorem Reaches.not_takes_across {front left right back : List Char}
    (hfront : Reaches codeAt? front (left ++ right ++ back))
    (hplace : Reaches codeAt? (front ++ left) (right ++ back)) (hleft : left ≠ [])
    (hright : right ≠ []) : ¬ Takes codeAt? (left ++ right) back := by
  intro htake
  have hpos := List.length_pos_iff.mpr hleft
  have hpos' := List.length_pos_iff.mpr hright
  rcases hfront.outside recognizes_codeAt? htake hplace (by simp only [List.append_assoc]) with
    hle | hle
  · have hlength := hle.length_le
    rw [List.length_append] at hlength
    omega
  · have hlength := hle.length_le
    simp only [List.length_append] at hlength
    omega

/-- The other way round, the scan comes to a place of the scan without links unless it lies within a
link. -/
theorem CodeFirst.reaches_or_within (hfirst : CodeFirst base cs) (h : Reaches codeAt? before rest)
    (hcs : cs = before ++ rest) :
    Reaches constructAt? before rest ∨
      ∃ front l after, cs = front ++ (l.source ++ after) ∧
        Reaches constructAt? front (l.source ++ after) ∧ linkAt? (l.source ++ after) = some l ∧
        front <+: before ∧ before.length < (front ++ l.source).length := by
  rcases Reaches.or_cut recognizes_constructAt? before rest with hplace |
    ⟨front, left, right, back, rfl, rfl, hleft, hright, hfront, htake⟩
  · exact Or.inl hplace
  have hacross : ¬ Takes codeAt? (left ++ right) back :=
    (hfirst.reaches hfront (by rw [hcs]; simp only [List.append_assoc])).not_takes_across h hleft
      hright
  have hshort : (front ++ left).length < (front ++ (left ++ right)).length := by
    have hpos := List.length_pos_iff.mpr hright
    simp only [List.length_append]
    omega
  have hwhole : cs = front ++ (left ++ right ++ back) := by
    rw [hcs]
    simp only [List.append_assoc]
  generalize left ++ right = part at hfront htake hacross hshort hwhole
  cases htake with
  | escape c => exact absurd (.escape c back) hacross
  | lastEscape => exact absurd .lastEscape hacross
  | plain hc hnone => exact absurd (.plain hc (codeAt?_eq_none hnone)) hacross
  | construct hread hpart =>
    rcases constructAt?_cases hread with hcode | ⟨l, hl, rfl⟩
    · exact absurd (.construct hcode hpart) hacross
    · subst hpart
      exact Or.inr ⟨front, l, back, hwhole, hfront, hl, List.prefix_append _ _, hshort⟩

/-! ## Nodes at a byte -/

theorem Tiles.start_le {lo hi : Nat} {nodes : List Inline} (h : Tiles lo nodes hi) :
    ∀ n ∈ nodes, lo ≤ n.full.start := by
  induction nodes generalizing lo with
  | nil => nofun
  | cons first later ih =>
    obtain ⟨hstart, hlt, hlater⟩ := h
    intro n hn
    rcases List.mem_cons.mp hn with rfl | hn
    · exact hstart.ge
    · exact hlt.le.trans (ih hlater n hn)

/-- Every byte lies in one node only. -/
theorem Tiles.eq_of_holdsByte {lo hi d : Nat} {nodes : List Inline} {n' : Inline}
    (h : Tiles lo nodes hi) (hn : n ∈ nodes) (hn' : n' ∈ nodes) (hbyte : HoldsByte n.full d)
    (hbyte' : HoldsByte n'.full d) : n = n' := by
  induction nodes generalizing lo with
  | nil => cases hn
  | cons first later ih =>
    obtain ⟨-, -, hlater⟩ := h
    -- A byte of the first node stands before all later ones.
    have hfirst : ∀ m ∈ later, HoldsByte first.full d → ¬ HoldsByte m.full d := by
      intro m hm hlt hle
      have hstart := hlater.start_le m hm
      have hstop := hlt.2
      have hm := hle.1
      omega
    rcases List.mem_cons.mp hn with rfl | hmem <;> rcases List.mem_cons.mp hn' with rfl | hmem'
    · rfl
    · exact absurd hbyte' (hfirst _ hmem' hbyte)
    · exact absurd hbyte (hfirst _ hmem hbyte')
    · exact ih hlater hmem hmem'

theorem eq_of_holdsByte {d : Nat} {n' : Inline} (hn : n ∈ parseInline base cs)
    (hn' : n' ∈ parseInline base cs) (hbyte : HoldsByte n.full d)
    (hbyte' : HoldsByte n'.full d) : n = n' :=
  (parseInline_tiles base 0 cs).1.eq_of_holdsByte hn hn' hbyte hbyte'

/-! ## Precedence -/

/-- The delimiters of a node lie in it. -/
theorem holdsByte_of_mem_delimiters {d : Nat} (hn : n ∈ parseInline base cs)
    (hd : d ∈ n.delimiters) : HoldsByte n.full d := by
  obtain ⟨before, l, after, -, -, hl, rfl⟩ := exists_of_delimiters hn (List.ne_nil_of_mem hd)
  exact bounds_of_mem_delimiters hl hd

/-- No delimiter of a link lies in a code span of the same scan. -/
theorem not_holdsByte_of_codeSpan {full inner : Span} {d : Nat}
    (h : Inline.codeSpan full inner ∈ parseInline base cs) (hn : n ∈ parseInline base cs)
    (hd : d ∈ n.delimiters) : ¬ HoldsByte full d := by
  intro hcode
  -- The link holds the byte as well, and a code span has no delimiters.
  obtain rfl := eq_of_holdsByte h hn hcode (holdsByte_of_mem_delimiters hn hd)
  cases hd

/-- No delimiter of a link lies in code exactly when every link holds for itself. -/
theorem codeFirst_iff : CodeFirst base cs ↔ LinksHold base cs := by
  constructor
  · rintro hfirst before l after rfl hplace hl s hraw - d hd
    have hmem := hplace.mem_of_linkAt? hl base
    exact hfirst _ hmem s ((isRaw_append_iff (hfirst.reaches hplace rfl)).mp hraw).1 d hd
  · intro hhold n hn s hraw d hd hbyte
    obtain ⟨before, l, after, rfl, hplace, hl, rfl⟩ :=
      exists_of_delimiters hn (List.ne_nil_of_mem hd)
    obtain ⟨hle, hlt⟩ := bounds_of_mem_delimiters hl hd
    have hreaches := hhold.reaches hplace rfl
    -- Code from before the link ends before it, so this code starts with the link or later.
    have hstart : base + byteSize before ≤ s.start := by
      obtain ⟨front, part, back, found, hcs, hcode, hread, hpart, rfl⟩ := hraw.exists_place
      rcases hcode.outside recognizes_codeAt? (.construct hread hpart) hreaches hcs.symm with
        hbefore | hbehind
      · exact Nat.add_le_add_left (byteSize_le_of_isPrefix hbefore) base
      · have hsize := byteSize_le_of_isPrefix hbehind
        have hstop := hbyte.2
        rw [byteSize_append] at hsize
        simp only at hstop
        omega
    exact hhold before l after rfl hplace hl s ((isRaw_append_iff hreaches).mpr ⟨hraw, hstart⟩)
      (Nat.lt_of_le_of_lt hbyte.1 hlt) d hd hbyte

/-- When no delimiter of a link lies in code, the code spans of the scan are found without links as
well. -/
theorem CodeFirst.isRaw {full inner : Span} (hfirst : CodeFirst base cs)
    (h : Inline.codeSpan full inner ∈ parseInline base cs) :
    Inline.codeSpan full inner ∈ scanInline codeAt? base base cs := by
  obtain ⟨before, rest, found, rfl, hreaches, hread, hnode⟩ :=
    exists_of_mem_scanInline recognizes_constructAt? (fun s hs => by cases hs) h
  rw [hnode]
  rcases constructAt?_cases hread with hcode | ⟨l, hl, rfl⟩
  · exact (hfirst.reaches hreaches rfl).mem_scanInline recognizes_codeAt? hcode _ _
  · cases hnode

/-- When no delimiter of a link lies in code, all code that is found without links is a code span of
the scan or stands within a link. -/
theorem CodeFirst.codeSpan_or_within (hfirst : CodeFirst base cs) (hraw : IsRaw base cs s) :
    (∃ inner, Inline.codeSpan s inner ∈ parseInline base cs) ∨
      ∃ n ∈ parseInline base cs, n.delimiters ≠ [] ∧ n.full.contains s = true := by
  obtain ⟨before, part, rest, found, rfl, hcode, hread, hpart, rfl⟩ := hraw.exists_place
  rcases hfirst.reaches_or_within hcode rfl with hplace |
    ⟨front, l, after, hcs, hfront, hl, hstart, hlt⟩
  · have hfound : constructAt? (part ++ rest) = some found := by
      rw [constructAt?, hread]
      rfl
    have hmem := hplace.mem_scanInline recognizes_constructAt? hfound base base
    obtain ⟨run, inner, -, rfl, -⟩ := exists_append_of_codeAt? hread
    subst hpart
    rw [← full_node]
    exact Or.inl ⟨_, hmem⟩
  · have hlink := constructAt?_eq_link_iff.mpr hl
    have hmem := hfront.mem_of_linkAt? hl base
    rw [← hcs] at hmem
    refine Or.inr ⟨_, hmem, List.cons_ne_nil _ _, Span.contains_iff.mpr ⟨?_, ?_⟩⟩
    · exact Nat.add_le_add_left (byteSize_le_of_isPrefix hstart) base
    · have hend := hfirst.reaches (hfront.snoc (.construct hlink rfl))
        (by rw [hcs, List.append_assoc])
      rcases hcode.outside recognizes_codeAt? (.construct hread hpart) hend
        (by rw [hcs, List.append_assoc]) with hle | hle
      · exact absurd hle.length_le (Nat.not_le.mpr hlt)
      · have hsize := byteSize_le_of_isPrefix hle
        simp only [byteSize_append] at hsize
        show base + byteSize before + byteSize part ≤ base + byteSize front + byteSize l.source
        omega

/-- No delimiter of a link lies in a code span of the same scan. Code that only the scan without
links finds may cover one: no delimiter of a link lies in such code either exactly when none lies in
code that starts within the link itself. The code found without links is then made up of the code
spans of the scan and of code within its links. -/
theorem parseInline_codeFirst (base : Nat) (cs : List Char) :
    (∀ full inner, Inline.codeSpan full inner ∈ parseInline base cs →
      ∀ n ∈ parseInline base cs, ∀ d ∈ n.delimiters, ¬ HoldsByte full d) ∧
    (CodeFirst base cs ↔ LinksHold base cs) ∧
    (CodeFirst base cs →
      (∀ full inner, Inline.codeSpan full inner ∈ parseInline base cs →
        Inline.codeSpan full inner ∈ scanInline codeAt? base base cs) ∧
      ∀ s, IsRaw base cs s → (∃ inner, Inline.codeSpan s inner ∈ parseInline base cs) ∨
        ∃ n ∈ parseInline base cs, n.delimiters ≠ [] ∧ n.full.contains s = true) := by
  refine ⟨?_, codeFirst_iff, fun hfirst => ⟨?_, ?_⟩⟩
  · intro full inner hcode n hn d hd
    exact not_holdsByte_of_codeSpan hcode hn hd
  · intro full inner hcode
    exact hfirst.isRaw hcode
  · intro s hraw
    exact hfirst.codeSpan_or_within hraw

/-- Code around a link, and a link behind it. -/
theorem parseInline_codeFirst_aroundLink : CodeFirst 0 "`[x](y)` and [z](w)".toList := by
  have hnodes : parseInline 0 "`[x](y)` and [z](w)".toList =
      [.codeSpan ⟨0, 8⟩ ⟨1, 7⟩, .text ⟨8, 13⟩, .link ⟨13, 19⟩ ⟨14, 15⟩ ⟨17, 18⟩ false] := by
    decide +kernel
  have hcode : scanInline codeAt? 13 13 "[z](w)".toList = [.text ⟨13, 19⟩] := by
    decide +kernel
  refine (parseInline_codeFirst 0 _).2.1.mpr fun before l after hcs hplace hl s hraw => ?_
  have hlink := hplace.mem_of_linkAt? hl 0
  rw [← hcs, hnodes] at hlink
  -- The only link starts at byte 13, and there is no tick from there on.
  have hstart : 0 + byteSize before = 13 := by
    simp only [LinkParts.node, List.mem_cons, List.not_mem_nil, or_false,
      reduceCtorEq, false_or, Inline.link.injEq, Span.mk.injEq] at hlink
    exact hlink.1.1
  have hsplit : before ++ (l.source ++ after) = "`[x](y)` and ".toList ++ "[z](w)".toList := by
    rw [← hcs]
    decide
  obtain ⟨-, hrest⟩ := append_inj_of_byteSize hsplit ((Nat.zero_add _).symm.trans hstart)
  rw [hstart, hrest] at hraw
  obtain ⟨inner, hraw⟩ := hraw
  rw [hcode] at hraw
  cases List.mem_singleton.mp hraw

/-- The code that starts with the tick in the text of this link runs to the tick behind the link. -/
theorem not_codeFirst_tickInLink : ¬ CodeFirst 0 "[`x](y)`".toList := by
  have hnodes : parseInline 0 "[`x](y)`".toList =
      [.link ⟨0, 7⟩ ⟨1, 3⟩ ⟨5, 6⟩ false, .text ⟨7, 8⟩] := by
    decide +kernel
  have hcode : scanInline codeAt? 0 0 "[`x](y)`".toList =
      [.text ⟨0, 1⟩, .codeSpan ⟨1, 8⟩ ⟨2, 7⟩] := by
    decide +kernel
  have hmem : Inline.link ⟨0, 7⟩ ⟨1, 3⟩ ⟨5, 6⟩ false ∈ parseInline 0 "[`x](y)`".toList := by
    rw [hnodes]
    exact List.mem_cons_self
  have hraw : IsRaw 0 "[`x](y)`".toList ⟨1, 8⟩ := by
    refine ⟨⟨2, 7⟩, ?_⟩
    rw [hcode]
    exact List.mem_cons_of_mem _ List.mem_cons_self
  intro hfirst
  exact hfirst _ hmem _ hraw 3 (by decide) ⟨by decide, by decide⟩

end ArticleAudit.Markdown
