import ArticleAudit.Proofs.Markdown.Scanning
import Mathlib.Data.List.Chain

/-!
# Inline nodes tile their text

The nodes of an inline text follow one another from its first byte to its last one without a gap
and without an overlap, none is empty, and plain text stands between constructs only. Every span of
a node cuts out a part of the text, so it stops on character boundaries, and the inner spans of a
code span or a link lie within it in the order in which they are written. Where the text stands in
the document moves the nodes and changes nothing else (`parseInline_tiles`).
-/

set_option autoImplicit false

namespace ArticleAudit.Markdown

open ArticleAudit.Text

variable {read : List Char → Option Construct} {base : Nat} {whole part rest : List Char}

/-! ## Nodes over a text -/

/-- The node is plain text. -/
def Inline.isText : Inline → Bool
  | .text _ => true
  | _ => false

/-- The spans inside a node: the inner text of a code span, the text and the target of a link. -/
def Inline.inner : Inline → List Span
  | .text _ => []
  | .codeSpan _ inner => [inner]
  | .link _ label target _ => [label, target]

/-- The node moved right by `offset` bytes. -/
def Inline.shift (offset : Nat) : Inline → Inline
  | .text full => .text (full.shift offset)
  | .codeSpan full inner => .codeSpan (full.shift offset) (inner.shift offset)
  | .link full label target image =>
    .link (full.shift offset) (label.shift offset) (target.shift offset) image

/-- The span cuts out a part of a text that stands at `base`. -/
def Cuts (base : Nat) (whole : List Char) (s : Span) : Prop :=
  ∃ offset part, Stands whole offset part ∧ s = ⟨base + offset, base + offset + byteSize part⟩

/-- The spans of a node cut out parts of the text; the inner ones lie within the node, each before
the next one. -/
structure Inline.Fits (base : Nat) (whole : List Char) (n : Inline) : Prop where
  cuts : ∀ s ∈ n.full :: n.inner, Cuts base whole s
  within : ∀ s ∈ n.inner, n.full.contains s = true
  inOrder : n.inner.Pairwise fun a b => a.stop < b.start

/-- Nodes that follow one another from one offset to another one, none of them empty. -/
def Tiles : Nat → List Inline → Nat → Prop
  | lo, [], hi => lo = hi
  | lo, n :: rest, hi => n.full.start = lo ∧ lo < n.full.stop ∧ Tiles n.full.stop rest hi

theorem cuts_of_stands {offset : Nat} (h : Stands whole offset part) :
    Cuts base whole ⟨base + offset, base + offset + byteSize part⟩ :=
  ⟨offset, part, h, rfl⟩

/-- The inner text of a code span stands between its ticks. -/
theorem fits_code {run offset : Nat} {inner : List Char}
    (h : Stands whole offset (Construct.code run inner).source) :
    ((Construct.code run inner).node (base + offset)).Fits base whole := by
  have hinner : Stands whole (offset + run) inner := by
    have hmiddle := Stands.middle h
    rwa [byteSize_ticks] at hmiddle
  refine ⟨fun s hs => ?_, fun s hs => ?_, List.pairwise_singleton _ _⟩
  · rcases List.mem_cons.mp hs with rfl | hs
    · rw [full_node]
      exact cuts_of_stands h
    · obtain rfl := List.mem_singleton.mp hs
      rw [Nat.add_assoc base offset run]
      exact cuts_of_stands hinner
  · obtain rfl := List.mem_singleton.mp hs
    exact Span.contains_iff.mpr ⟨Nat.le_add_right _ _, Nat.le_add_right _ _⟩

/-- The text and the target of a link stand between its brackets and parentheses. -/
theorem fits_link {l : LinkParts} {offset : Nat} (h : Stands whole offset l.source) :
    (l.node (base + offset)).Fits base whole := by
  have hsource : l.source = l.opening ++ l.text ++
      ([']', '('] ++ l.spaces ++ l.target ++ l.tail) := by
    simp [LinkParts.source, LinkParts.head]
  have htext : Stands whole (offset + byteSize l.opening) l.text := (hsource ▸ h).middle
  have htarget : Stands whole (offset + byteSize l.head) l.target := h.middle
  have hhead : byteSize l.opening + byteSize l.text < byteSize l.head := by
    have hmiddle : byteSize [']', '('] = 2 := rfl
    simp only [LinkParts.head, byteSize_append, hmiddle]
    omega
  have hsize : byteSize l.head + byteSize l.target ≤ byteSize l.source := by
    simp only [LinkParts.source, byteSize_append]
    omega
  refine ⟨fun s hs => ?_, fun s hs => ?_, ?_⟩
  · rcases List.mem_cons.mp hs with rfl | hs
    · exact cuts_of_stands h
    · rcases List.mem_cons.mp hs with rfl | hs
      · rw [Nat.add_assoc base]
        exact cuts_of_stands htext
      · obtain rfl := List.mem_singleton.mp hs
        rw [Nat.add_assoc base]
        exact cuts_of_stands htarget
  · rcases List.mem_cons.mp hs with rfl | hs
    · refine Span.contains_iff.mpr ⟨Nat.le_add_right _ _, ?_⟩
      show base + offset + byteSize l.opening + byteSize l.text ≤
        base + offset + byteSize l.source
      omega
    · obtain rfl := List.mem_singleton.mp hs
      refine Span.contains_iff.mpr ⟨Nat.le_add_right _ _, ?_⟩
      show base + offset + byteSize l.head + byteSize l.target ≤ base + offset + byteSize l.source
      omega
  · refine List.pairwise_cons.mpr ⟨fun s hs => ?_, List.pairwise_singleton _ _⟩
    obtain rfl := List.mem_singleton.mp hs
    show base + offset + byteSize l.opening + byteSize l.text < base + offset + byteSize l.head
    omega

/-- The spans of a construct cut out its pieces. -/
theorem fits_node {found : Construct} {offset : Nat} (h : Stands whole offset found.source) :
    (found.node (base + offset)).Fits base whole := by
  cases found with
  | code run inner => exact fits_code h
  | link l => exact fits_link h

theorem isText_node (found : Construct) (position : Nat) :
    (found.node position).isText = false := by
  cases found <;> rfl

/-! ## The scan -/

/-- Nodes that tile the text from `lo` on. -/
structure Tiling (base : Nat) (whole : List Char) (lo : Nat) (nodes : List Inline) : Prop where
  tiles : Tiles lo nodes (base + byteSize whole)
  fits : ∀ n ∈ nodes, n.Fits base whole
  alternates : nodes.IsChain fun a b => ¬ (a.isText = true ∧ b.isText = true)

namespace Tiling

theorem nil : Tiling base whole (base + byteSize whole) [] :=
  ⟨rfl, fun _ h => absurd h List.not_mem_nil, List.isChain_nil⟩

/-- Plain text in front of a construct or of the end. -/
theorem plain {offset : Nat} {pending : List Char} {nodes : List Inline}
    (h : Tiling base whole (base + offset + byteSize pending) nodes)
    (hstands : Stands whole offset pending) (hhead : ∀ n ∈ nodes.head?, n.isText = false) :
    Tiling base whole (base + offset)
      (plainText (base + offset) (base + offset + byteSize pending) ++ nodes) := by
  unfold plainText
  split
  · next hlt =>
    refine ⟨⟨rfl, hlt, h.tiles⟩, ?_, ?_⟩
    · intro n hn
      rcases List.mem_cons.mp hn with rfl | hn
      · refine ⟨fun s hs => ?_, fun _ h => absurd h List.not_mem_nil, List.Pairwise.nil⟩
        obtain rfl := List.mem_singleton.mp hs
        exact cuts_of_stands hstands
      · exact h.fits n hn
    · refine List.isChain_cons.mpr ⟨fun n hn htext => ?_, h.alternates⟩
      rw [hhead n hn] at htext
      cases htext.2
  · next hlt =>
    have hnil : byteSize pending = 0 := by omega
    rw [hnil] at h
    exact h

/-- A construct in front of nodes. -/
theorem construct {offset : Nat} {found : Construct} {nodes : List Inline}
    (h : Tiling base whole (base + offset + byteSize found.source) nodes)
    (hstands : Stands whole offset found.source) (hne : found.source ≠ []) :
    Tiling base whole (base + offset) (found.node (base + offset) :: nodes) := by
  have hpos := byteSize_pos_of_ne_nil hne
  refine ⟨?_, ?_, ?_⟩
  · refine ⟨by rw [full_node], ?_, ?_⟩
    · rw [full_node]
      show base + offset < base + offset + byteSize found.source
      omega
    · rw [full_node]
      exact h.tiles
  · intro n hn
    rcases List.mem_cons.mp hn with rfl | hn
    · exact fits_node hstands
    · exact h.fits n hn
  · refine List.isChain_cons.mpr ⟨fun n _ htext => ?_, h.alternates⟩
    rw [isText_node] at htext
    cases htext.1

end Tiling

/-- The scan tiles a text from where its pending plain text starts. -/
theorem tiling_scanInline (hread : Recognizes read) (front pending : List Char) {cs : List Char}
    {start position : Nat} (hwhole : whole = front ++ pending ++ cs)
    (hstart : start = base + byteSize front) (hposition : position = start + byteSize pending) :
    Tiling base whole start (scanInline read start position cs) := by
  induction cs using scan_induction hread generalizing front pending start position with
  | nil =>
    have hend : position = base + byteSize whole := by
      rw [hposition, hstart, hwhole]
      simp only [byteSize_append, byteSize_nil]
      omega
    have hpending : Stands whole (byteSize front) pending := ⟨front, [], hwhole, rfl⟩
    have hnil : Tiling base whole (start + byteSize pending) [] := by
      rw [← hposition, hend]
      exact .nil
    subst hstart hposition
    rw [scanInline]
    simpa using hnil.plain hpending fun n hn => by cases hn
  | step part rest htake ih =>
    cases hpart : read (part ++ rest) with
    | none =>
      rw [htake.scanInline_of_none hpart]
      -- The pending plain text grows until a construct comes.
      refine ih front (pending ++ part) ?_ hstart ?_
      · rw [hwhole]
        simp only [List.append_assoc]
      · rw [hposition, byteSize_append, Nat.add_assoc]
    | some found =>
      obtain rfl := htake.eq_of_construct hread hpart
      rw [scanInline_of_some hread hpart]
      have hpending : Stands whole (byteSize front) pending :=
        ⟨front, found.source ++ rest, hwhole, rfl⟩
      have hsource : Stands whole (byteSize (front ++ pending)) found.source :=
        ⟨front ++ pending, rest, by rw [hwhole, List.append_assoc (front ++ pending)], rfl⟩
      have hplace : position = base + byteSize (front ++ pending) := by
        rw [hposition, hstart, byteSize_append, Nat.add_assoc]
      have hrest : Tiling base whole (position + byteSize found.source)
          (scanInline read (position + byteSize found.source) (position + byteSize found.source)
            rest) := ih (front ++ pending ++ found.source) []
        (by rw [hwhole]; simp only [List.append_assoc, List.nil_append])
        (by rw [hplace, byteSize_append _ found.source, Nat.add_assoc]) rfl
      rw [hplace] at hrest
      have hnode := hrest.construct hsource (hread.initial hpart).1
      rw [← hplace] at hnode
      subst hstart hposition
      refine hnode.plain hpending fun n hn => ?_
      obtain rfl := Option.some.inj hn
      exact isText_node found _

theorem shift_plainText (k start stop : Nat) :
    plainText (k + start) (k + stop) = (plainText start stop).map (Inline.shift k) := by
  unfold plainText
  by_cases h : start < stop
  · rw [if_pos h, if_pos (Nat.add_lt_add_left h k)]
    rfl
  · rw [if_neg h, if_neg (fun hlt => h (Nat.lt_of_add_lt_add_left hlt))]
    rfl

theorem shift_node (k position : Nat) (found : Construct) :
    found.node (k + position) = (found.node position).shift k := by
  cases found <;>
    simp only [Construct.node, LinkParts.node, Inline.shift, Span.shift, Nat.add_assoc]

/-- The nodes move with the text. -/
theorem scanInline_shift (hread : Recognizes read) (k start position : Nat) (cs : List Char) :
    scanInline read (k + start) (k + position) cs =
      (scanInline read start position cs).map (Inline.shift k) := by
  induction cs using scan_induction hread generalizing start position with
  | nil =>
    rw [scanInline, scanInline]
    exact shift_plainText k start position
  | step part rest htake ih =>
    cases hpart : read (part ++ rest) with
    | none =>
      rw [htake.scanInline_of_none hpart, htake.scanInline_of_none hpart, Nat.add_assoc]
      exact ih _ _
    | some found =>
      obtain rfl := htake.eq_of_construct hread hpart
      rw [scanInline_of_some hread hpart, scanInline_of_some hread hpart, List.map_append,
        List.map_cons, shift_plainText, shift_node, Nat.add_assoc, ih]

/-- The nodes of an inline text tile it without a gap; none is empty and no two neighbours are plain
text. Their spans stop on character boundaries of the text, and the inner text of a code span, or
the text and then the target of a link, lie within the node. A text that stands `k` bytes later has
the same nodes `k` bytes later. -/
theorem parseInline_tiles (base k : Nat) (cs : List Char) :
    Tiles base (parseInline base cs) (base + byteSize cs) ∧
      (parseInline base cs).IsChain (fun a b => ¬ (a.isText = true ∧ b.isText = true)) ∧
      (∀ n ∈ parseInline base cs,
        (∀ s ∈ n.full :: n.inner, base ≤ s.start ∧
          ∃ text, slice? cs ⟨s.start - base, s.stop - base⟩ = some text) ∧
        (∀ s ∈ n.inner, n.full.contains s = true) ∧
        n.inner.Pairwise fun a b => a.stop < b.start) ∧
      parseInline (base + k) cs = (parseInline base cs).map (Inline.shift k) := by
  have htiling : Tiling base cs base (parseInline base cs) :=
    tiling_scanInline recognizes_constructAt? [] [] rfl rfl rfl
  refine ⟨htiling.tiles, htiling.alternates, fun n hn => ?_, ?_⟩
  · have hfits := htiling.fits n hn
    refine ⟨fun s hs => ?_, hfits.within, hfits.inOrder⟩
    obtain ⟨offset, part, hpart, rfl⟩ := hfits.cuts s hs
    refine ⟨Nat.le_add_right _ _, part, ?_⟩
    rw [Nat.add_assoc, Nat.add_sub_cancel_left, Nat.add_sub_cancel_left]
    exact hpart.slice?
  · rw [Nat.add_comm base k]
    exact scanInline_shift recognizes_constructAt? k base base cs

end ArticleAudit.Markdown
