import ArticleAudit.Proofs.Markdown.LineEnds
import ArticleAudit.Proofs.Markdown.Mapping
import ArticleAudit.Proofs.Toc.Properties
import ArticleAudit.Proofs.Toc.Steps

/-!
# Items on mapped lines

A map of lines that keeps what items branch on, a map of blocks and a map of what is known of an
item commute with reading items, when they agree where a line says something of an item and where an
item becomes a block (`MapsItems`). Then the items of the images of the lines are the images of the
items (`MapsItems.maps_take`, `MapsItems.blocksOf`).

Carriage returns are such a map. The value of a property is on one line and so is what stands
between its quotes, so a property of the text with carriage returns says what the property says,
about the place where it comes to lie (`propertyParts_crlf`). The items come to lie where their
lines do (`blocksOf_crlf`).
-/

set_option autoImplicit false

namespace ArticleAudit.Toc

open ArticleAudit.Text ArticleAudit.Markdown

variable {source source' : List Char} {p : LineFacts → Prop} {g : LineFacts → LineFacts}
  {f : Block → Block} {k : Parts → Parts}

/-- A map of lines that keeps their texts keeps what makes a document a table of contents. -/
theorem isToc_map (hblank : ∀ l, (g l).isBlank = l.isBlank) (htext : ∀ l, (g l).text = l.text)
    (fileName : String) (lines : List LineFacts) :
    isToc fileName (lines.map g) = isToc fileName lines := by
  have hlooks : looksLikeToc ∘ g = looksLikeToc := by
    funext l
    unfold looksLikeToc
    rw [Function.comp_apply, htext]
  have hmeaningful : (fun l => !l.isBlank && !(isYamlName (baseName fileName) && isComment l)) ∘ g =
      fun l => !l.isBlank && !(isYamlName (baseName fileName) && isComment l) := by
    funext l
    unfold isComment
    rw [Function.comp_apply, hblank, htext]
  unfold isToc
  simp only [List.find?_map, Option.map_map, hlooks, hmeaningful]

/-- From the images of the lines the image of the parts is read, and the images of the lines are
left. -/
structure TakenParts.Maps (g : LineFacts → LineFacts) (k : Parts → Parts) {lines : List LineFacts}
    (taken : TakenParts lines) (taken' : TakenParts (lines.map g)) : Prop where
  parts : taken'.parts = k taken.parts
  rest : taken'.rest = taken.rest.map g

/-- The maps keep what items branch on, and agree where lines and items say something. The lines are
those of which `p` holds. -/
structure MapsItems (source source' : List Char) (p : LineFacts → Prop)
    (g : LineFacts → LineFacts) (f : Block → Block) (k : Parts → Parts) : Prop where
  isBlank : ∀ l, (g l).isBlank = l.isBlank
  indent : ∀ l, (g l).indent = l.indent
  comment : ∀ l, isComment (g l) = isComment l
  item : ∀ l, isItem (g l) = isItem l
  first : ∀ l, p l → firstProperty source' (g l) = k (firstProperty source l)
  line : ∀ l, p l →
    { Parts.ofProperty (property? source' (g l) (g l).indentBytes) with stop := some (g l).stop } =
      k { Parts.ofProperty (property? source l l.indentBytes) with stop := some l.stop }
  empty : k .empty = .empty
  append : ∀ a b, k (a.append b) = (k a).append (k b)
  items : ∀ items, Parts.ofItems (items.map f) = k (Parts.ofItems items)
  block : ∀ depth l parts, p l →
    itemBlock source' depth (g l) (k parts) = f (itemBlock source depth l parts)

namespace MapsItems

variable (h : MapsItems source source' p g f k)

include h

/-- A line is passed over where its image is. -/
theorem isPassed_eq (l : LineFacts) : isPassed (g l) = isPassed l := by
  rw [isPassed, isPassed, h.isBlank, h.comment]

theorem isInner_eq (indent : Nat) (l : LineFacts) : isInner indent (g l) = isInner indent l := by
  rw [isInner, isInner, h.isPassed_eq, h.indent]

theorem isAmong_eq (indent : Nat) (l : LineFacts) : isAmong indent (g l) = isAmong indent l := by
  rw [isAmong, isAmong, h.isInner_eq, h.indent, h.item]

/-- Items are read from the images of lines as from the lines. -/
theorem maps_take :
    (∀ depth indent lines, (∀ c ∈ lines, p c) → (takeItems source depth indent lines).Maps g f
      (takeItems source' depth indent (lines.map g))) ∧
    (∀ depth l lines, p l → (∀ c ∈ lines, p c) → (takeItem source depth l lines).Maps g f
      (takeItem source' depth (g l) (lines.map g))) ∧
    ∀ depth indent lines, (∀ c ∈ lines, p c) → (takeParts source depth indent lines).Maps g k
      (takeParts source' depth indent (lines.map g)) := by
  -- What holds of the lines holds of those that are left.
  have hsuffix : ∀ {lines later : List LineFacts}, (∀ c ∈ lines, p c) → later <:+ lines →
      ∀ c ∈ later, p c := fun hp hlater c hc => hp c (hlater.mem hc)
  -- What the next line is not, its image is not.
  have hhead : ∀ {q : LineFacts → Bool} {lines : List LineFacts}, (∀ l, q (g l) = q l) →
      (∀ l ∈ lines.head?, q l = false) → ∀ l ∈ (lines.map g).head?, q l = false := by
    intro q lines hq hlines l hl
    rw [List.head?_map] at hl
    obtain ⟨first, hfirst, rfl⟩ := Option.map_eq_some_iff.mp hl
    rw [hq]
    exact hlines first hfirst
  apply take_induction source
  case noItem =>
    intro depth indent lines hstop _
    rw [takeItems_of_stops hstop, takeItems_of_stops (hhead (h.isAmong_eq indent) hstop)]
    exact .nothing lines
  case skip =>
    intro depth indent l lines hinner ih hlines
    have ih := ih (hsuffix hlines (List.suffix_cons l lines))
    show (takeItems source depth indent (l :: lines)).Maps g f
      (takeItems source' depth indent (g l :: lines.map g))
    rw [takeItems_of_inner hinner, takeItems_of_inner ((h.isInner_eq indent l).trans hinner)]
    exact ⟨ih.blocks, ih.rest⟩
  case nextItem =>
    intro depth l lines hpassed hitem ihitem ihitems hlines
    have hlater := hsuffix hlines (List.suffix_cons l lines)
    have ihitem := ihitem (hlines l List.mem_cons_self) hlater
    have ihitems := ihitems (hsuffix hlater (takeItem source depth l lines).isSuffix)
    show (takeItems source depth l.indent (l :: lines)).Maps g f
      (takeItems source' depth l.indent (g l :: lines.map g))
    rw [takeItems_of_item hpassed hitem rfl, takeItems_of_item ((h.isPassed_eq l).trans hpassed)
      ((h.item l).trans hitem) (h.indent l)]
    exact ihitem.andThen ihitems
  case item =>
    -- An item is its first line and its deeper lines.
    intro depth l lines ih hl hlines
    have ih := ih hlines
    rw [takeItem, takeItem]
    constructor
    · show itemBlock source' depth (g l) ((firstProperty source' (g l)).append
        (takeParts source' depth (g l).indent (lines.map g)).parts) = _
      rw [h.indent, ih.parts, h.first l hl, ← h.append, h.block depth l _ hl]
    · show (takeParts source' depth (g l).indent (lines.map g)).rest = _
      rw [h.indent]
      exact ih.rest
  case noPart =>
    intro depth indent lines hstop _
    rw [takeParts_of_stops hstop, takeParts_of_stops (hhead (h.isInner_eq indent) hstop)]
    exact ⟨h.empty.symm, rfl⟩
  case passed =>
    intro depth indent l lines hpassed ih hlines
    have ih := ih (hsuffix hlines (List.suffix_cons l lines))
    show (takeParts source depth indent (l :: lines)).Maps g k
      (takeParts source' depth indent (g l :: lines.map g))
    rw [takeParts_of_passed hpassed, takeParts_of_passed ((h.isPassed_eq l).trans hpassed)]
    constructor
    · show Parts.append .empty (takeParts source' depth indent (lines.map g)).parts =
        k (Parts.append .empty _)
      rw [ih.parts, h.append, h.empty]
    · exact ih.rest
  case nested =>
    intro depth indent l lines hpassed hlt hitem ihitems ih hlines
    have hitems := ihitems hlines
    have ih := ih (hsuffix hlines (TakenAll.isSuffix _))
    have hlt' : indent < (g l).indent := by rwa [h.indent]
    show (takeParts source depth indent (l :: lines)).Maps g k
      (takeParts source' depth indent (g l :: lines.map g))
    rw [takeParts_of_item hpassed hlt hitem, takeParts_of_item ((h.isPassed_eq l).trans hpassed)
      hlt' ((h.item l).trans hitem)]
    constructor
    · show Parts.append (Parts.ofItems (takeItems source' (deeper depth) (g l).indent _).blocks)
          (takeParts source' depth indent
            (takeItems source' (deeper depth) (g l).indent _).rest).parts =
        k (Parts.append (Parts.ofItems _) _)
      rw [h.indent, ← List.map_cons, hitems.blocks, hitems.rest, ih.parts, h.items, h.append]
    · show (takeParts source' depth indent
        (takeItems source' (deeper depth) (g l).indent _).rest).rest = _
      rw [h.indent, ← List.map_cons, hitems.rest]
      exact ih.rest
  case property =>
    intro depth indent l lines hpassed hlt hitem ih hlines
    have ih := ih (hsuffix hlines (List.suffix_cons l lines))
    have hlt' : indent < (g l).indent := by rwa [h.indent]
    show (takeParts source depth indent (l :: lines)).Maps g k
      (takeParts source' depth indent (g l :: lines.map g))
    rw [takeParts_of_property hpassed hlt hitem, takeParts_of_property
      ((h.isPassed_eq l).trans hpassed) hlt' ((h.item l).trans hitem)]
    constructor
    · show Parts.append { Parts.ofProperty (property? source' (g l) (g l).indentBytes) with
        stop := some (g l).stop } (takeParts source' depth indent (lines.map g)).parts =
          k (Parts.append _ _)
      rw [ih.parts, h.append, ← h.line l (hlines l List.mem_cons_self)]
    · exact ih.rest

/-- The blocks of a table of contents on the images of its lines. -/
theorem blocksOf {lines : List LineFacts} (hlines : ∀ c ∈ lines, p c) :
    blocksOf source' (lines.map g) = (blocksOf source lines).map f := by
  have hdrop := dropWhile_map_lines (g := g) (q := fun l => !(isItem l && !isComment l))
    (fun l => by rw [h.item, h.comment]) lines
  have hlater : ∀ c ∈ lines.dropWhile fun l => !(isItem l && !isComment l), p c :=
    fun c hc => hlines c ((List.dropWhile_suffix _).subset hc)
  unfold Toc.blocksOf
  rw [hdrop]
  generalize (lines.dropWhile fun l => !(isItem l && !isComment l)) = later at hlater ⊢
  cases later with
  | nil => rfl
  | cons first rest =>
    have hitems := (h.maps_take.1 0 first.indent (first :: rest) hlater).blocks
    simp only [List.map_cons, h.indent] at hitems ⊢
    exact hitems

end MapsItems

/-! ## Properties with carriage returns -/

section LineEnds

variable {l : LineFacts}

/-- What stands between the quotes of a value on one line comes to lie where the value does. -/
theorem unquoteSpan_crlf {n : Nat} {v : List Char} (h : Stands source n v) (hone : '\n' ∉ v) :
    unquoteSpan (crlf source) (Span.crlf source ⟨n, n + byteSize v⟩) =
        (unquoteSpan source ⟨n, n + byteSize v⟩).crlf source ∧
      '\n' ∉ slice source (unquoteSpan source ⟨n, n + byteSize v⟩) := by
  constructor
  · unfold unquoteSpan
    simp only [slice_crlf, h.slice, crlf_eq_self hone]
    split
    · next hquoted =>
      have hsize : byteSize v ≥ 2 := of_decide_eq_true (Bool.and_eq_true_iff.mp hquoted).1
      -- One byte is cut off on both sides, and both stay within the value.
      have hmove := h.movesAlong hone
      have hstart := hmove 1 (by omega)
      have hstop := hmove (byteSize v) (Nat.le_refl _)
      have hinner := hmove (byteSize v - 1) (by omega)
      rw [Span.crlf, Span.crlf, hstart, Nat.add_sub_assoc (by omega), hinner]
      simp only [hstop, Nat.add_sub_assoc (show 1 ≤ byteSize v by omega)]
    · rfl
  · obtain ⟨front, inner, back, hv, hspan, -⟩ := unquoteSpan_spec h
    have hinner : Stands source (n + byteSize front) inner := by
      rw [hv] at h
      exact h.middle
    rw [hspan, hinner.slice]
    intro hmem
    rw [hv] at hone
    exact hone (List.mem_append_left _ (List.mem_append_right _ hmem))

/-- What a property says of the text with carriage returns. -/
def Property.crlf (source : List Char) : Property → Property
  | .name text => .name text
  | .items => .items
  | .file span target => .file (span.crlf source) target

theorem isEmpty_crlf (s : Span) : (s.crlf source).isEmpty = s.isEmpty := by
  have hle : crlfOffset source s.stop ≤ crlfOffset source s.start ↔ s.stop ≤ s.start :=
    crlfOffset_le_iff
  rw [Bool.eq_iff_iff]
  simp only [Span.isEmpty, Span.length, Span.start_crlf, Span.stop_crlf, beq_iff_eq,
    Nat.sub_eq_zero_iff_le]
  exact hle

/-- A line has the properties that its image has. -/
theorem property?_crlf (hl : l.Sound source) (offset : Nat) :
    property? (crlf source) (l.crlf source) offset =
      (property? source l offset).map (Property.crlf source) := by
  unfold property?
  show (dropBytes? offset l.text >>= _) = _
  cases hrest : dropBytes? offset l.text with
  | none => rfl
  | some rest =>
    cases hfield : Field.ofLine? rest with
    | none => simp [hfield]
    | some field =>
      -- The value stands in the line after the indentation and the key.
      obtain ⟨indent, htext, rfl⟩ := dropBytes?_eq_some_iff.mp hrest
      obtain ⟨key, after, hsplit, hkey, -⟩ := (Field.reads_of_ofLine? hfield).exists_split
      have hline : l.text = (indent ++ key) ++ field.value ++ after := by
        rw [htext, hsplit]
        simp
      have hstart := hl.content_start_crlf hline
      have hmove := (hl.movesAlong_part hline).span (Nat.le_refl _)
      have hvalue : Stands source (l.content.start + byteSize (indent ++ key)) field.value := by
        have hstands := hl.stands
        rw [hline] at hstands
        exact hstands.middle
      obtain ⟨hunquote, hone⟩ := unquoteSpan_crlf hvalue (hl.lineFeed_not_mem_part hline)
      rw [byteSize_append, hkey, ← Nat.add_assoc, ← Nat.add_assoc] at hstart
      rw [byteSize_append, hkey, ← Nat.add_assoc] at hmove hunquote hone
      rw [← hstart] at hmove
      simp only [Option.bind_eq_bind, Option.bind_some, hfield, hmove, hunquote, slice_crlf,
        crlf_eq_self hone, isEmpty_crlf]
      split
      · rfl
      · split
        · rfl
        · split <;> rfl

/-- What is known of an item of the text with carriage returns. -/
def Parts.crlf (source : List Char) (parts : Parts) : Parts :=
  { parts with
    children := parts.children.map (Block.crlf source)
    stop := parts.stop.map (crlfOffset source) }

theorem Parts.append_crlf (a b : Parts) :
    (a.append b).crlf source = (a.crlf source).append (b.crlf source) := by
  unfold Parts.append Parts.crlf
  rw [List.map_append]
  cases b.stop <;> rfl

theorem Parts.ofItems_crlf (items : List Block) :
    Parts.ofItems (items.map (Block.crlf source)) = (Parts.ofItems items).crlf source := by
  unfold Parts.ofItems
  rw [List.getLast?_map]
  cases items.getLast? with
  | none => rfl
  | some last =>
    simp only [Option.map_some, Block.span_crlf, Span.stop_crlf]
    rfl

/-- What a property of a line says. -/
theorem propertyParts_crlf (hl : l.Sound source) (offset : Nat) :
    Parts.ofProperty (property? (crlf source) (l.crlf source) offset) =
      (Parts.ofProperty (property? source l offset)).crlf source := by
  rw [property?_crlf hl]
  cases hproperty : property? source l offset with
  | none => rfl
  | some property =>
    cases property with
    | name name => rfl
    | items => rfl
    | file span target =>
      obtain ⟨front, tail, htext, -⟩ := exists_of_property?_eq_file hl hproperty
      have hone := hl.lineFeed_not_mem_part htext
      have hleaf := Block.leaf_crlf source .fileName span target
      rw [crlf_eq_self hone] at hleaf
      show Parts.mk [((Block.leaf .fileName (span.crlf source) target).withTarget
        (span.crlf source)).withTag target] _ _ _ = _
      rw [hleaf, Block.withTarget_crlf, Block.withTag_crlf]
      rfl

/-! ## Items with carriage returns -/

theorem firstProperty_crlf (hl : l.Sound source) :
    firstProperty (crlf source) (l.crlf source) = (firstProperty source l).crlf source := by
  have hmarker : (l.crlf source).marker = l.marker := rfl
  unfold firstProperty
  rw [hmarker]
  cases l.marker with
  | none => rfl
  | some marker => exact propertyParts_crlf hl marker.contentOffset

/-- The block of an item comes to lie where its lines do. -/
theorem itemBlock_crlf (depth : Nat) (parts : Parts) (hl : l.Sound source) :
    itemBlock (crlf source) depth (l.crlf source) (parts.crlf source) =
      (itemBlock source depth l parts).crlf source := by
  have hstop : (parts.stop.map (crlfOffset source)).getD (l.crlf source).stop =
      crlfOffset source (parts.stop.getD l.stop) := by
    rw [hl.stop_crlf, Option.getD_map]
  unfold itemBlock Parts.crlf
  simp only [hstop, hl.start_crlf, Block.ofSource_crlf, Block.withLevel_crlf,
    Block.withChildren_crlf]
  cases parts.name with
  | none => rfl
  | some name => exact Block.withTag_crlf name

/-- Items come to lie where their lines do. -/
theorem mapsItems_crlf (source : List Char) :
    MapsItems source (crlf source) (LineFacts.Sound source) (LineFacts.crlf source)
      (Block.crlf source) (Parts.crlf source) where
  isBlank _ := rfl
  indent _ := rfl
  comment _ := rfl
  item _ := rfl
  first _ hl := firstProperty_crlf hl
  line l hl := by
    have hbytes : (l.crlf source).indentBytes = l.indentBytes := rfl
    rw [hbytes, propertyParts_crlf hl, hl.stop_crlf]
    rfl
  empty := rfl
  append := Parts.append_crlf
  items := Parts.ofItems_crlf
  block depth _ parts hl := itemBlock_crlf depth parts hl

end LineEnds

end ArticleAudit.Toc
