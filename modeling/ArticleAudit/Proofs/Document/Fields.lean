import ArticleAudit.Document
import ArticleAudit.Proofs.Markdown.Fields

/-!
# Fields of the front matter

Each line of the front matter adds a field, extends the latest one, or does nothing. `FieldState`
is what holds of the fields so far: they are laid out up to where the lines have been read, and the
latest one still starts on a line that was read, so that it can take one more. One line preserves
it (`FieldState.addFieldLine`), and so do all (`fieldState_foldl`).
-/

set_option autoImplicit false

namespace ArticleAudit.Document

open ArticleAudit.Text ArticleAudit.Markdown

variable {source : List Char}

/-! ## One field -/

/-- A field that starts on a line, on which its value stands. -/
structure FieldOn (source : List Char) (l : LineFacts) (b : Block) : Prop where
  sound : l.Sound source
  notBlank : l.isBlank = false
  kind : b.kind = .metadataField
  start : b.span.start = l.start
  stop : l.stop ≤ b.span.stop
  content : ∃ s cs, b.content = some s ∧ slice? source s = some cs ∧ l.start ≤ s.start ∧
    s.stop ≤ l.line.stop
  target : b.target = none
  region : b.region = none
  children : b.children = []

theorem fieldBlock?_spec {l : LineFacts} {b : Block} (hl : l.Sound source)
    (hblank : l.isBlank = false) (h : fieldBlock? source l = some b) :
    FieldOn source l b ∧ Block.Laid source l.start l.stop [b] := by
  unfold fieldBlock? at h
  obtain ⟨-, h⟩ := Option.ite_none_right_eq_some.mp h
  obtain ⟨field, hfield, rfl⟩ := Option.map_eq_some_iff.mp h
  have hreads := Field.reads_of_ofLine? hfield
  obtain ⟨front, after, hsplit, hsize, -⟩ := hreads.exists_split
  have hindent := hreads.leadingIndent_eq
  -- The line is not indented, so its body is the trimmed text.
  have hstart : l.start = l.content.start := by
    rw [(hl.start_eq hblank).1, hl.indentBytes_eq, hindent]
    rfl
  have hbody : l.body = trimEnd l.text := by
    rw [(hl.start_eq hblank).2, hindent, List.nil_append]
  have hvalue : Stands source (l.content.start + field.valueOffset) field.value := by
    have hstands := hl.stands
    rw [hsplit] at hstands
    rw [← hsize]
    exact hstands.middle
  have hend : l.content.start + field.valueOffset + byteSize field.value ≤ l.line.stop := by
    have h1 := hl.content_stop_le
    have h2 := congrArg byteSize hsplit
    simp only [byteSize_append] at h2
    omega
  have htext : (String.ofList (slice source ⟨l.start, l.stop⟩)).toList = trimEnd l.text := by
    rw [String.toList_ofList, hl.slice_start_stop, hbody]
  constructor
  · refine ⟨hl, hblank, rfl, rfl, Nat.le_refl _, ⟨_, field.value, rfl, hvalue.slice?, ?_, hend⟩,
      rfl, rfl, rfl⟩
    show l.start ≤ l.content.start + field.valueOffset
    omega
  · refine .singleton rfl rfl hl.boundary_start hl.boundary_stop l.start_le_stop (.nil _ _ _) ?_ rfl
    refine ⟨?_, nofun⟩
    intro s hs
    obtain rfl := Option.some.inj hs
    refine ⟨field.value, hvalue.slice?, ?_, value_stop_le_iff hl hreads rfl rfl htext⟩
    show l.start ≤ l.content.start + field.valueOffset
    omega

/-- A field takes one more line, and does not overhang then. -/
theorem FieldOn.extendField {first l : LineFacts} {b : Block} (h : FieldOn source first b)
    (hl : l.Sound source) (hblank : l.isBlank = false) (hle : first.line.stop ≤ l.line.start)
    (hstop : b.span.stop ≤ l.line.start) :
    FieldOn source first (extendField source b l) ∧
      Block.Laid source first.start l.stop [extendField source b l] := by
  have h1 := hl.line_start_le
  have h2 := l.content_start_le_start
  have h3 := l.start_le_stop
  have h4 := first.start_le_stop
  have h5 := h.sound.stop_le_line_stop
  have hspan : (Document.extendField source b l).span = ⟨first.start, l.stop⟩ := by
    show (⟨b.span.start, max l.stop b.span.stop⟩ : Span) = _
    rw [h.start, Nat.max_eq_left (by omega)]
  have htext : (Document.extendField source b l).text =
      String.ofList (slice source ⟨first.start, l.stop⟩) := by
    rw [← hspan]
    rfl
  obtain ⟨s, cs, hs, hcs, hsstart, hsstop⟩ := h.content
  have hspanLe : first.start ≤ l.stop := by omega
  have hslice := h.sound.boundary_start.slice?_eq hl.boundary_stop hspanLe
  have hfeed : '\n' ∈ (Document.extendField source b l).text.toList := by
    rw [htext, String.toList_ofList]
    refine h.sound.lineFeed_mem ?_ ?_ hslice
    · have := byteSize_trimEnd_le first.text
      simp only [LineFacts.stop] at h4
      omega
    · have := hl.start_lt_stop hblank
      omega
  have hover : ¬ (Document.extendField source b l).Overhangs source := by
    unfold Block.Overhangs
    rw [show (Document.extendField source b l).kind = .metadataField from h.kind]
    exact fun hone => hone.1 hfeed
  constructor
  · refine ⟨h.sound, h.notBlank, h.kind, ?_, ?_, ⟨s, cs, hs, hcs, hsstart, hsstop⟩, h.target,
      h.region, h.children⟩
    · rw [hspan]
    · rw [hspan]
      show first.stop ≤ l.stop
      omega
  · refine .singleton hspan htext h.sound.boundary_start hl.boundary_stop (by omega) ?_ ?_ h.region
    · rw [show (Document.extendField source b l).children = [] from h.children]
      exact .nil _ _ _
    · refine Block.innerFits_of_within hover ?_ ?_
      · intro s' hs'
        obtain rfl : s = s' := Option.some.inj (hs.symm.trans hs')
        rw [hspan]
        exact ⟨⟨cs, hcs⟩, hsstart, show s.stop ≤ l.stop by omega⟩
      · intro s' hs'
        have := h.target.symm.trans hs'
        cases this

/-! ## All fields -/

/-- What holds of a field on its line, and still when it takes another one, holds of the fields
after a line. -/
theorem forall_mem_addFieldLine {P : Block → Prop} {l : LineFacts} {fields : List Block}
    (hline : ∀ b, l.isBlank = false → fieldBlock? source l = some b → P b)
    (hextend : ∀ b, P b → P (extendField source b l)) (h : ∀ b ∈ fields, P b) :
    ∀ b ∈ addFieldLine source fields l, P b := by
  unfold addFieldLine
  split
  · exact h
  · next hblank =>
    split
    · next field hfield =>
      exact List.forall_mem_cons.mpr ⟨hline field (by simpa using hblank) hfield, h⟩
    · exact nofun
    · obtain ⟨hlast, hearlier⟩ := List.forall_mem_cons.mp h
      exact List.forall_mem_cons.mpr ⟨hextend _ hlast, hearlier⟩

/-- So it holds of all fields. -/
theorem forall_mem_fieldBlocks {P : Block → Prop} {lines : List LineFacts}
    (hline : ∀ l ∈ lines, ∀ b, l.isBlank = false → fieldBlock? source l = some b → P b)
    (hextend : ∀ l b, P b → P (extendField source b l)) : ∀ b ∈ fieldBlocks source lines, P b := by
  have hfoldl : ∀ fields, (∀ b ∈ fields, P b) →
      ∀ b ∈ lines.foldl (addFieldLine source) fields, P b := by
    induction lines with
    | nil => exact fun _ h => h
    | cons l rest ih =>
      obtain ⟨hl, hrest⟩ := List.forall_mem_cons.mp hline
      exact fun fields h => ih hrest _ (forall_mem_addFieldLine hl (hextend l) h)
  exact fun b hb => hfoldl [] nofun b (List.mem_reverse.mp hb)

/-- The fields of the lines that end by `mid`, the latest first. -/
structure FieldState (source : List Char) (lo mid : Nat) (fields : List Block) : Prop where
  laid : Block.Laid source lo mid fields.reverse
  latest : ∀ b ∈ fields.head?, ∃ l, FieldOn source l b ∧ l.line.stop ≤ mid

theorem fieldState_nil (source : List Char) (lo mid : Nat) : FieldState source lo mid [] :=
  ⟨.nil source lo mid, nofun⟩

/-- One line adds a field, extends the latest one, or does nothing. -/
theorem FieldState.addFieldLine {lo mid : Nat} {fields : List Block} {l : LineFacts}
    (h : FieldState source lo mid fields) (hl : l.Sound source) (hlo : lo ≤ mid)
    (hmid : mid ≤ l.line.start) :
    FieldState source lo l.line.stop (addFieldLine source fields l) := by
  have hline := InOrder.line_start_le_stop hl
  have h1 := hl.line_start_le
  have h2 := l.content_start_le_start
  have h3 := hl.stop_le_line_stop
  have h4 := l.start_le_stop
  unfold Document.addFieldLine
  split
  · -- A blank line.
    refine ⟨h.laid.weaken (Nat.le_refl lo) (hmid.trans hline), ?_⟩
    intro b hb
    obtain ⟨l', hl', hstop⟩ := h.latest b hb
    exact ⟨l', hl', hstop.trans (hmid.trans hline)⟩
  · next hblank =>
    have hblank : l.isBlank = false := by simpa using hblank
    split
    · -- A line that is a field.
      next field hfield =>
      obtain ⟨hon, hlaid⟩ := fieldBlock?_spec hl hblank hfield
      refine ⟨?_, ?_⟩
      · rw [List.reverse_cons]
        exact h.laid.append (hlaid.weaken (by omega) h3) hlo (hmid.trans hline)
      · intro b hb
        obtain rfl : field = b := by simpa using hb
        exact ⟨l, hon, Nat.le_refl _⟩
    · exact fieldState_nil source lo _
    · -- A line that extends the latest field.
      next last earlier _ =>
      obtain ⟨first, hon, hfirst⟩ := h.latest last (by simp)
      have hlaid := h.laid
      rw [List.reverse_cons] at hlaid
      have hlast := hlaid.within last (by simp)
      obtain ⟨hon', hext⟩ := hon.extendField hl hblank (hfirst.trans hmid) (hlast.2.trans hmid)
      have hearlier := hlaid.before_last
      rw [hon.start] at hearlier hlast
      refine ⟨?_, ?_⟩
      · rw [List.reverse_cons]
        exact (hearlier.append hext hlast.1 (by
          have := hon.stop
          have := first.start_le_stop
          omega)).weaken (Nat.le_refl lo) h3
      · intro b hb
        obtain rfl : Document.extendField source last l = b := by simpa using hb
        exact ⟨first, hon', by omega⟩

/-- What one line preserves, all lines do. -/
theorem fieldState_foldl {lo mid : Nat} {fields : List Block} {lines : List LineFacts}
    (h : FieldState source lo mid fields) (hlo : lo ≤ mid) (horder : InOrder source mid lines) :
    ∃ stop, lo ≤ stop ∧ FieldState source lo stop (lines.foldl (addFieldLine source) fields) ∧
      ∀ hi, mid ≤ hi → (∀ l ∈ lines, l.line.stop ≤ hi) → stop ≤ hi := by
  induction lines generalizing mid fields with
  | nil => exact ⟨mid, hlo, h, fun hi hmid _ => hmid⟩
  | cons l rest ih =>
    have hstate := h.addFieldLine horder.2.1 hlo horder.1
    have hle := (hlo.trans horder.1).trans (InOrder.line_start_le_stop horder.2.1)
    obtain ⟨stop, hstop, hfields, hbound⟩ := ih hstate hle horder.2.2
    refine ⟨stop, hstop, hfields, ?_⟩
    intro hi _ hlines
    exact hbound hi (hlines l List.mem_cons_self) fun u hu => hlines u (List.mem_cons_of_mem l hu)

/-- The fields in lines that are in order are laid out over the lines. -/
theorem laid_fieldBlocks {lo hi : Nat} {lines : List LineFacts} (horder : InOrder source lo lines)
    (hle : lo ≤ hi) (hhi : ∀ l ∈ lines, l.line.stop ≤ hi) :
    Block.Laid source lo hi (fieldBlocks source lines) := by
  obtain ⟨stop, -, hfields, hbound⟩ :=
    fieldState_foldl (fieldState_nil source lo lo) (Nat.le_refl lo) horder
  exact hfields.laid.weaken (Nat.le_refl lo) (hbound hi hle hhi)

end ArticleAudit.Document
