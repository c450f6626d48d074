import ArticleAudit.Proofs.Block.Demotion
import ArticleAudit.Proofs.Markdown.Layout
import ArticleAudit.Proofs.Markdown.Marks
import ArticleAudit.Proofs.Markdown.Unheaded

/-!
# Strictness only demotes

The same lines are read strictly and leniently (`demotes_blocksOf`). The two readings differ where a
line opens a heading or a table for the lenient one alone (`openerOf?_describe`). The strict reading
then takes the line into a paragraph. After a heading both go on with the next line. A run of rows
is a table for the lenient reading; the strict reading may turn to a table later in the run, but
leaves it where the lenient one does (`strictRows`). The pending paragraph of the strict reading
thus always encloses that of the lenient one (`Encloses`).
-/

set_option autoImplicit false

namespace ArticleAudit.Markdown

open ArticleAudit.Text

variable {source : List Char}

/-! ## One line read -/

section Line

variable {strict : Bool} {l : LineFacts}

theorem readLines_of_blank (pending : Option Span) (lines : List LineFacts)
    (hblank : l.isBlank = true) :
    readLines source strict pending (l :: lines) =
      paragraph source pending ++ readLines source strict none lines := by
  rw [readLines, if_pos hblank]

theorem readLines_of_opener {opener : Opener} {lines : List LineFacts} (pending : Option Span)
    (hblank : l.isBlank = false) (hopener : openerOf? strict l lines = some opener) :
    readLines source strict pending (l :: lines) =
      paragraph source pending ++ (openBlock source strict opener l lines).block ::
        readLines source strict none (openBlock source strict opener l lines).rest := by
  rw [readLines, if_neg (by simp [hblank]), hopener]

theorem readLines_of_text {lines : List LineFacts} (pending : Option Span)
    (hblank : l.isBlank = false) (hopener : openerOf? strict l lines = none) :
    readLines source strict pending (l :: lines) =
      readLines source strict (some (extendParagraph pending l)) lines := by
  rw [readLines, if_neg (by simp [hblank]), hopener]

end Line

/-! ## Lines read twice -/

/-- The facts about lines. -/
def describe (strict : Bool) (raw : List Line) : List LineFacts :=
  raw.map (LineFacts.ofLine strict)

theorem describe_cons (strict : Bool) (line : Line) (raw : List Line) :
    describe strict (line :: raw) = LineFacts.ofLine strict line :: describe strict raw := rfl

theorem describe_append (strict : Bool) (front later : List Line) :
    describe strict (front ++ later) = describe strict front ++ describe strict later :=
  List.map_append

theorem unheaded_describe (raw : List Line) :
    unheaded (describe true raw) = unheaded (describe false raw) := by
  unfold unheaded describe
  rw [List.map_map, List.map_map]
  rfl

/-- What does not look at headings finds the same run in both readings. -/
theorem exists_run {p : LineFacts → Bool} (hp : ∀ l, p l.unheaded = p l) (raw : List Line) :
    ∃ front later, raw = front ++ later ∧ ∀ strict,
      (describe strict raw).takeWhile p = describe strict front ∧
        (describe strict raw).dropWhile p = describe strict later := by
  have hsame : ∀ strict, p ∘ LineFacts.ofLine strict = p ∘ LineFacts.ofLine false := by
    intro strict
    funext line
    exact (hp (LineFacts.ofLine strict line)).symm.trans (hp (LineFacts.ofLine false line))
  refine ⟨raw.takeWhile (p ∘ LineFacts.ofLine false), raw.dropWhile (p ∘ LineFacts.ofLine false),
    List.takeWhile_append_dropWhile.symm, ?_⟩
  intro strict
  unfold describe
  rw [List.takeWhile_map, List.dropWhile_map, hsame strict]
  exact ⟨rfl, rfl⟩

/-- Lines that are left in both readings are the same lines. -/
theorem exists_left {raw : List Line} {strict lenient : List LineFacts}
    (hstrict : strict <:+ describe true raw) (hlenient : lenient <:+ describe false raw)
    (h : unheaded strict = unheaded lenient) :
    ∃ later, later <:+ raw ∧ strict = describe true later ∧ lenient = describe false later := by
  have hlength : strict.length = lenient.length := by
    simpa [unheaded] using congrArg List.length h
  refine ⟨raw.drop (raw.length - strict.length), List.drop_suffix _ _, ?_, ?_⟩
  · have hdrop := List.suffix_iff_eq_drop.mp hstrict
    rwa [describe, List.length_map, ← List.map_drop] at hdrop
  · have hdrop := List.suffix_iff_eq_drop.mp hlenient
    rwa [describe, List.length_map, ← List.map_drop, ← hlength] at hdrop

/-! ## Openers -/

/-- A row opens a table or nothing. -/
theorem openerOf?_of_isRow {strict : Bool} {l : LineFacts} {lines : List LineFacts}
    (h : l.Described) (hrow : l.isRow = true) :
    openerOf? strict l lines = if startsTable strict l lines then some .table else none := by
  have hink := LineFacts.ink_of_isRow h hrow
  unfold openerOf?
  rw [LineFacts.fence_of_isRow h hrow, LineFacts.zone_eq_none hink (by decide),
    LineFacts.heading_eq_none h (by simp [hink]),
    LineFacts.alert_eq_none (LineFacts.depth_of_isRow h hrow),
    LineFacts.marker_eq_none h hink (by decide)]
  split <;> rfl

/-- A line that starts as a heading does and is not quoted opens a heading or nothing. -/
theorem openerOf?_of_ink {strict : Bool} {l : LineFacts} {lines : List LineFacts}
    (h : l.Described) (hq : l.quote.depth = 0) (hink : l.ink? = some '#') :
    openerOf? strict l lines = l.heading.map .heading := by
  unfold openerOf? startsTable
  rw [LineFacts.fence_eq_none h (by simp [hink]) (by simp [hink]),
    LineFacts.zone_eq_none hink (by decide), LineFacts.alert_eq_none hq,
    LineFacts.isRow_eq_false h (by simp [hink]), LineFacts.marker_eq_none h hink (by decide)]
  cases l.heading <;> rfl

/-- A line that opens neither a heading nor a table opens the same in both readings. -/
theorem openerOf?_congr {strict strict' : Bool} {l l' : LineFacts} {lines lines' : List LineFacts}
    (hl : l.unheaded = l'.unheaded) (hrow : l.isRow = false) (hheading : l.heading = none)
    (hheading' : l'.heading = none) :
    openerOf? strict l lines = openerOf? strict' l' lines' := by
  obtain rfl : l = l' := by
    cases l
    cases l'
    simp only [LineFacts.unheaded] at hl hheading hheading'
    subst hheading
    subst hheading'
    exact hl
  unfold openerOf? startsTable
  rw [hrow]
  rfl

/-- A heading of a strict reading is one of a lenient reading. -/
theorem ofLine?_of_strict {text : List Char} {heading : Heading}
    (h : Heading.ofLine? true text = some heading) : Heading.ofLine? false text = some heading := by
  unfold Heading.ofLine? at h ⊢
  simp only [Option.ite_none_left_eq_some] at h ⊢
  refine ⟨fun hbad => h.1 ?_, h.2⟩
  simp only [Bool.false_and, Bool.or_false] at hbad
  rw [hbad]
  rfl

theorem heading_of_strict {line : Line} {heading : Heading}
    (h : (LineFacts.ofLine true line).heading = some heading) :
    (LineFacts.ofLine false line).heading = some heading := by
  obtain ⟨hplain, htext⟩ := Option.ite_none_right_eq_some.mp h
  exact Option.ite_none_right_eq_some.mpr ⟨hplain, ofLine?_of_strict htext⟩

/-- A line opens the same block in both readings, or a heading or a table in the lenient one
alone. -/
theorem openerOf?_describe (line : Line) (raw : List Line) :
    openerOf? true (LineFacts.ofLine true line) (describe true raw) =
        openerOf? false (LineFacts.ofLine false line) (describe false raw) ∨
      openerOf? true (LineFacts.ofLine true line) (describe true raw) = none ∧
        ((∃ heading, openerOf? false (LineFacts.ofLine false line) (describe false raw) =
            some (.heading heading)) ∨
          (LineFacts.ofLine true line).isRow = true ∧
            openerOf? false (LineFacts.ofLine false line) (describe false raw) = some .table) := by
  have hstrict : (LineFacts.ofLine true line).Described := ⟨true, line, rfl⟩
  have hlenient : (LineFacts.ofLine false line).Described := ⟨false, line, rfl⟩
  have hsame : (LineFacts.ofLine true line).unheaded = (LineFacts.ofLine false line).unheaded :=
    LineFacts.unheaded_ofLine true false line
  cases hrow : (LineFacts.ofLine true line).isRow with
  | true =>
    -- Every row opens a table leniently, but only one before a separator does so strictly.
    have hrow' : (LineFacts.ofLine false line).isRow = true := hrow
    rw [openerOf?_of_isRow hstrict hrow, openerOf?_of_isRow hlenient hrow']
    rw [show startsTable false (LineFacts.ofLine false line) (describe false raw) = true by
      simp [startsTable, hrow']]
    split
    · exact Or.inl rfl
    · exact Or.inr ⟨rfl, Or.inr ⟨rfl, rfl⟩⟩
  | false =>
    cases hheading : (LineFacts.ofLine false line).heading with
    | none =>
      refine Or.inl (openerOf?_congr hsame hrow ?_ hheading)
      cases hheading' : (LineFacts.ofLine true line).heading with
      | none => rfl
      | some heading => cases hheading.symm.trans (heading_of_strict hheading')
    | some heading =>
      -- The line starts as a heading does, so it opens nothing else strictly.
      have hink := LineFacts.ink_of_heading hlenient hheading
      have hq : (LineFacts.ofLine false line).quote.depth = 0 :=
        beq_iff_eq.mp (Option.ite_none_right_eq_some.mp hheading).1
      rw [openerOf?_of_ink hstrict hq hink, openerOf?_of_ink hlenient hq hink, hheading]
      cases hheading' : (LineFacts.ofLine true line).heading with
      | none => exact Or.inr ⟨rfl, Or.inl ⟨heading, rfl⟩⟩
      | some heading' => exact Or.inl (by rw [hheading.symm.trans (heading_of_strict hheading')])

/-! ## Blocks -/

/-- A builder that does not look at headings builds the same block in both readings and leaves the
same lines. -/
theorem taken_describe {take : (l : LineFacts) → (lines : List LineFacts) → Taken lines}
    (htake : ∀ l lines, (take l lines).Unheaded (take l.unheaded (unheaded lines)))
    (line : Line) (raw : List Line) :
    (take (LineFacts.ofLine true line) (describe true raw)).block =
        (take (LineFacts.ofLine false line) (describe false raw)).block ∧
      ∃ later, later <:+ raw ∧
        (take (LineFacts.ofLine true line) (describe true raw)).rest = describe true later ∧
        (take (LineFacts.ofLine false line) (describe false raw)).rest = describe false later := by
  -- Both readings are compared with the one that has forgotten the headings.
  have htrue := htake (LineFacts.ofLine true line) (describe true raw)
  have hfalse := htake (LineFacts.ofLine false line) (describe false raw)
  have hblock := htrue.block
  have hrest := htrue.rest
  rw [unheaded_describe] at hblock hrest
  exact ⟨hblock.symm.trans hfalse.block,
    exists_left (Taken.isSuffix _) (Taken.isSuffix _) (hrest.symm.trans hfalse.rest)⟩

/-- An opener other than a zone builds the same block in both readings and leaves the same lines. -/
theorem openBlock_describe {opener : Opener} (hopener : ∀ attributes, opener ≠ .zone attributes)
    (line : Line) (raw : List Line) :
    (openBlock source true opener (LineFacts.ofLine true line) (describe true raw)).block =
        (openBlock source false opener (LineFacts.ofLine false line) (describe false raw)).block ∧
      ∃ later, later <:+ raw ∧
        (openBlock source true opener (LineFacts.ofLine true line) (describe true raw)).rest =
          describe true later ∧
        (openBlock source false opener (LineFacts.ofLine false line) (describe false raw)).rest =
          describe false later := by
  cases opener with
  | zone attributes => exact absurd rfl (hopener attributes)
  | fence f =>
    simp only [openBlock]
    exact taken_describe (fun l => unheaded_fenceBlock l f) line raw
  | heading h =>
    simp only [openBlock]
    exact ⟨rfl, raw, List.suffix_rfl, rfl, rfl⟩
  | note name =>
    simp only [openBlock]
    exact taken_describe (fun l => unheaded_noteBlock l name) line raw
  | table =>
    simp only [openBlock]
    exact taken_describe unheaded_tableBlock line raw
  | list marker =>
    simp only [openBlock]
    exact taken_describe (unheaded_takeList 0 marker) line raw

/-- A zone takes the same lines in both readings. -/
theorem exists_zoneLines (raw : List Line) :
    ∃ inner outer, raw = inner ++ outer ∧ ∀ strict,
      zoneInner (describe strict raw) = describe strict inner ∧
        zoneOuter (describe strict raw) = describe strict outer :=
  exists_run (p := fun c => !isZoneEnd c.text) (fun _ => rfl) raw

/-- Headings do not matter for a zone but for what is inside it. -/
theorem zoneBlock_unheaded (l : LineFacts) (attributes : List Char) (lines : List LineFacts)
    (children : List Block) :
    zoneBlock source l.unheaded attributes (unheaded lines) children =
      zoneBlock source l attributes lines children := by
  have hinner : zoneInner (unheaded lines) = unheaded (zoneInner lines) :=
    takeWhile_unheaded (p := fun c => !isZoneEnd c.text) (fun _ => rfl) lines
  have houter : zoneOuter (unheaded lines) = unheaded (zoneOuter lines) :=
    dropWhile_unheaded (p := fun c => !isZoneEnd c.text) (fun _ => rfl) lines
  unfold zoneBlock
  rw [hinner, houter, lastLine_unheaded, head?_unheaded]
  cases (zoneOuter lines).head? <;> rfl

theorem zoneBlock_describe (line : Line) (attributes : List Char) (raw : List Line)
    (children : List Block) :
    zoneBlock source (LineFacts.ofLine true line) attributes (describe true raw) children =
      zoneBlock source (LineFacts.ofLine false line) attributes (describe false raw) children := by
  rw [← zoneBlock_unheaded, ← zoneBlock_unheaded (LineFacts.ofLine false line), unheaded_describe]
  rfl

/-! ## Kinds -/

theorem kind_headingBlock (source : List Char) (l : LineFacts) (h : Heading) :
    (headingBlock source l h).kind = .header ∨ (headingBlock source l h).kind = .conceptualTab := by
  unfold headingBlock
  split
  · exact Or.inr rfl
  · exact Or.inl rfl

/-- Only a line that opens a zone builds a zone. -/
theorem isZone_openBlock {strict : Bool} {opener : Opener}
    (hopener : ∀ attributes, opener ≠ .zone attributes) (l : LineFacts) (lines : List LineFacts) :
    (openBlock source strict opener l lines).block.isZone = false := by
  cases opener with
  | zone attributes => exact absurd rfl (hopener attributes)
  | fence f =>
    obtain ⟨tag, hblock⟩ := exists_fenceBlock_eq source l f lines
    simp only [openBlock, hblock]
    rfl
  | heading h =>
    simp only [openBlock, Block.isZone]
    rcases kind_headingBlock source l h with hkind | hkind <;> simp [hkind]
  | note name =>
    obtain ⟨content, hblock, -⟩ := exists_noteBlock_eq source l name lines
    simp only [openBlock, hblock]
    rfl
  | table =>
    simp only [openBlock]
    rfl
  | list marker =>
    simp only [openBlock]
    rw [takeList]
    show (listKind marker == .zonePivot) = false
    unfold listKind
    split <;> rfl

/-! ## Pending paragraphs -/

/-- What is pending leniently lies within what is pending strictly. -/
def Encloses (wide narrow : Option Span) : Prop :=
  ∀ q ∈ narrow, ∃ p ∈ wide, p.contains q = true

theorem encloses_none (wide : Option Span) : Encloses wide none :=
  nofun

/-- A paragraph grows when it takes one more line. -/
theorem contains_extendParagraph {lo : Nat} {s : Span} {l : LineFacts} {lines : List LineFacts}
    (hready : (Stage.lines (some s)).Ready source lo) (horder : InOrder source lo (l :: lines)) :
    (extendParagraph (some s) l).contains s = true := by
  obtain ⟨-, -, -, hstop⟩ := hready
  refine Span.contains_iff.mpr ⟨Nat.le_refl _, ?_⟩
  exact hstop.trans (horder.le_start.trans l.start_le_stop)

theorem encloses_of_contains {p q : Span} (h : p.contains q = true) :
    Encloses (some p) (some q) := by
  intro q' hq
  obtain rfl := Option.some.inj hq
  exact ⟨p, rfl, h⟩

theorem Encloses.trans {a b c : Option Span} (hab : Encloses a b) (hbc : Encloses b c) :
    Encloses a c := by
  intro s hs
  obtain ⟨q, hq, hqs⟩ := hbc s hs
  obtain ⟨p, hp, hpq⟩ := hab q hq
  exact ⟨p, hp, Span.contains_trans hpq hqs⟩

/-- The strict reading takes a line into its paragraph, and the lenient one does not. -/
theorem Encloses.text {lo : Nat} {wide narrow : Option Span} {l : LineFacts}
    {lines : List LineFacts} (h : Encloses wide narrow)
    (hready : (Stage.lines wide).Ready source lo) (horder : InOrder source lo (l :: lines)) :
    Encloses (some (extendParagraph wide l)) narrow := by
  cases wide with
  | none => exact (encloses_none _).trans h
  | some s => exact (encloses_of_contains (contains_extendParagraph hready horder)).trans h

/-- Both pending paragraphs take the same line. -/
theorem Encloses.extend {lo : Nat} {wide narrow : Option Span} {l l' : LineFacts}
    {lines : List LineFacts} (h : Encloses wide narrow)
    (hready : (Stage.lines wide).Ready source lo) (horder : InOrder source lo (l :: lines))
    (hstart : l'.start = l.start) (hstop : l'.stop = l.stop) :
    Encloses (some (extendParagraph wide l)) (some (extendParagraph narrow l')) := by
  intro q hq
  obtain rfl := Option.some.inj hq
  refine ⟨_, rfl, Span.contains_iff.mpr ⟨?_, Nat.le_of_eq hstop⟩⟩
  cases narrow with
  | some n =>
    obtain ⟨w, hw, hcontains⟩ := h n rfl
    obtain rfl := Option.mem_def.mp hw
    exact (Span.contains_iff.mp hcontains).1
  | none =>
    cases wide with
    | none => exact Nat.le_of_eq hstart.symm
    | some w =>
      obtain ⟨-, -, hlt, hle⟩ := hready
      show w.start ≤ l'.start
      rw [hstart]
      exact hlt.le.trans (hle.trans horder.le_start)

theorem exists_paragraph_append (s : Span) (blocks : List Block) :
    ∃ p ∈ paragraph source (some s) ++ blocks,
      p.kind = .paragraph ∧ p.span.contains s = true :=
  ⟨_, List.mem_append_left blocks (List.mem_singleton_self _), rfl, Span.contains_self s⟩

/-- A pending paragraph comes to lie within a paragraph. -/
theorem exists_paragraph (strict : Bool) {lo : Nat} {s : Span} {lines : List LineFacts}
    (horder : InOrder source lo lines) (hready : (Stage.lines (some s)).Ready source lo) :
    ∃ p ∈ readLines source strict (some s) lines,
      p.kind = .paragraph ∧ p.span.contains s = true := by
  induction lines generalizing lo s with
  | nil =>
    rw [readLines]
    simpa using exists_paragraph_append s []
  | cons l lines ih =>
    cases hblank : l.isBlank with
    | true =>
      rw [readLines_of_blank _ _ hblank]
      exact exists_paragraph_append s _
    | false =>
      cases hopener : openerOf? strict l lines with
      | some opener =>
        rw [readLines_of_opener _ hblank hopener]
        exact exists_paragraph_append s _
      | none =>
        rw [readLines_of_text _ hblank hopener]
        obtain ⟨p, hp, hkind, hcontains⟩ := ih horder.2.2 (hready.extendParagraph horder hblank)
        exact ⟨p, hp, hkind, Span.contains_trans hcontains (contains_extendParagraph hready horder)⟩

/-- Pending paragraphs that end in both readings. -/
theorem demotes_paragraph {wide narrow : Option Span} (h : Encloses wide narrow) :
    Block.Demotes (paragraph source wide) (paragraph source narrow) := by
  cases narrow with
  | some q =>
    obtain ⟨p, hp, hcontains⟩ := h q rfl
    obtain rfl := Option.mem_def.mp hp
    exact .paragraph rfl rfl hcontains
  | none =>
    cases wide with
    | none => exact .nil
    | some p => exact .paragraph_strict rfl

/-- A pending paragraph that ends in the lenient reading alone. -/
theorem demotes_paragraph_lenient {s : Span} {narrow : Option Span} {strict : Bool} {lo : Nat}
    {lines : List LineFacts} {blocks : List Block} (hencloses : Encloses (some s) narrow)
    (horder : InOrder source lo lines) (hready : (Stage.lines (some s)).Ready source lo)
    (h : Block.Demotes (readLines source strict (some s) lines) blocks) :
    Block.Demotes (readLines source strict (some s) lines) (paragraph source narrow ++ blocks) := by
  cases narrow with
  | none => exact h
  | some q =>
    refine h.cons_lenient rfl rfl fun _ => ?_
    obtain ⟨p, hp, hkind, hcontains⟩ := exists_paragraph strict horder hready
    obtain ⟨s', hs, hsq⟩ := hencloses q rfl
    obtain rfl := Option.some.inj hs
    exact ⟨p, hp, hkind, Span.contains_trans hcontains hsq⟩

/-! ## Runs of rows -/

/-- Both readings find the same run of rows. -/
theorem exists_rows (raw : List Line) :
    ∃ run rest, raw = run ++ rest ∧ (∀ u ∈ describe true run, u.isRow = true) ∧
      (∀ u ∈ (describe true rest).head?, u.isRow = false) ∧
      ∀ strict, (describe strict raw).dropWhile LineFacts.isRow = describe strict rest := by
  obtain ⟨run, rest, rfl, hlines⟩ := exists_run (p := LineFacts.isRow) (fun _ => rfl) raw
  refine ⟨run, rest, rfl, ?_, ?_, fun strict => (hlines strict).2⟩
  · intro u hu
    rw [← (hlines true).1] at hu
    exact List.mem_takeWhile_imp hu
  · intro u hu
    have hhead := List.head?_dropWhile_not LineFacts.isRow (describe true (run ++ rest))
    rw [(hlines true).2, Option.mem_def.mp hu] at hhead
    simpa using hhead

section Rows

variable {lo : Nat} {run rest : List LineFacts}

theorem takeWhile_isRow (hrun : ∀ u ∈ run, u.isRow = true)
    (hrest : ∀ u ∈ rest.head?, u.isRow = false) :
    (run ++ rest).takeWhile LineFacts.isRow = run := by
  rw [List.takeWhile_append_of_pos hrun]
  cases rest with
  | nil => simp
  | cons u rest => rw [List.takeWhile_cons_of_neg (by simp [hrest u rfl]), List.append_nil]

theorem rest_tableBlock (l : LineFacts) (hrun : ∀ u ∈ run, u.isRow = true)
    (hrest : ∀ u ∈ rest.head?, u.isRow = false) :
    (tableBlock source l (run ++ rest)).rest = rest := by
  show (run ++ rest).dropWhile LineFacts.isRow = rest
  rw [List.dropWhile_append_of_pos hrun]
  cases rest with
  | nil => rfl
  | cons u rest => rw [List.dropWhile_cons_of_neg (by simp [hrest u rfl])]

/-- The strict reading of a run of rows with a paragraph pending. Either the paragraph takes all of
them, or a table starts at one of them and takes the rest of the run. -/
theorem strictRows {s : Span} (hrun : ∀ u ∈ run, u.isRow = true)
    (hrest : ∀ u ∈ rest.head?, u.isRow = false) (horder : InOrder source lo (run ++ rest))
    (hready : (Stage.lines (some s)).Ready source lo) :
    ∃ s', s'.contains s = true ∧
      ((∃ lo', InOrder source lo' rest ∧ (Stage.lines (some s')).Ready source lo' ∧
          readLines source true (some s) (run ++ rest) = readLines source true (some s') rest) ∨
        ∃ before u more, run = before ++ u :: more ∧
          readLines source true (some s) (run ++ rest) = paragraph source (some s') ++
            (tableBlock source u (more ++ rest)).block :: readLines source true none rest) := by
  induction run generalizing lo s with
  | nil => exact ⟨s, Span.contains_self s, Or.inl ⟨lo, horder, hready, rfl⟩⟩
  | cons u run ih =>
    have hrow := hrun u List.mem_cons_self
    have hmore : ∀ v ∈ run, v.isRow = true := fun v hv => hrun v (List.mem_cons_of_mem u hv)
    have hdescribed := horder.2.1.described
    have hblank : u.isBlank = false :=
      LineFacts.isBlank_of_ink hdescribed (LineFacts.ink_of_isRow hdescribed hrow)
    have hopener := @openerOf?_of_isRow true u (run ++ rest) hdescribed hrow
    by_cases hstarts : startsTable true u (run ++ rest) = true
    · rw [if_pos hstarts] at hopener
      refine ⟨s, Span.contains_self s, Or.inr ⟨[], u, run, rfl, ?_⟩⟩
      rw [List.cons_append, readLines_of_opener _ hblank hopener]
      simp only [openBlock]
      rw [rest_tableBlock u hmore hrest]
    · rw [if_neg hstarts] at hopener
      obtain ⟨s', hcontains, hend⟩ := ih hmore horder.2.2 (hready.extendParagraph horder hblank)
      refine ⟨s', Span.contains_trans hcontains (contains_extendParagraph hready horder), ?_⟩
      rw [List.cons_append, readLines_of_text _ hblank hopener]
      rcases hend with hall | ⟨before, v, more, rfl, hread⟩
      · exact Or.inl hall
      · exact Or.inr ⟨u :: before, v, more, rfl, hread⟩

/-- A table that starts later in a run of rows ends where the table of the run does. -/
theorem demotes_tableBlock {l u : LineFacts} {before more : List LineFacts}
    (hrun : ∀ v ∈ before ++ u :: more, v.isRow = true)
    (hrest : ∀ v ∈ rest.head?, v.isRow = false)
    (horder : InOrder source lo (l :: (before ++ u :: more ++ rest))) :
    Block.Demotes [(tableBlock source u (more ++ rest)).block]
      [(tableBlock source l (before ++ u :: more ++ rest)).block] := by
  have hmore : ∀ v ∈ more, v.isRow = true := by
    intro v hv
    exact hrun v (by simp [hv])
  have hspan := (takesRun_tableBlock horder).span
  rw [takeWhile_isRow hrun hrest] at hspan
  have hlater : InOrder source l.line.stop (before ++ u :: (more ++ rest)) := by
    simpa using horder.2.2
  obtain ⟨lo', -, -, horder'⟩ := hlater.right
  have hspan' := (takesRun_tableBlock horder').span
  rw [takeWhile_isRow hmore hrest] at hspan'
  have hlast : lastLine l (before ++ u :: more) = lastLine u more := by
    simp [lastLine, List.getLast?_append, List.getLast?_cons]
  rw [hlast] at hspan
  have hstart : l.start ≤ u.start := by
    have h1 := horder.start_le_line_stop
    have h2 := hlater.le_line_start (List.mem_append_right _ List.mem_cons_self)
    have h3 := horder'.2.1.line_start_le
    have h4 := u.content_start_le_start
    omega
  refine .table rfl rfl ?_ ?_
  · rw [hspan, hspan']
    exact Span.contains_iff.mpr ⟨hstart, Nat.le_refl _⟩
  · rw [hspan, hspan']

end Rows

/-! ## The two readings -/

/-- A first row that is a table for the lenient reading alone. -/
theorem demotes_rows {lo : Nat} {s : Span} {narrow : Option Span} {l : LineFacts}
    {run rest : List LineFacts} {blocks : List Block} (hencloses : Encloses (some s) narrow)
    (hrun : ∀ u ∈ run, u.isRow = true) (hrest : ∀ u ∈ rest.head?, u.isRow = false)
    (horder : InOrder source lo (l :: (run ++ rest)))
    (hready : (Stage.lines (some s)).Ready source l.line.stop)
    (h : ∀ {wide mid}, InOrder source mid rest → (Stage.lines wide).Ready source mid →
      Block.Demotes (readLines source true wide rest) blocks) :
    Block.Demotes (readLines source true (some s) (run ++ rest))
      (paragraph source narrow ++ (tableBlock source l (run ++ rest)).block :: blocks) := by
  obtain ⟨s', hcontains, hend⟩ := strictRows hrun hrest horder.2.2 hready
  have hencloses' : Encloses (some s') narrow := (encloses_of_contains hcontains).trans hencloses
  rcases hend with ⟨mid, hmid, hready', hread⟩ | ⟨before, u, more, rfl, hread⟩
  · rw [hread]
    exact demotes_paragraph_lenient hencloses' hmid hready'
      ((h hmid hready').cons_lenient rfl rfl nofun)
  · rw [hread]
    have hlater : InOrder source l.line.stop (before ++ u :: more ++ rest) := horder.2.2
    obtain ⟨mid, -, -, hmid⟩ := hlater.right
    exact (demotes_paragraph hencloses').append
      ((demotes_tableBlock hrun hrest horder).append (h hmid trivial))

/-- An opener that is the same for both readings, in front of the lines it leaves. -/
theorem demotes_opened {opener : Opener} {line : Line} {raw : List Line}
    (hrest : ∀ later, later <:+ raw →
      Block.Demotes (readLines source true none (describe true later))
        (readLines source false none (describe false later)))
    (hinner : ∀ inner, inner <+: raw →
      Block.Demotes (readLines source true none (describe true inner))
        (readLines source false none (describe false inner))) :
    Block.Demotes
      ((openBlock source true opener (LineFacts.ofLine true line) (describe true raw)).block ::
        readLines source true none
          (openBlock source true opener (LineFacts.ofLine true line) (describe true raw)).rest)
      ((openBlock source false opener (LineFacts.ofLine false line) (describe false raw)).block ::
        readLines source false none
          (openBlock source false opener (LineFacts.ofLine false line)
            (describe false raw)).rest) := by
  by_cases hzone : ∃ attributes, opener = .zone attributes
  · obtain ⟨attributes, rfl⟩ := hzone
    obtain ⟨inner, outer, rfl, hlines⟩ := exists_zoneLines raw
    simp only [openBlock]
    rw [(hlines true).1, (hlines false).1, (hlines true).2, (hlines false).2]
    refine .cons (.zone rfl ?_ (hinner inner (List.prefix_append inner outer))) ?_
    · exact zoneBlock_describe line attributes (inner ++ outer) []
    · have htail : ∀ strict, (describe strict outer).tail = describe strict outer.tail :=
        fun strict => List.map_tail.symm
      rw [htail, htail]
      exact hrest _ ((List.tail_suffix outer).trans (List.suffix_append inner outer))
  · have hopener : ∀ attributes, opener ≠ .zone attributes := fun attributes h =>
      hzone ⟨attributes, h⟩
    obtain ⟨hblock, later, hsuffix, hstrict, hlenient⟩ :=
      @openBlock_describe source _ hopener line raw
    rw [hblock, hstrict, hlenient]
    exact .cons (.same (isZone_openBlock hopener _ _)) (hrest later hsuffix)

/-- A line that is a heading for the lenient reading alone. -/
theorem demotes_heading {lo : Nat} {s : Span} {narrow : Option Span} {l : LineFacts} {h : Heading}
    {lines : List LineFacts} {blocks : List Block} (hencloses : Encloses (some s) narrow)
    (horder : InOrder source lo lines) (hready : (Stage.lines (some s)).Ready source lo)
    (hlines : Block.Demotes (readLines source true (some s) lines) blocks) :
    Block.Demotes (readLines source true (some s) lines)
      (paragraph source narrow ++ headingBlock source l h :: blocks) := by
  refine demotes_paragraph_lenient hencloses horder hready (hlines.cons_lenient ?_ ?_ ?_)
  · rcases kind_headingBlock source l h with hkind | hkind <;>
      simp [Block.isSettled, hkind]
  · rcases kind_headingBlock source l h with hkind | hkind <;>
      simp [Block.isZone, hkind]
  · intro hparagraph
    rcases kind_headingBlock source l h with hkind | hkind <;>
      cases hparagraph.symm.trans hkind

/-- The lines of the strict reading and of the lenient one are read into forests that compare, as
long as what is pending strictly encloses what is pending leniently. -/
theorem demotes_readLines {raw : List Line} {lo : Nat} {wide narrow : Option Span}
    (horder : InOrder source lo (describe true raw)) (hready : (Stage.lines wide).Ready source lo)
    (hencloses : Encloses wide narrow) :
    Block.Demotes (readLines source true wide (describe true raw))
      (readLines source false narrow (describe false raw)) := by
  -- The induction is on the number of lines: an opener leaves fewer, and so does a zone inside it.
  induction hlength : raw.length using Nat.strongRecOn generalizing raw lo wide narrow with
  | ind n ih =>
  cases raw with
  | nil =>
    show Block.Demotes (readLines source true wide []) (readLines source false narrow [])
    rw [readLines, readLines]
    exact demotes_paragraph hencloses
  | cons line raw =>
    have hfewer : ∀ part : List Line, part.length ≤ raw.length → ∀ {wide narrow lo'},
        InOrder source lo' (describe true part) → (Stage.lines wide).Ready source lo' →
        Encloses wide narrow →
        Block.Demotes (readLines source true wide (describe true part))
          (readLines source false narrow (describe false part)) := by
      intro part hle wide narrow lo' horder' hready' hencloses'
      have hlt : part.length < n := by
        rw [← hlength]
        exact Nat.lt_succ_of_le hle
      exact ih part.length hlt horder' hready' hencloses' rfl
    -- Where nothing is pending: after a blank line or an opener, and inside a zone.
    have hopened : ∀ part, (∃ front after, raw = front ++ part ++ after) →
        Block.Demotes (readLines source true none (describe true part))
          (readLines source false none (describe false part)) := by
      intro part hpart
      obtain ⟨front, after, rfl⟩ := hpart
      have hall : InOrder source (LineFacts.ofLine true line).line.stop
          (describe true (front ++ part ++ after)) := horder.2.2
      rw [describe_append, describe_append] at hall
      obtain ⟨mid, -, -, hmid⟩ := hall.left.right
      refine hfewer part ?_ hmid trivial (encloses_none none)
      simp only [List.length_append]
      omega
    rw [describe_cons, describe_cons]
    cases hblank : (LineFacts.ofLine true line).isBlank with
    | true =>
      have hblank' : (LineFacts.ofLine false line).isBlank = true := hblank
      rw [readLines_of_blank _ _ hblank, readLines_of_blank _ _ hblank']
      exact (demotes_paragraph hencloses).append (hopened raw ⟨[], [], by simp⟩)
    | false =>
      have hblank' : (LineFacts.ofLine false line).isBlank = false := hblank
      have hready' := hready.extendParagraph horder hblank
      rcases openerOf?_describe line raw with hsame | ⟨hnone, ⟨heading, hheading⟩ | ⟨hrow, htable⟩⟩
      · cases hopener : openerOf? true (LineFacts.ofLine true line) (describe true raw) with
        | none =>
          -- Text for both readings.
          have hopener' := hsame.symm.trans hopener
          rw [readLines_of_text _ hblank hopener, readLines_of_text _ hblank' hopener']
          exact hfewer raw (Nat.le_refl _) horder.2.2 hready'
            (hencloses.extend hready horder rfl rfl)
        | some opener =>
          have hopener' := hsame.symm.trans hopener
          rw [readLines_of_opener _ hblank hopener, readLines_of_opener _ hblank' hopener']
          refine (demotes_paragraph hencloses).append (demotes_opened ?_ ?_)
          · rintro later ⟨front, rfl⟩
            exact hopened later ⟨front, [], by simp⟩
          · rintro inner ⟨after, rfl⟩
            exact hopened inner ⟨[], after, by simp⟩
      · -- A heading for the lenient reading; both go on with the next line.
        rw [readLines_of_text _ hblank hnone, readLines_of_opener _ hblank' hheading]
        simp only [openBlock]
        exact demotes_heading (hencloses.text hready horder) horder.2.2 hready'
          (hfewer raw (Nat.le_refl _) horder.2.2 hready' (encloses_none _))
      · -- A table for the lenient reading; both go on after the rows.
        obtain ⟨run, rest, rfl, hrun, hrest, hleft⟩ := exists_rows raw
        have hblock := (taken_describe (@unheaded_tableBlock source) line (run ++ rest)).1
        rw [readLines_of_text _ hblank hnone, readLines_of_opener _ hblank' htable]
        simp only [openBlock]
        rw [← hblock, show (tableBlock source _ (describe false (run ++ rest))).rest =
          describe false rest from hleft false, describe_append]
        rw [describe_cons, describe_append] at horder
        refine demotes_rows (hencloses.text hready horder) hrun hrest horder hready' ?_
        intro wide' mid hmid hready''
        refine hfewer rest ?_ hmid hready'' (encloses_none wide')
        rw [List.length_append]
        exact Nat.le_add_left _ _

/-- The strict reading of lines demotes the lenient one. -/
theorem demotes_blocksOf {raw : List Line} {lo : Nat}
    (horder : InOrder source lo (describe true raw)) :
    Block.Demotes (blocksOf source true (describe true raw))
      (blocksOf source false (describe false raw)) :=
  demotes_readLines horder trivial (encloses_none none)

end ArticleAudit.Markdown
