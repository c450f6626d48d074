import ArticleAudit.Markdown.Blocks
import ArticleAudit.Proofs.Markdown.ListSteps
import ArticleAudit.Proofs.Markdown.Runs

/-!
# How lines are built into blocks

`Builds` says which blocks are built from which lines, one rule for each branch of the builders. A
judgment names the lines that are used and the lines that are left, so that what a rule consumes is
read off its statement. Every builder satisfies it (`builds_listStages` for the stages of a
list, `builds_blocksOf` for whole documents); what holds of all built blocks is proved by
induction on it.
-/

set_option autoImplicit false

namespace ArticleAudit.Markdown

open ArticleAudit.Text

/-- Where the reading of lines stands: among lines with a paragraph pending, after a line that opens
a block, a list or an item, or among the items of a list or the deeper lines of an item. -/
inductive Stage
  | lines (pending : Option Span)
  | opener (opener : Opener) (l : LineFacts)
  | list (depth : Nat) (marker : ListMarker) (l : LineFacts)
  | items (depth : Nat) (marker : ListMarker)
  | item (depth : Nat) (marker : ListMarker) (l : LineFacts)
  | inner (depth indent : Nat)

/-- What a line opens that holds no blocks of other lines. -/
def leafBlock? (source : List Char) (opener : Opener) (l : LineFacts) (lines : List LineFacts) :
    Option (Taken lines) :=
  match opener with
  | .fence f => some (fenceBlock source l f lines)
  | .heading h => some ⟨headingBlock source l h, lines, List.suffix_rfl⟩
  | .note name => some (noteBlock source l name lines)
  | .table => some (tableBlock source l lines)
  | _ => none

/-- The lines that a zone takes, its last line included. -/
def zoneRun (lines : List LineFacts) : List LineFacts :=
  closedRun (fun c => !isZoneEnd c.text) lines

/-- From the first lines, of which the second ones are left, the blocks are built. -/
inductive Builds (source : List Char) (strict : Bool) :
    Stage → List LineFacts → List LineFacts → List Block → Prop
  | finish (pending : Option Span) :
    Builds source strict (.lines pending) [] [] (paragraph source pending)
  | blank {pending : Option Span} {l : LineFacts} {used : List LineFacts} {blocks : List Block} :
    l.isBlank = true → Builds source strict (.lines none) used [] blocks →
    Builds source strict (.lines pending) (l :: used) [] (paragraph source pending ++ blocks)
  | opened {pending : Option Span} {l : LineFacts} {opener : Opener} {used more : List LineFacts}
      {block : Block} {blocks : List Block} :
    l.isBlank = false → openerOf? strict l (used ++ more) = some opener →
    Builds source strict (.opener opener l) used more [block] →
    Builds source strict (.lines none) more [] blocks →
    Builds source strict (.lines pending) (l :: (used ++ more)) []
      (paragraph source pending ++ block :: blocks)
  | text {pending : Option Span} {l : LineFacts} {used : List LineFacts} {blocks : List Block} :
    l.isBlank = false → openerOf? strict l used = none →
    Builds source strict (.lines (some (extendParagraph pending l))) used [] blocks →
    Builds source strict (.lines pending) (l :: used) [] blocks
  | leaf {opener : Opener} {l : LineFacts} {lines used : List LineFacts} {taken : Taken lines} :
    leafBlock? source opener l lines = some taken → lines = used ++ taken.rest →
    Builds source strict (.opener opener l) used taken.rest [taken.block]
  | zone {attributes : List Char} {l : LineFacts} {lines : List LineFacts}
      {children : List Block} :
    Builds source strict (.lines none) (zoneInner lines) [] children →
    Builds source strict (.opener (.zone attributes) l) (zoneRun lines) (zoneOuter lines).tail
      [zoneBlock source l attributes lines children]
  | openedList {marker : ListMarker} {l : LineFacts} {used rest : List LineFacts}
      {block : Block} :
    Builds source strict (.list 0 marker l) used rest [block] →
    Builds source strict (.opener (.list marker) l) used rest [block]
  | list {depth : Nat} {marker : ListMarker} {l : LineFacts} {used more rest : List LineFacts}
      {item : Block} {items : List Block} :
    Builds source strict (.item depth marker l) used (more ++ rest) [item] →
    Builds source strict (.items depth marker) more rest items →
    Builds source strict (.list depth marker l) (used ++ more) rest
      [listBlock source depth marker l.start (item :: items)]
  | noItem {depth : Nat} {marker : ListMarker} {rest : List LineFacts} :
    Builds source strict (.items depth marker) [] rest []
  | blankItems {depth : Nat} {marker : ListMarker} {blanks used rest : List LineFacts}
      {items : List Block} :
    (∀ l ∈ blanks, l.isBlank = true) →
    Builds source strict (.items depth marker) used rest items →
    Builds source strict (.items depth marker) (blanks ++ used) rest items
  | nextItem {depth : Nat} {marker own : ListMarker} {l : LineFacts}
      {used more rest : List LineFacts} {item : Block} {items : List Block} :
    l.isBlank = false → itemMarker? marker l = some own →
    Builds source strict (.item depth own l) used (more ++ rest) [item] →
    Builds source strict (.items depth marker) more rest items →
    Builds source strict (.items depth marker) (l :: (used ++ more)) rest (item :: items)
  | item {depth : Nat} {marker : ListMarker} {l : LineFacts} {used rest : List LineFacts}
      {inner : List Block} :
    Builds source strict (.inner depth marker.indent) used rest inner →
    Builds source strict (.item depth marker l) used rest [itemBlock source depth marker l inner]
  | noInner {depth indent : Nat} {rest : List LineFacts} :
    Builds source strict (.inner depth indent) [] rest []
  | blankInner {depth indent : Nat} {blanks used rest : List LineFacts} {blocks : List Block} :
    (∀ l ∈ blanks, l.isBlank = true) →
    Builds source strict (.inner depth indent) used rest blocks →
    Builds source strict (.inner depth indent) (blanks ++ used) rest blocks
  | innerList {depth indent : Nat} {own : ListMarker} {l : LineFacts}
      {used more rest : List LineFacts} {list : Block} {blocks : List Block} :
    l.isBlank = false → indent < l.indent → l.marker = some own →
    Builds source strict (.list (deeper depth) own l) used (more ++ rest) [list] →
    Builds source strict (.inner depth indent) more rest blocks →
    Builds source strict (.inner depth indent) (l :: (used ++ more)) rest (list :: blocks)
  | innerFence {depth indent : Nat} {f : Fence} {l : LineFacts} {used more rest : List LineFacts}
      {fence : Block} {blocks : List Block} :
    l.isBlank = false → indent < l.indent → l.marker = none → l.fence = some f →
    Builds source strict (.opener (.fence f) l) used (more ++ rest) [fence] →
    Builds source strict (.inner depth indent) more rest blocks →
    Builds source strict (.inner depth indent) (l :: (used ++ more)) rest (fence :: blocks)
  | innerRow {depth indent : Nat} {l : LineFacts} {used rest : List LineFacts}
      {blocks : List Block} :
    l.isBlank = false → indent < l.indent → l.marker = none → l.fence = none →
    Builds source strict (.inner depth indent) used rest blocks →
    Builds source strict (.inner depth indent) (l :: used) rest (listRow source l :: blocks)

/-! ## The builders satisfy the judgment -/

variable {source : List Char} {strict : Bool}

/-- From some lines the blocks are built and the lines are left. -/
def BuildsFrom (source : List Char) (strict : Bool) (stage : Stage) (lines rest : List LineFacts)
    (blocks : List Block) : Prop :=
  ∃ used, lines = used ++ rest ∧ Builds source strict stage used rest blocks

theorem exists_blanks {l : LineFacts} (lines : List LineFacts) (hl : l.isBlank = true) :
    ∃ blanks, l :: lines = blanks ++ lines.dropWhile LineFacts.isBlank ∧
      ∀ b ∈ blanks, b.isBlank = true := by
  refine ⟨l :: lines.takeWhile LineFacts.isBlank, ?_, ?_⟩
  · rw [List.cons_append, List.takeWhile_append_dropWhile]
  · intro b hb
    rcases List.mem_cons.mp hb with rfl | hb
    · exact hl
    · exact List.mem_takeWhile_imp hb

theorem leaf_buildsFrom {opener : Opener} {l : LineFacts} {lines : List LineFacts}
    {taken : Taken lines} (h : leafBlock? source opener l lines = some taken) :
    BuildsFrom source strict (.opener opener l) lines taken.rest [taken.block] := by
  obtain ⟨used, hused⟩ := taken.isSuffix
  exact ⟨used, hused.symm, .leaf h hused.symm⟩

/-- A block that opens on the first line, and the blocks of the same kind of lines after it. -/
theorem BuildsFrom.cons {first later : Stage} {l : LineFacts} {lines mid rest : List LineFacts}
    {block : Block} {blocks : List Block}
    (hfirst : BuildsFrom source strict first lines mid [block])
    (hlater : BuildsFrom source strict later mid rest blocks)
    (hbuild : ∀ {used more : List LineFacts},
      Builds source strict first used (more ++ rest) [block] →
      Builds source strict later more rest blocks →
      Builds source strict later (l :: (used ++ more)) rest (block :: blocks)) :
    BuildsFrom source strict later (l :: lines) rest (block :: blocks) := by
  obtain ⟨used, rfl, hfirst⟩ := hfirst
  obtain ⟨more, rfl, hlater⟩ := hlater
  refine ⟨l :: (used ++ more), ?_, hbuild hfirst hlater⟩
  rw [List.cons_append, List.append_assoc]

/-- Blank lines before lines from which blocks are built. -/
theorem BuildsFrom.skip {stage : Stage} {l : LineFacts} {lines later rest : List LineFacts}
    {blocks : List Block} (h : BuildsFrom source strict stage later rest blocks)
    (hl : l.isBlank = true) (hdrop : lines.dropWhile LineFacts.isBlank = later)
    (hbuild : ∀ {blanks used : List LineFacts}, (∀ b ∈ blanks, b.isBlank = true) →
      Builds source strict stage used rest blocks →
      Builds source strict stage (blanks ++ used) rest blocks) :
    BuildsFrom source strict stage (l :: lines) rest blocks := by
  obtain ⟨used, rfl, h⟩ := h
  obtain ⟨blanks, hblanks, hall⟩ := exists_blanks lines hl
  refine ⟨blanks ++ used, ?_, hbuild hall h⟩
  rw [hblanks, hdrop, List.append_assoc]

/-- The four stages of a list, by the recursion of the functions that take it. -/
theorem builds_listStages (source : List Char) (strict : Bool) :
    (∀ depth marker l lines, BuildsFrom source strict (.list depth marker l) lines
      (takeList source depth marker l lines).rest [(takeList source depth marker l lines).block]) ∧
    (∀ depth marker lines, BuildsFrom source strict (.items depth marker) lines
      (takeItems source depth marker lines).rest (takeItems source depth marker lines).blocks) ∧
    (∀ depth marker l lines, BuildsFrom source strict (.item depth marker l) lines
      (takeItem source depth marker l lines).rest [(takeItem source depth marker l lines).block]) ∧
    (∀ depth indent lines, BuildsFrom source strict (.inner depth indent) lines
      (takeInner source depth indent lines).rest
      (takeInner source depth indent lines).blocks) := by
  apply take_induction source
  case list =>
    intro depth marker l lines hitem hitems
    obtain ⟨used, hused, hitem⟩ := hitem
    obtain ⟨more, hmore, hitems⟩ := hitems
    rw [takeList]
    refine ⟨used ++ more, ?_, .list ?_ hitems⟩
    · rw [List.append_assoc, ← hmore]
      exact hused
    · rw [← hmore]
      exact hitem
  case noItem =>
    intro depth marker lines hstop
    rw [takeItems_of_stops hstop]
    exact ⟨[], rfl, .noItem⟩
  case blankItems =>
    intro depth marker l lines next later hl hdrop hnext ih
    obtain ⟨hblocks, hrest⟩ := @takeItems_of_blanks source depth _ _ _ _ _ hl hdrop hnext
    rw [hblocks, hrest]
    exact ih.skip hl hdrop .blankItems
  case nextItem =>
    intro depth marker own l lines hl hown hitem hitems
    rw [takeItems_of_item hl hown]
    exact hitem.cons hitems (.nextItem (by simpa using hl) hown)
  case item =>
    intro depth marker l lines ih
    obtain ⟨used, hused, hinner⟩ := ih
    rw [takeItem]
    exact ⟨used, hused, .item hinner⟩
  case noInner =>
    intro depth indent lines hends
    rw [takeInner_of_ends hends]
    exact ⟨[], rfl, .noInner⟩
  case blankInner =>
    intro depth indent l lines next later hl hdrop hnext ih
    obtain ⟨hblocks, hrest⟩ := @takeInner_of_blanks source depth _ _ _ _ _ hl hdrop hnext
    rw [hblocks, hrest]
    exact ih.skip hl hdrop .blankInner
  case innerList =>
    intro depth indent own l lines hl hindent hown hlist hinner
    rw [takeInner_of_marker hl hindent hown]
    exact hlist.cons hinner (.innerList (by simpa using hl) hindent hown)
  case innerFence =>
    intro depth indent f l lines hl hindent hmarker hf hinner
    have hfence : BuildsFrom source strict (.opener (.fence f) l) lines
        (fenceBlock source l f lines).rest [(fenceBlock source l f lines).block] :=
      leaf_buildsFrom rfl
    rw [takeInner_of_fence hl hindent hmarker hf]
    exact hfence.cons hinner (.innerFence (by simpa using hl) hindent hmarker hf)
  case innerRow =>
    intro depth indent l lines hl hindent hmarker hf hinner
    obtain ⟨used, hused, hinner⟩ := hinner
    rw [takeInner_of_row hl hindent hmarker hf]
    exact ⟨l :: used, congrArg (l :: ·) hused,
      .innerRow (by simpa using hl) hindent hmarker hf hinner⟩

/-- Every opener leaves lines that are built on. -/
theorem builds_documentStages (source : List Char) (strict : Bool) :
    (∀ opener l lines, BuildsFrom source strict (.opener opener l) lines
      (openBlock source strict opener l lines).rest
      [(openBlock source strict opener l lines).block]) ∧
    (∀ pending lines, Builds source strict (.lines pending) lines []
      (readLines source strict pending lines)) := by
  apply openBlock.mutual_induct source strict
  case case1 =>
    intro l lines f
    rw [openBlock]
    exact leaf_buildsFrom rfl
  case case2 =>
    intro l lines attributes hinner
    rw [openBlock]
    exact ⟨zoneRun lines, (closedRun_append _ lines).symm, .zone hinner⟩
  case case3 =>
    intro l lines heading
    have hleaf : leafBlock? source (.heading heading) l lines =
        some ⟨headingBlock source l heading, lines, List.suffix_rfl⟩ := rfl
    rw [openBlock]
    exact leaf_buildsFrom hleaf
  case case4 =>
    intro l lines name
    rw [openBlock]
    exact leaf_buildsFrom rfl
  case case5 =>
    intro l lines
    rw [openBlock]
    exact leaf_buildsFrom rfl
  case case6 =>
    intro l lines marker
    obtain ⟨used, hused, hlist⟩ := (builds_listStages source strict).1 0 marker l lines
    rw [openBlock]
    exact ⟨used, hused, .openedList hlist⟩
  case case7 =>
    intro pending
    rw [readLines]
    exact .finish pending
  case case8 =>
    intro pending l lines hl ih
    rw [readLines, if_pos hl]
    exact .blank hl ih
  case case9 =>
    -- A block ends the pending paragraph and is followed by what its lines leave.
    intro pending l lines hl opener hopener taken hblock ih
    obtain ⟨used, hused, hblock⟩ := hblock
    have hopened : ∀ more block, lines = used ++ more →
        Builds source strict (.opener opener l) used more [block] →
        ∀ blocks, Builds source strict (.lines none) more [] blocks →
        Builds source strict (.lines pending) (l :: lines) []
          (paragraph source pending ++ block :: blocks) := by
      rintro more block rfl hblock blocks hblocks
      exact .opened (by simpa using hl) hopener hblock hblocks
    rw [readLines, if_neg hl, hopener]
    exact hopened _ _ hused hblock _ ih
  case case10 =>
    intro pending l lines hl hopener ih
    rw [readLines, if_neg hl, hopener]
    exact .text (by simpa using hl) hopener ih

theorem builds_blocksOf (source : List Char) (strict : Bool) (lines : List LineFacts) :
    Builds source strict (.lines none) lines [] (blocksOf source strict lines) :=
  (builds_documentStages source strict).2 none lines

end ArticleAudit.Markdown
