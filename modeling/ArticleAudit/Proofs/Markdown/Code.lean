import ArticleAudit.Proofs.Markdown.Leaves
import ArticleAudit.Proofs.Markdown.Marks

/-!
# Fenced code in lines

`codesOf` reads fenced code off the lines alone: a fence opens it, and it takes the lines up to the
one that closes the fence. Main statement: `Builds.codeSpans_eq`. In lines that end no zone, the
blocks of fenced code at every depth, in lists and in zones too, are exactly the code that is read
off the lines. This needs that a fence is the only mark of its line, since the builders look for
other marks first where they take rows, quoted lines and items.
-/

set_option autoImplicit false

namespace ArticleAudit.Markdown

open ArticleAudit.Text

variable {source : List Char} {strict : Bool}

/-! ## Code -/

/-- Fenced code: its opening line with the fence, the lines in it, and the line that closes it. -/
structure Code where
  opening : LineFacts
  fence : Fence
  body : List LineFacts
  closing? : Option LineFacts
  deriving DecidableEq, Repr

namespace Code

/-- The code that a fence opens, given the lines after its line. -/
def ofLines (l : LineFacts) (f : Fence) (lines : List LineFacts) : Code :=
  ⟨l, f, fenceBody f lines, fenceClosing? f lines⟩

/-- The span of the code: from its opening line to its last line. -/
def span (c : Code) : Span :=
  ⟨c.opening.start, max (lastLine c.opening (c.body ++ c.closing?.toList)).stop c.opening.start⟩

end Code

/-- The lines after fenced code. -/
def fenceRest (f : Fence) (lines : List LineFacts) : List LineFacts :=
  (lines.dropWhile fun c => !f.isClosedBy c.fence).tail

theorem length_fenceRest_le (f : Fence) (lines : List LineFacts) :
    (fenceRest f lines).length ≤ lines.length :=
  ((List.tail_suffix _).trans (List.dropWhile_suffix _)).length_le

/-- The fenced code in lines. -/
def codesOf (lines : List LineFacts) : List Code :=
  match lines with
  | [] => []
  | l :: lines =>
    match l.fence with
    | none => codesOf lines
    | some f => .ofLines l f lines :: codesOf (fenceRest f lines)
termination_by lines.length
decreasing_by
  · simp
  · exact Nat.lt_succ_of_le (length_fenceRest_le f lines)

theorem codesOf_nil : codesOf [] = [] := by
  rw [codesOf]

theorem codesOf_cons_plain {l : LineFacts} (lines : List LineFacts) (h : l.fence = none) :
    codesOf (l :: lines) = codesOf lines := by
  rw [codesOf, h]

theorem codesOf_cons_fence {l : LineFacts} {f : Fence} (lines : List LineFacts)
    (h : l.fence = some f) :
    codesOf (l :: lines) = .ofLines l f lines :: codesOf (fenceRest f lines) := by
  rw [codesOf, h]

theorem codesOf_append_plain {used : List LineFacts} (rest : List LineFacts)
    (h : ∀ u ∈ used, u.fence = none) : codesOf (used ++ rest) = codesOf rest := by
  induction used with
  | nil => rfl
  | cons u used ih =>
    obtain ⟨hu, hused⟩ := List.forall_mem_cons.mp h
    rw [List.cons_append, codesOf_cons_plain _ hu, ih hused]

/-! ## Plain blocks -/

/-- A block that is neither fenced code nor a zone. -/
def Ordinary (b : Block) : Prop :=
  b.kind ≠ .codeFence ∧ b.kind ≠ .zonePivot

/-- The kinds of blocks other than lists, their items, fenced code and zones. -/
def isPlainKind : BlockKind → Bool
  | .bulletedList | .numberedList | .listItem | .codeFence | .zonePivot => false
  | _ => true

/-- A block of a plain kind. -/
def Plain (b : Block) : Prop :=
  isPlainKind b.kind = true

theorem ordinary_of_plain {blocks : List Block} (h : Block.Throughout Plain blocks) :
    Block.Throughout Ordinary blocks := by
  refine h.mono fun b hb => ⟨?_, ?_⟩ <;>
  · intro hkind
    rw [Plain, hkind] at hb
    cases hb

/-- One block of a plain kind around plain blocks. -/
theorem plain_singleton {b : Block} (h : Plain b)
    (hchildren : Block.Throughout Plain b.children) : Block.Throughout Plain [b] :=
  Block.throughout_cons.mpr ⟨h, hchildren, Block.throughout_nil⟩

/-- A part of another block is neither a list nor code nor a zone. -/
theorem plain_of_part {b : Block} (h : Part b) : Plain b := by
  unfold Part at h
  unfold Plain
  revert h
  cases b.kind <;> decide

theorem plain_linkBlocks (base : Nat) (cs : List Char) :
    Block.Throughout Plain (linkBlocks base cs) :=
  (part_linkBlocks base cs).mono fun _ => plain_of_part

theorem plain_fenceChildren (language : List Char) (lines : List LineFacts) :
    Block.Throughout Plain (fenceChildren language lines) :=
  (part_fenceChildren language lines).mono fun _ => plain_of_part

theorem plain_paragraph (pending : Option Span) :
    Block.Throughout Plain (paragraph source pending) := by
  apply Block.throughout_of_mem
  intro b hb
  obtain ⟨hkind, hparts⟩ := parts_paragraph hb
  refine ⟨?_, hparts.mono fun _ => plain_of_part⟩
  rw [Plain, hkind]
  rfl

theorem plain_headingBlock (l : LineFacts) (h : Heading) :
    Block.Throughout Plain [headingBlock source l h] := by
  obtain ⟨hkind | hkind, hparts⟩ := parts_headingBlock source l h
  · exact plain_singleton (by rw [Plain, hkind]; rfl) (hparts.mono fun _ => plain_of_part)
  · exact plain_singleton (by rw [Plain, hkind]; rfl) (hparts.mono fun _ => plain_of_part)

theorem plain_noteBlock (l : LineFacts) (name : List Char) (lines : List LineFacts) :
    Block.Throughout Plain [(noteBlock source l name lines).block] := by
  obtain ⟨hkind, hparts⟩ := parts_noteBlock source l name lines
  exact plain_singleton (by rw [Plain, hkind]; rfl) (hparts.mono fun _ => plain_of_part)

theorem plain_tableBlock (l : LineFacts) (lines : List LineFacts) :
    Block.Throughout Plain [(tableBlock source l lines).block] :=
  plain_singleton rfl ((parts_tableBlock source l lines).2.mono fun _ => plain_of_part)

theorem plain_listRow (l : LineFacts) : Block.Throughout Plain [listRow source l] :=
  plain_singleton rfl (plain_linkBlocks _ _)

/-- What holds of plain blocks and of fenced code holds of a block of lines that hold no blocks. -/
theorem throughout_leaf {P : Block → Prop} (hplain : ∀ b, Plain b → P b)
    (hcode : ∀ b, b.kind = .codeFence → P b) {opener : Opener} {l : LineFacts}
    {lines : List LineFacts} {taken : Taken lines}
    (h : leafBlock? source opener l lines = some taken) : Block.Throughout P [taken.block] := by
  obtain ⟨hkind, hparts⟩ := parts_leaf h
  refine Block.throughout_cons.mpr
    ⟨?_, hparts.mono fun b hb => hplain b (plain_of_part hb), Block.throughout_nil⟩
  by_cases hfence : taken.block.kind = .codeFence
  · exact hcode _ hfence
  · apply hplain
    unfold Plain
    revert hkind hfence
    cases taken.block.kind <;> decide

/-! ## Blocks of code -/

/-- The spans of the blocks of fenced code in a forest. -/
def codeSpans (blocks : List Block) : List Span :=
  ((Block.preorderAll blocks).filter (·.kind == .codeFence)).map (·.span)

theorem codeSpans_append (a b : List Block) : codeSpans (a ++ b) = codeSpans a ++ codeSpans b := by
  simp [codeSpans, Block.preorderAll_append]

theorem codeSpans_cons (b : Block) (rest : List Block) :
    codeSpans (b :: rest) = codeSpans [b] ++ codeSpans rest :=
  codeSpans_append [b] rest

theorem codeSpans_of_ordinary {blocks : List Block} (h : Block.Throughout Ordinary blocks) :
    codeSpans blocks = [] := by
  rw [codeSpans, List.filter_eq_nil_iff.mpr]
  · rfl
  · intro b hb
    simpa using (h b hb).1

/-- A block that is no code has the code inside it. -/
theorem codeSpans_of_kind_ne {b : Block} (h : b.kind ≠ .codeFence) :
    codeSpans [b] = codeSpans b.children := by
  simp [codeSpans, Block.preorder_eq, h]

theorem codeSpans_of_kind_eq {b : Block} (h : b.kind = .codeFence) :
    codeSpans [b] = b.span :: codeSpans b.children := by
  simp [codeSpans, Block.preorder_eq, h]

theorem codeSpans_fenceBlock (l : LineFacts) (f : Fence) (lines : List LineFacts) :
    codeSpans [(fenceBlock source l f lines).block] = [(Code.ofLines l f lines).span] := by
  obtain ⟨tag, hblock⟩ := exists_fenceBlock_eq source l f lines
  rw [hblock, codeSpans_of_kind_eq rfl]
  show _ :: codeSpans (fenceChildren _ _) = _
  rw [codeSpans_of_ordinary (ordinary_of_plain (plain_fenceChildren _ _))]
  rfl

theorem codeSpans_itemBlock (depth : Nat) (marker : ListMarker) (l : LineFacts)
    (inner : List Block) : codeSpans [itemBlock source depth marker l inner] = codeSpans inner := by
  rw [codeSpans_of_kind_ne]
  · show codeSpans (linkBlocks _ _ ++ inner) = _
    rw [codeSpans_append, codeSpans_of_ordinary (ordinary_of_plain (plain_linkBlocks _ _)),
      List.nil_append]
  · nofun

theorem codeSpans_listBlock (depth : Nat) (marker : ListMarker) (start : Nat)
    (items : List Block) :
    codeSpans [listBlock source depth marker start items] = codeSpans items := by
  have hkind : (listBlock source depth marker start items).kind ≠ .codeFence := by
    show listKind marker ≠ _
    unfold listKind
    split <;> nofun
  rw [codeSpans_of_kind_ne hkind]
  rfl

theorem codeSpans_zoneBlock (l : LineFacts) (attributes : List Char) (lines : List LineFacts)
    (children : List Block) :
    codeSpans [zoneBlock source l attributes lines children] = codeSpans children := by
  rw [codeSpans_of_kind_ne]
  · rfl
  · nofun

/-! ## Built blocks -/

namespace Stage

/-- The line of a stage that is still to be read for code. -/
def opens : Stage → List LineFacts
  | .opener _ l => [l]
  | _ => []

/-- What a stage opens is code exactly when its line is a fence. -/
def OpensCode : Stage → Prop
  | .opener (.fence f) l => l.fence = some f
  | .opener _ l => l.fence = none
  | _ => True

end Stage

/-- The lines were read from a text and end no zone. -/
def EndNoZone (lines : List LineFacts) : Prop :=
  ∀ u ∈ lines, u.Described ∧ isZoneEnd u.text = false

/-- The code in the lines of a stage is the code in its blocks, followed by that in the lines it
leaves. -/
def ReadsCode (stage : Stage) (used rest : List LineFacts) (blocks : List Block) : Prop :=
  stage.OpensCode → EndNoZone (used ++ rest) →
    ∃ codes, codesOf (stage.opens ++ (used ++ rest)) = codes ++ codesOf rest ∧
      codeSpans blocks = codes.map Code.span

/-- Only fences open code. -/
theorem opensCode_of_openerOf? {l : LineFacts} {rest : List LineFacts} {opener : Opener}
    (h : openerOf? strict l rest = some opener) : (Stage.opener opener l).OpensCode := by
  cases hf : l.fence with
  | some f =>
    rw [openerOf?, hf] at h
    obtain rfl := Option.some.inj h
    exact hf
  | none =>
    cases opener with
    | fence f => exact openedBy_of_openerOf? h
    | zone | heading | note | table | list => exact hf

theorem fence_of_openerOf?_eq_none {l : LineFacts} {rest : List LineFacts}
    (h : openerOf? strict l rest = none) : l.fence = none := by
  cases hf : l.fence with
  | none => rfl
  | some f =>
    rw [openerOf?, hf] at h
    cases h

/-- Lines none of which ends a zone are all inside it. -/
theorem zoneInner_eq_self {lines : List LineFacts} (h : EndNoZone lines) :
    zoneInner lines = lines ∧ zoneOuter lines = [] := by
  have hall : ∀ u ∈ lines, (!isZoneEnd u.text) = true := by
    intro u hu
    simp [(h u hu).2]
  exact ⟨List.takeWhile_eq_self_iff.mpr hall, List.dropWhile_eq_nil_iff.mpr hall⟩

/-- Lines that a block takes without any code in it. -/
theorem readsCode_plain {stage : Stage} {used rest : List LineFacts} {blocks : List Block}
    (hblocks : Block.Throughout Ordinary blocks)
    (hopens : stage.OpensCode → ∀ u ∈ stage.opens, u.fence = none)
    (hused : EndNoZone (used ++ rest) → ∀ u ∈ used, u.fence = none) :
    ReadsCode stage used rest blocks := by
  intro hstage hlines
  refine ⟨[], ?_, codeSpans_of_ordinary hblocks⟩
  rw [codesOf_append_plain _ (hopens hstage), codesOf_append_plain _ (hused hlines)]
  rfl

/-- Lines without fences before the lines of a stage. -/
theorem ReadsCode.skip {stage : Stage} {passed used rest : List LineFacts} {blocks : List Block}
    (h : ReadsCode stage used rest blocks) (hopens : stage.opens = [])
    (hpassed : EndNoZone passed → ∀ u ∈ passed, u.fence = none) :
    ReadsCode stage (passed ++ used) rest blocks := by
  intro hstage hlines
  rw [List.append_assoc] at hlines ⊢
  obtain ⟨hbefore, hafter⟩ := List.forall_mem_append.mp hlines
  obtain ⟨codes, hcodes, hspans⟩ := h hstage hafter
  refine ⟨codes, ?_, hspans⟩
  rw [hopens, List.nil_append] at hcodes ⊢
  rw [codesOf_append_plain _ (hpassed hbefore), hcodes]

/-- A line that is no fence, and that adds no code to the blocks. -/
theorem ReadsCode.pass {first later : Stage} {l : LineFacts} {used rest : List LineFacts}
    {blocks more : List Block} (h : ReadsCode later used rest blocks) (hlater : later.OpensCode)
    (hopens : first.opens = []) (hopens' : later.opens = [])
    (hl : l.Described → l.fence = none) (hspans : codeSpans more = codeSpans blocks) :
    ReadsCode first (l :: used) rest more := by
  intro _ hlines
  obtain ⟨hline, htail⟩ := List.forall_mem_cons.mp hlines
  obtain ⟨codes, hcodes, hblocks⟩ := h hlater htail
  refine ⟨codes, ?_, hspans.trans hblocks⟩
  rw [hopens'] at hcodes
  rw [hopens]
  exact (codesOf_cons_plain _ (hl hline.1)).trans hcodes

/-- A block from the first line on, and the blocks of the lines after it. -/
theorem ReadsCode.cons {first later : Stage} {l : LineFacts} {used more rest : List LineFacts}
    {block : Block} {blocks : List Block} (hfirst : ReadsCode first used (more ++ rest) [block])
    (hlater : ReadsCode later more rest blocks) (hopens : later.opens = [])
    (hstage : first.OpensCode)
    (hline : ∀ lines, EndNoZone (l :: lines) →
      codesOf (l :: lines) = codesOf (first.opens ++ lines)) :
    ReadsCode later (l :: (used ++ more)) rest (block :: blocks) := by
  intro hlater' hlines
  have hassoc : l :: (used ++ more) ++ rest = l :: (used ++ (more ++ rest)) := by
    simp
  rw [hassoc] at hlines ⊢
  obtain ⟨-, htail⟩ := List.forall_mem_cons.mp hlines
  obtain ⟨codes, hcodes, hspans⟩ := hfirst hstage htail
  obtain ⟨codes', hcodes', hspans'⟩ := hlater hlater' (List.forall_mem_append.mp htail).2
  refine ⟨codes ++ codes', ?_, ?_⟩
  · rw [hopens, List.nil_append] at hcodes' ⊢
    rw [hline _ hlines, hcodes, hcodes', List.append_assoc]
  · rw [codeSpans_cons, hspans, hspans', List.map_append]

/-- The code that a block takes, or none, is the code of its lines. -/
theorem readsCode_leaf {opener : Opener} {l : LineFacts} {lines used : List LineFacts}
    {taken : Taken lines} (hleaf : leafBlock? source opener l lines = some taken)
    (hlines : lines = used ++ taken.rest) :
    ReadsCode (.opener opener l) used taken.rest [taken.block] := by
  unfold leafBlock? at hleaf
  split at hleaf
  · next f =>
    -- The code of the line itself.
    obtain rfl := Option.some.inj hleaf
    intro hstage _
    refine ⟨[.ofLines l f lines], ?_, codeSpans_fenceBlock l f lines⟩
    rw [← hlines]
    exact codesOf_cons_fence lines hstage
  · next heading =>
    obtain rfl := Option.some.inj hleaf
    obtain rfl : used = [] := List.append_cancel_right hlines.symm
    refine readsCode_plain (ordinary_of_plain (plain_headingBlock l heading)) ?_ nofun
    exact fun hstage => List.forall_mem_singleton.mpr hstage
  · next name =>
    obtain rfl := Option.some.inj hleaf
    have hused : used = noteRun lines :=
      List.append_cancel_right (hlines.symm.trans List.takeWhile_append_dropWhile.symm)
    refine readsCode_plain (ordinary_of_plain (plain_noteBlock l name lines))
      (fun hstage => List.forall_mem_singleton.mpr hstage) ?_
    intro hall u hu
    have hquoted : 0 < u.quote.depth := by
      rw [hused] at hu
      simpa using List.mem_takeWhile_imp hu
    exact (LineFacts.plain_of_quoted (hall u (List.mem_append_left _ hu)).1 hquoted).1
  · obtain rfl := Option.some.inj hleaf
    have hused : used = lines.takeWhile LineFacts.isRow :=
      List.append_cancel_right (hlines.symm.trans List.takeWhile_append_dropWhile.symm)
    refine readsCode_plain (ordinary_of_plain (plain_tableBlock l lines))
      (fun hstage => List.forall_mem_singleton.mpr hstage) ?_
    intro hall u hu
    have hrow : u.isRow = true := by
      rw [hused] at hu
      exact List.mem_takeWhile_imp hu
    exact LineFacts.fence_of_isRow (hall u (List.mem_append_left _ hu)).1 hrow
  · cases hleaf

/-- The code in built blocks is the code in their lines. -/
theorem Builds.readsCode {stage : Stage} {used rest : List LineFacts} {blocks : List Block}
    (h : Builds source strict stage used rest blocks) : ReadsCode stage used rest blocks := by
  induction h with
  | finish pending =>
    exact readsCode_plain (ordinary_of_plain (plain_paragraph pending)) nofun nofun
  | @blank pending l used blocks hblank _ ih =>
    refine ih.pass trivial rfl rfl (fun hl => LineFacts.fence_of_isBlank hl hblank) ?_
    rw [codeSpans_append, codeSpans_of_ordinary (ordinary_of_plain (plain_paragraph pending)),
      List.nil_append]
  | @opened pending l opener used more block blocks _ hopener _ _ ihblock ihblocks =>
    intro hstage hlines
    rw [← List.append_nil more] at ihblock
    obtain ⟨codes, hcodes, hspans⟩ := ihblock.cons ihblocks rfl (opensCode_of_openerOf? hopener)
      (fun _ _ => rfl) trivial hlines
    refine ⟨codes, hcodes, ?_⟩
    rw [codeSpans_append, codeSpans_of_ordinary (ordinary_of_plain (plain_paragraph pending)),
      hspans]
    rfl
  | text _ hopener _ ih =>
    exact ih.pass trivial rfl rfl (fun _ => fence_of_openerOf?_eq_none hopener) rfl
  | leaf hleaf hlines => exact readsCode_leaf hleaf hlines
  | @zone attributes l lines children _ ih =>
    -- No line ends the zone, so it takes all of them.
    intro hstage hlines
    have hall : zoneRun lines ++ (zoneOuter lines).tail = lines := closedRun_append _ lines
    rw [hall] at hlines ⊢
    obtain ⟨hinner, houter⟩ := zoneInner_eq_self hlines
    have hends : EndNoZone (lines ++ []) := by rwa [List.append_nil]
    rw [hinner] at ih
    obtain ⟨codes, hcodes, hspans⟩ := ih trivial hends
    rw [List.append_nil] at hcodes
    refine ⟨codes, ?_, ?_⟩
    · rw [houter, List.tail_nil]
      exact (codesOf_cons_plain _ hstage).trans hcodes
    · rw [codeSpans_zoneBlock]
      exact hspans
  | @openedList marker l used rest block _ ih =>
    intro hstage hlines
    obtain ⟨codes, hcodes, hspans⟩ := ih trivial hlines
    exact ⟨codes, (codesOf_cons_plain _ hstage).trans hcodes, hspans⟩
  | @list depth marker l used more rest item items _ _ ihitem ihitems =>
    intro _ hlines
    rw [List.append_assoc] at hlines ⊢
    obtain ⟨codes, hcodes, hspans⟩ := ihitem trivial hlines
    obtain ⟨codes', hcodes', hspans'⟩ := ihitems trivial (List.forall_mem_append.mp hlines).2
    refine ⟨codes ++ codes', ?_, ?_⟩
    · rw [List.append_assoc, ← hcodes']
      exact hcodes
    · rw [codeSpans_listBlock, codeSpans_cons, hspans, hspans', List.map_append]
  | noItem => exact readsCode_plain Block.throughout_nil nofun nofun
  | blankItems hblanks _ ih =>
    exact ih.skip rfl fun hlines u hu => LineFacts.fence_of_isBlank (hlines u hu).1 (hblanks u hu)
  | nextItem _ hown _ _ ihitem ihitems =>
    refine ihitem.cons ihitems rfl trivial ?_
    intro lines hlines
    have hmarker := (Option.filter_eq_some_iff.mp hown).1
    exact codesOf_cons_plain lines
      (LineFacts.fence_of_marker (List.forall_mem_cons.mp hlines).1.1 hmarker)
  | item _ ih =>
    intro hstage hlines
    rw [codeSpans_itemBlock]
    exact ih trivial hlines
  | noInner => exact readsCode_plain Block.throughout_nil nofun nofun
  | blankInner hblanks _ ih =>
    exact ih.skip rfl fun hlines u hu => LineFacts.fence_of_isBlank (hlines u hu).1 (hblanks u hu)
  | innerList _ _ hmarker _ _ ihlist ih =>
    refine ihlist.cons ih rfl trivial ?_
    intro lines hlines
    exact codesOf_cons_plain lines
      (LineFacts.fence_of_marker (List.forall_mem_cons.mp hlines).1.1 hmarker)
  | innerFence _ _ _ hf _ _ ihfence ih => exact ihfence.cons ih rfl hf fun _ _ => rfl
  | innerRow _ _ _ hf _ ih =>
    refine ih.pass trivial rfl rfl (fun _ => hf) ?_
    rw [codeSpans_cons, codeSpans_of_ordinary (ordinary_of_plain (plain_listRow _)),
      List.nil_append]

/-- In lines that end no zone the blocks of code are those that the lines show. -/
theorem Builds.codeSpans_eq {lines : List LineFacts} {blocks : List Block}
    (h : Builds source strict (.lines none) lines [] blocks) (hlines : EndNoZone lines) :
    codeSpans blocks = (codesOf lines).map Code.span := by
  have hall : EndNoZone (lines ++ []) := by rwa [List.append_nil]
  obtain ⟨codes, hcodes, hspans⟩ := h.readsCode trivial hall
  rw [codesOf_nil, List.append_nil, List.append_nil] at hcodes
  rw [hspans, ← hcodes]
  rfl

end ArticleAudit.Markdown
