import ArticleAudit.Audit.SourceDocument
import ArticleAudit.Proofs.Document.Geometry
import ArticleAudit.Proofs.Pattern.Matches
import ArticleAudit.Proofs.Rule.Reports
import ArticleAudit.Rule.Strategy

/-!
# Reports within the document

A strategy of a check only ever reports spans of blocks, targets of blocks, matches and the start of
the document. Where the blocks are cut out of the document (`AuditContext.FitsSource`), so are all
of these, as long as the engine finds its matches in the text that it searches; a match in a block
is moved by the start of the block, which is right because the text of the block is the text of its
span. One lemma for each check collects this into `Check.compile_inText`, and
`Rule.ofDescriptor_inBounds` is the result for documents.
-/

set_option autoImplicit false

namespace ArticleAudit

open ArticleAudit.Text ArticleAudit.Pattern

variable {source : List Char} {ctx : AuditContext} {engine : Engine}

/-! ## Spans that are cut out of a text -/

/-- The span is in order, within the text and on character boundaries. -/
def CutOut (source : List Char) (s : Span) : Prop :=
  ∃ cs, slice? source s = some cs

namespace CutOut

variable {s : Span}

theorem isValidFor (h : CutOut source s) : s.isValidFor (byteSize source) = true := by
  obtain ⟨cs, hcs⟩ := h
  exact isValidFor_of_slice? hcs

theorem boundary_start (h : CutOut source s) : Boundary source s.start := by
  obtain ⟨cs, hcs⟩ := h
  exact (slice?_eq_some_iff.mp hcs).1.boundary

theorem boundary_stop (h : CutOut source s) : Boundary source s.stop := by
  obtain ⟨cs, hcs⟩ := h
  obtain ⟨hstands, hstop⟩ := slice?_eq_some_iff.mp hcs
  rw [hstop]
  exact hstands.boundary_stop

/-- The start of a text is cut out of it. -/
theorem zero (source : List Char) : CutOut source (.point 0) :=
  ⟨[], slice?_eq_some_iff.mpr ⟨boundary_zero source, rfl⟩⟩

/-- What is cut out of the text of a span, moved to where the span starts. -/
theorem shift {outer : Span} {text : List Char} (houter : slice? source outer = some text)
    (h : CutOut text s) : CutOut source (s.shift outer.start) := by
  obtain ⟨cs, hcs⟩ := h
  obtain ⟨hinner, hstop⟩ := slice?_eq_some_iff.mp hcs
  have hstands := (slice?_eq_some_iff.mp houter).1.trans hinner
  refine ⟨cs, slice?_eq_some_iff.mpr ⟨hstands, ?_⟩⟩
  simp only [Span.shift]
  omega

end CutOut

/-- The blocks of a context and their targets are cut out of its document. -/
structure AuditContext.FitsSource (ctx : AuditContext) : Prop where
  text : ∀ b ∈ ctx.allBlocks, slice? ctx.source b.span = some b.text.toList
  target : ∀ b ∈ ctx.allBlocks, ∀ s, b.target = some s → CutOut ctx.source s

/-- All spans that an outcome refers to are cut out of a text. -/
def Outcome.InText (source : List Char) (outcome : Outcome) : Prop :=
  ∀ s ∈ outcome.spans, CutOut source s

namespace AuditContext.FitsSource

theorem block (h : ctx.FitsSource) {b : Block} (hb : b ∈ ctx.allBlocks) :
    CutOut ctx.source b.span :=
  ⟨_, h.text b hb⟩

/-- The spans of the blocks of a kind. -/
theorem blockSpan (h : ctx.FitsSource) {kind : BlockKind} {level : Option UInt8} {s : Span}
    (hs : s ∈ (ctx.blocksOf kind level).map (·.span)) : CutOut ctx.source s := by
  obtain ⟨b, hb, rfl⟩ := List.mem_map.mp hs
  exact h.block (List.mem_filter.mp hb).1

theorem fieldSpan (h : ctx.FitsSource) {keys : List String} {s : Span}
    (hs : s ∈ ctx.fieldSpans keys) : CutOut ctx.source s := by
  obtain ⟨key, -, hkey⟩ := List.mem_filterMap.mp hs
  obtain ⟨b, hb, rfl⟩ := Option.map_eq_some_iff.mp hkey
  exact h.block (List.mem_filter.mp (List.mem_of_find?_eq_some hb)).1

end AuditContext.FitsSource

namespace Check

open AuditContext

/-! ## Outcomes of checks -/

theorem failIfAny_eq_pass_iff {violations : List Span} :
    failIfAny violations = .pass [] ↔ violations = [] := by
  cases violations <;> simp [failIfAny]

theorem failIfAny_of_ne_nil {violations : List Span} (h : violations ≠ []) :
    failIfAny violations = .fail violations := by
  cases violations with
  | nil => exact absurd rfl h
  | cons => rfl

theorem inText_failIfAny {violations : List Span} (h : ∀ s ∈ violations, CutOut source s) :
    (failIfAny violations).InText source := by
  unfold failIfAny
  split
  · exact nofun
  · exact h

theorem inText_requireBlockOutcome (h : ctx.FitsSource) (kind : BlockKind)
    (level : Option UInt8) (min : Nat) :
    (requireBlockOutcome kind level min ctx).InText ctx.source := by
  simp only [requireBlockOutcome]
  split
  · intro s hs
    exact h.blockSpan hs
  · exact nofun

theorem inText_maxBlocksOutcome (h : ctx.FitsSource) (kind : BlockKind) (level : Option UInt8)
    (max : Nat) : (maxBlocksOutcome kind level max ctx).InText ctx.source := by
  simp only [maxBlocksOutcome]
  split
  · intro s hs
    exact h.blockSpan hs
  · intro s hs
    exact h.blockSpan (List.mem_of_mem_drop hs)

theorem inText_requireMetadataOutcome (h : ctx.FitsSource) (keys : List String) :
    (requireMetadataOutcome keys ctx).InText ctx.source := by
  simp only [requireMetadataOutcome]
  split
  · intro s hs
    rw [List.eq_of_mem_replicate hs]
    exact CutOut.zero ctx.source
  · intro s hs
    exact h.fieldSpan hs

theorem inText_metadataMatchesOutcome (h : ctx.FitsSource) (key : String) (pattern : Finder) :
    (metadataMatchesOutcome key pattern ctx).InText ctx.source := by
  simp only [metadataMatchesOutcome]
  split
  · intro s hs
    exact h.fieldSpan hs
  · intro s hs
    exact h.fieldSpan hs

theorem inText_requireSectionOutcome (h : ctx.FitsSource) (heading : Finder)
    (level : Option UInt8) : (requireSectionOutcome heading level ctx).InText ctx.source := by
  simp only [requireSectionOutcome]
  split
  · exact nofun
  · intro s hs
    obtain ⟨b, hb, rfl⟩ := List.mem_map.mp hs
    exact h.blockSpan (List.mem_map_of_mem (List.mem_filter.mp hb).1)

/-- A jump is the span of a heading. -/
theorem mem_map_span_of_mem_jumps {current : Nat} {headers : List Block} {s : Span}
    (hs : s ∈ jumps current headers) : s ∈ headers.map (·.span) := by
  induction headers generalizing current with
  | nil => cases hs
  | cons header rest ih =>
    rw [jumps] at hs
    rcases List.mem_append.mp hs with hs | hs
    · split at hs
      · rw [List.mem_singleton.mp hs]
        exact List.mem_cons_self
      · cases hs
    · exact List.mem_cons_of_mem _ (ih hs)

theorem inText_headingHierarchyOutcome (h : ctx.FitsSource) :
    (headingHierarchyOutcome ctx).InText ctx.source := by
  apply inText_failIfAny
  intro s hs
  exact h.blockSpan (mem_map_span_of_mem_jumps hs)

/-- Sorting spans and dropping repeated ones adds none. -/
theorem mem_of_mem_distinctSpans {spans : List Span} {s : Span} (hs : s ∈ distinctSpans spans) :
    s ∈ spans := by
  obtain ⟨group, hgroup, hhead⟩ := List.mem_filterMap.mp hs
  have hsorted : s ∈ ((spans.mergeSort spanLe).splitBy (· == ·)).flatten :=
    List.mem_flatten.mpr ⟨group, hgroup, List.mem_of_mem_head? hhead⟩
  rw [List.flatten_splitBy] at hsorted
  exact List.mem_mergeSort.mp hsorted

/-- A match in a block, counted in the document. -/
theorem cutOut_of_mem_hitsIn (h : ctx.FitsSource) {pattern : Finder}
    (hpattern : pattern.FindsInText) {b : Block} {s : Span} (hb : b ∈ ctx.allBlocks)
    (hs : s ∈ hitsIn pattern b) : CutOut ctx.source s := by
  obtain ⟨hit, hhit, rfl⟩ := List.mem_map.mp hs
  have hinner : CutOut b.text.toList hit := hpattern _ hit hhit
  exact hinner.shift (h.text b hb)

theorem inText_forbidPatternOutcome (h : ctx.FitsSource) {pattern : Finder}
    (hpattern : pattern.FindsInText) (kinds : List BlockKind) :
    (forbidPatternOutcome pattern kinds ctx).InText ctx.source := by
  apply inText_failIfAny
  intro s hs
  replace hs := mem_of_mem_distinctSpans hs
  -- Without kinds the whole document is searched, else the blocks of these kinds.
  split at hs
  · exact hpattern ctx.source s hs
  · obtain ⟨b, hb, hhit⟩ := List.mem_flatMap.mp hs
    exact cutOut_of_mem_hitsIn h hpattern (List.mem_filter.mp hb).1 hhit

/-- A bad target is the target of its block. -/
theorem target_of_badTarget? {forbid : Finder} {b : Block} {s : Span}
    (h : badTarget? forbid b = some s) : b.target = some s := by
  unfold badTarget? at h
  split at h
  · split at h
    · next span text htarget htext =>
      split at h
      · rw [htarget, h]
      · cases h
    · cases h
  · cases h

theorem inText_linkTargetsOutcome (h : ctx.FitsSource) (forbid : Finder) :
    (linkTargetsOutcome forbid ctx).InText ctx.source := by
  apply inText_failIfAny
  intro s hs
  obtain ⟨b, hb, hbad⟩ := List.mem_filterMap.mp hs
  exact h.target b hb s (target_of_badTarget? hbad)

/-! ## Compiled checks -/

/-- A compilation that succeeds has succeeded with its first step. -/
theorem exists_of_bind_eq_ok {ε α β : Type} {first : Except ε α} {rest : α → Except ε β} {b : β}
    (h : (do rest (← first)) = .ok b) : ∃ a, first = .ok a ∧ rest a = .ok b := by
  cases first with
  | error e => cases h
  | ok a => exact ⟨a, rfl, h⟩

/-- A pattern that is looked up is one that the engine compiles. -/
theorem compile?_of_patternOf {ruleNum : UInt32} {ignoreCase : Bool} {text : String}
    {pattern : Finder} (h : patternOf engine ruleNum ignoreCase text = .ok pattern) :
    engine.compile? ignoreCase text = some pattern := by
  unfold patternOf at h
  split at h
  · next p hp =>
    obtain rfl := Except.ok.inj h
    exact hp
  · cases h

/-- What a check answers once its names of kinds and its patterns have been looked up. -/
inductive Decides (engine : Engine) (ruleNum : UInt32) : Check → (AuditContext → Outcome) → Prop
  | requireBlock {name : String} {kind : BlockKind} (level : Option UInt8) (min : UInt64)
    (hkind : kindOf ruleNum name = .ok kind) :
    Decides engine ruleNum (.requireBlock name level min) (requireBlockOutcome kind level min.toNat)
  | maxBlocks {name : String} {kind : BlockKind} (level : Option UInt8) (max : UInt64)
    (hkind : kindOf ruleNum name = .ok kind) :
    Decides engine ruleNum (.maxBlocks name level max) (maxBlocksOutcome kind level max.toNat)
  | requireMetadata (keys : List String) :
    Decides engine ruleNum (.requireMetadata keys)
      (requireMetadataOutcome (keys.map Metadata.normalizeKey))
  | metadataMatches (key : String) {text : String} {pattern : Finder}
    (hpattern : patternOf engine ruleNum false text = .ok pattern) :
    Decides engine ruleNum (.metadataMatches key text)
      (metadataMatchesOutcome (Metadata.normalizeKey key) pattern)
  | requireSection {text : String} {heading : Finder} (level : Option UInt8)
    (hheading : patternOf engine ruleNum true text = .ok heading) :
    Decides engine ruleNum (.requireSection text level) (requireSectionOutcome heading level)
  | headingHierarchy : Decides engine ruleNum .headingHierarchy headingHierarchyOutcome
  | forbidPattern {text : String} {pattern : Finder} {names : List String}
    {kinds : List BlockKind} (hpattern : patternOf engine ruleNum false text = .ok pattern)
    (hkinds : names.mapM (kindOf ruleNum) = .ok kinds) :
    Decides engine ruleNum (.forbidPattern text names) (forbidPatternOutcome pattern kinds)
  | linkTargets {text : String} {forbid : Finder}
    (hforbid : patternOf engine ruleNum false text = .ok forbid) :
    Decides engine ruleNum (.linkTargets text) (linkTargetsOutcome forbid)

/-- A check that compiles always answers, and what it decides. -/
theorem exists_decides_of_compile {ruleNum : UInt32} {check : Check} {strategy : Strategy}
    (h : check.compile ruleNum engine = .ok strategy) :
    ∃ outcomeOf, Decides engine ruleNum check outcomeOf ∧ strategy = always outcomeOf := by
  cases check with
  | requireBlock name level min =>
    obtain ⟨kind, hkind, h⟩ := exists_of_bind_eq_ok h
    exact ⟨_, .requireBlock level min hkind, (Except.ok.inj h).symm⟩
  | maxBlocks name level max =>
    obtain ⟨kind, hkind, h⟩ := exists_of_bind_eq_ok h
    exact ⟨_, .maxBlocks level max hkind, (Except.ok.inj h).symm⟩
  | requireMetadata keys => exact ⟨_, .requireMetadata keys, (Except.ok.inj h).symm⟩
  | metadataMatches key text =>
    obtain ⟨pattern, hpattern, h⟩ := exists_of_bind_eq_ok h
    exact ⟨_, .metadataMatches key hpattern, (Except.ok.inj h).symm⟩
  | requireSection text level =>
    obtain ⟨heading, hheading, h⟩ := exists_of_bind_eq_ok h
    exact ⟨_, .requireSection level hheading, (Except.ok.inj h).symm⟩
  | headingHierarchy => exact ⟨_, .headingHierarchy, (Except.ok.inj h).symm⟩
  | forbidPattern text names =>
    obtain ⟨pattern, hpattern, h⟩ := exists_of_bind_eq_ok h
    obtain ⟨kinds, hkinds, h⟩ := exists_of_bind_eq_ok h
    exact ⟨_, .forbidPattern hpattern hkinds, (Except.ok.inj h).symm⟩
  | linkTargets text =>
    obtain ⟨forbid, hforbid, h⟩ := exists_of_bind_eq_ok h
    exact ⟨_, .linkTargets hforbid, (Except.ok.inj h).symm⟩

/-- What a check decides is cut out of the document. -/
theorem Decides.inText {ruleNum : UInt32} {check : Check} {outcomeOf : AuditContext → Outcome}
    (hdecides : Decides engine ruleNum check outcomeOf) (hengine : engine.FindsInText)
    (h : ctx.FitsSource) : (outcomeOf ctx).InText ctx.source := by
  cases hdecides with
  | requireBlock level min => exact inText_requireBlockOutcome h _ level _
  | maxBlocks level max => exact inText_maxBlocksOutcome h _ level _
  | requireMetadata keys => exact inText_requireMetadataOutcome h _
  | metadataMatches key => exact inText_metadataMatchesOutcome h _ _
  | requireSection level => exact inText_requireSectionOutcome h _ level
  | headingHierarchy => exact inText_headingHierarchyOutcome h
  | forbidPattern hpattern =>
    exact inText_forbidPatternOutcome h (hengine _ _ _ (compile?_of_patternOf hpattern)) _
  | linkTargets => exact inText_linkTargetsOutcome h _

/-- The strategy of a check always has an outcome, and what it refers to is cut out of the
document. -/
theorem compile_inText {ruleNum : UInt32} {check : Check} {strategy : Strategy}
    (hcompile : check.compile ruleNum engine = .ok strategy) (hengine : engine.FindsInText)
    (h : ctx.FitsSource) : ∃ outcome, strategy ctx = .ok outcome ∧ outcome.InText ctx.source := by
  obtain ⟨outcomeOf, hdecides, rfl⟩ := exists_decides_of_compile hcompile
  exact ⟨outcomeOf ctx, rfl, hdecides.inText hengine h⟩

end Check

/-! ## Documents -/

/-- All blocks that a rule may look at are those of the pre-order. -/
theorem allBlocks_context (doc : SourceDocument) (strict : Bool) :
    (doc.context strict).allBlocks = Block.preorderAll (doc.blocks strict) :=
  Block.Walk.toList_ofBlocks _

/-- The blocks of a document are cut out of it, whatever its metadata. -/
theorem fitsSource_context (doc : SourceDocument) (strict : Bool) (metadata : Metadata) :
    AuditContext.FitsSource { doc.context strict with metadata } := by
  have hwalk := allBlocks_context doc strict
  cases htoc : Toc.isToc doc.fileName (Markdown.LineFacts.ofText strict doc.text.toList) with
  | false =>
    have hplaced := Document.placed_segment htoc
    constructor
    · intro b hb
      rw [hwalk] at hb
      exact (hplaced b hb).text
    · intro b hb s hs
      rw [hwalk] at hb
      exact ((hplaced b hb).target s hs).1
  | true =>
    obtain ⟨hi, hitems⟩ := Document.itemsFit_segment htoc
    constructor
    · intro b hb
      rw [hwalk] at hb
      exact (hitems.fits b hb).text
    · intro b hb s hs
      rw [hwalk] at hb
      have hfits := hitems.fits b hb
      rw [hfits.target s hs]
      exact ⟨_, hfits.text⟩

namespace Rule

/-- What a report of spans within a text refers to is cut out of the text. -/
theorem cutOut_of_mem_reportOf {r : Rule} {outcome : Outcome} (h : outcome.InText source)
    {e : AuditEntry} (he : e ∈ r.reportOf outcome) {s : Span} (hs : s ∈ e.indexes) :
    CutOut source s := by
  cases outcome with
  | pass spans =>
    rw [List.mem_singleton.mp he] at hs
    exact h s hs
  | fail spans =>
    cases spans with
    | nil =>
      rw [List.mem_singleton.mp he] at hs
      rw [List.mem_singleton.mp hs]
      exact CutOut.zero source
    | cons span rest =>
      obtain ⟨violation, hviolation, rfl⟩ := List.mem_map.mp he
      rw [List.mem_singleton.mp hs]
      exact h violation hviolation

/-- A rule whose outcome refers to spans within the document reports it. -/
theorem evaluate_of_inText {r : Rule} {outcome : Outcome} (houtcome : r.strategy ctx = .ok outcome)
    (h : outcome.InText ctx.source) : r.evaluate ctx = .ok (r.reportOf outcome) := by
  have hfind : outcome.spans.find? (fun s => !s.isValidFor (byteSize ctx.source)) = none := by
    rw [List.find?_eq_none]
    intro s hs
    simp [(h s hs).isValidFor]
  rw [evaluate_eq, houtcome]
  simp only [hfind]

/-- With an engine that finds its matches in the text that it searches, a rule of a check never
fails on a document, in either mode and whatever the metadata are. Every span of an entry is in
order and within the document, and starts and stops on a character boundary. -/
theorem ofDescriptor_inBounds (engine : Engine) (hengine : engine.FindsInText)
    (doc : SourceDocument) (strict : Bool) (metadata : Metadata) (d : RuleDescriptor) (r : Rule)
    (h : ofDescriptor engine d = .ok r) :
    ∃ entries, r.evaluate { doc.context strict with metadata } = .ok entries ∧
      ∀ e ∈ entries, ∀ s ∈ e.indexes,
        s.start ≤ s.stop ∧ s.stop ≤ byteSize doc.text.toList ∧
          Boundary doc.text.toList s.start ∧ Boundary doc.text.toList s.stop := by
  obtain ⟨strategy, hcompile, hr⟩ := Check.exists_of_bind_eq_ok h
  obtain rfl := Except.ok.inj hr
  obtain ⟨outcome, houtcome, hinText⟩ :=
    Check.compile_inText hcompile hengine (fitsSource_context doc strict metadata)
  refine ⟨_, evaluate_of_inText houtcome hinText, ?_⟩
  intro e he s hs
  have hcut := cutOut_of_mem_reportOf hinText he hs
  obtain ⟨hle, hstop⟩ := Span.isValidFor_iff.mp hcut.isValidFor
  exact ⟨hle, hstop, hcut.boundary_start, hcut.boundary_stop⟩

/-- A forbidden pattern in the links of a document. -/
theorem ofDescriptor_inBounds_links :
    let d : RuleDescriptor :=
      ⟨1, "MVC", "overview", none, "no drafts", .forbidPattern "draft" ["Link"]⟩
    Engine.threaded.FindsInText ∧ ∃ r, ofDescriptor .threaded d = .ok r ∧ ∃ entries,
      r.evaluate ((SourceDocument.plain "a.md" "[é](draft.md)").context true) = .ok entries := by
  intro d
  obtain ⟨r, hr⟩ : ∃ r, ofDescriptor .threaded d = .ok r := ⟨_, rfl⟩
  obtain ⟨entries, heval, -⟩ := ofDescriptor_inBounds .threaded Engine.findsInText_threaded
    (.plain "a.md" "[é](draft.md)") true _ d r hr
  exact ⟨Engine.findsInText_threaded, r, hr, entries, heval⟩

end Rule

end ArticleAudit
