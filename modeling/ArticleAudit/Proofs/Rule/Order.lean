import ArticleAudit.Audit.Diagnostic
import ArticleAudit.Proofs.Audit.Merging
import ArticleAudit.Proofs.Document.Rising
import ArticleAudit.Proofs.Rule.Bounds
import Mathlib.Data.List.SplitBy

/-!
# Violations in the order of the document

A check that fails for what stands in the document, rather than for the metadata, reports each
violation once and in the order of the document (`Check.Decides.failsInOrder`). For blocks of a kind
and for targets this is the order of the walk, since the blocks of a document rise
(`Document.rises_segment`); matches of a pattern are sorted and each is kept once, whether or not
the blocks that are searched lie in one another (`Check.increasing_distinctSpans`).
`Rule.ofDescriptor_inOrder` follows the violations through the entries of the rule and its
diagnostics into those of a whole audit. All this holds with any engine: the order in which it finds
its matches does not matter.
-/

set_option autoImplicit false

namespace ArticleAudit

open ArticleAudit.Text ArticleAudit.Pattern

variable {ctx : AuditContext} {engine : Engine} {spans : List Span}

/-! ## Spans in order -/

namespace Text.Span

variable {a b c : Span}

theorem precedes_iff :
    a.precedes b = true ↔ a.start < b.start ∨ (a.start = b.start ∧ a.stop < b.stop) := by
  simp [precedes]

theorem precedes_of_start_lt (h : a.start < b.start) : a.precedes b = true :=
  precedes_iff.mpr (.inl h)

theorem precedes_trans (hab : a.precedes b = true) (hbc : b.precedes c = true) :
    a.precedes c = true := by
  rw [precedes_iff] at *
  omega

theorem ne_of_precedes (h : a.precedes b = true) : a ≠ b := by
  rintro rfl
  have := precedes_iff.mp h
  omega

end Text.Span

/-- The spans rise strictly, by start and then by stop. -/
def Increasing (spans : List Span) : Prop :=
  spans.Pairwise fun a b => a.precedes b = true

theorem Increasing.nodup (h : Increasing spans) : spans.Nodup :=
  h.imp fun hab => Span.ne_of_precedes hab

/-- The blocks of a kind start one after the other in the walk of a context, and so do targets. -/
def AuditContext.WalksForward (ctx : AuditContext) : Prop :=
  ctx.allBlocks.Pairwise fun a b =>
    (a.kind = b.kind → a.span.start < b.span.start) ∧
      ∀ s ∈ a.target, ∀ t ∈ b.target, s.start < t.start

/-- If an outcome is a failure, its spans rise strictly. -/
def Outcome.FailsInOrder (outcome : Outcome) : Prop :=
  ∀ spans, outcome = .fail spans → Increasing spans

namespace Outcome

theorem FailsInOrder.pass (spans : List Span) : (Outcome.pass spans).FailsInOrder :=
  nofun

theorem FailsInOrder.fail (h : Increasing spans) : (Outcome.fail spans).FailsInOrder := by
  rintro _ ⟨⟩
  exact h

end Outcome

namespace Check

open AuditContext Outcome

/-! ## Blocks and targets in the order of the walk -/

theorem pairwise_blocksOf (h : ctx.WalksForward) (kind : BlockKind) (level : Option UInt8) :
    (ctx.blocksOf kind level).Pairwise fun a b => a.span.start < b.span.start := by
  have hkind : ∀ b ∈ ctx.blocksOf kind level, b.kind = kind := by
    intro b hb
    have hb := (List.mem_filter.mp hb).2
    rw [Bool.and_eq_true, beq_iff_eq] at hb
    exact hb.1
  refine (h.filter _).imp_of_mem ?_
  intro a b ha hb hab
  exact hab.1 ((hkind a ha).trans (hkind b hb).symm)

theorem increasing_blocksOf (h : ctx.WalksForward) (kind : BlockKind) (level : Option UInt8) :
    Increasing ((ctx.blocksOf kind level).map (·.span)) :=
  List.pairwise_map.mpr ((pairwise_blocksOf h kind level).imp Span.precedes_of_start_lt)

theorem increasing_badTargets (h : ctx.WalksForward) (forbid : Finder) :
    Increasing (ctx.allBlocks.filterMap (badTarget? forbid)) := by
  refine List.pairwise_filterMap.mpr (h.imp ?_)
  intro a b hab s hs t ht
  exact Span.precedes_of_start_lt (hab.2 s (target_of_badTarget? hs) t (target_of_badTarget? ht))

/-- Jumps are met in the order of the headings. -/
theorem sublist_jumps (current : Nat) (headers : List Block) :
    (jumps current headers).Sublist (headers.map (·.span)) := by
  induction headers generalizing current with
  | nil => exact List.Sublist.refl []
  | cons header rest ih =>
    rw [jumps, List.map_cons]
    split
    · exact (ih _).cons_cons _
    · exact (ih _).cons _

/-! ## Matches, each of them once -/

theorem spanLe_iff {a b : Span} : spanLe a b = true ↔ a = b ∨ a.precedes b = true := by
  obtain ⟨start, stop⟩ := a
  obtain ⟨start', stop'⟩ := b
  rw [spanLe, Bool.not_eq_true', ← Bool.not_eq_true, Span.precedes_iff, Span.precedes_iff,
    Span.mk.injEq]
  dsimp only
  omega

theorem spanLe_trans (a b c : Span) (hab : spanLe a b = true) (hbc : spanLe b c = true) :
    spanLe a c = true := by
  rw [spanLe_iff] at *
  rcases hab with rfl | hab
  · exact hbc
  · rcases hbc with rfl | hbc
    · exact .inr hab
    · exact .inr (Span.precedes_trans hab hbc)

theorem spanLe_total (a b : Span) : (spanLe a b || spanLe b a) = true := by
  simp only [spanLe, Bool.or_eq_true, Bool.not_eq_true', ← Bool.not_eq_true, Span.precedes_iff]
  omega

theorem pairwise_mergeSort_spanLe (spans : List Span) :
    (spans.mergeSort spanLe).Pairwise fun a b => spanLe a b = true :=
  List.pairwise_mergeSort spanLe_trans spanLe_total spans

/-- The first span of a group stands before the first one of another group. -/
def HeadPrecedes (a b : List Span) : Prop :=
  ∃ ha hb, (a.head ha).precedes (b.head hb) = true

instance : Trans HeadPrecedes HeadPrecedes HeadPrecedes where
  trans := by
    rintro a b c ⟨ha, _, hab⟩ ⟨_, hc, hbc⟩
    exact ⟨ha, hc, Span.precedes_trans hab hbc⟩

/-- Where sorted spans are split between different ones, each group starts before the next one. -/
theorem isChain_headPrecedes {groups : List (List Span)}
    (hsorted : groups.flatten.Pairwise fun a b => spanLe a b = true)
    (hsplit : groups.IsChain fun a b => ∃ ha hb, (a.getLast ha == b.head hb) = false) :
    groups.IsChain HeadPrecedes := by
  induction groups with
  | nil => exact .nil
  | cons a rest ih =>
    rw [List.flatten_cons, List.pairwise_append] at hsorted
    obtain ⟨hwithin, hrest, hlater⟩ := hsorted
    cases rest with
    | nil => exact .singleton a
    | cons b rest =>
      obtain ⟨⟨ha, hb, hne⟩, hsplit⟩ := List.isChain_cons_cons.mp hsplit
      refine List.isChain_cons_cons.mpr ⟨⟨ha, hb, ?_⟩, ih hrest hsplit⟩
      have hmem : b.head hb ∈ (b :: rest).flatten := by
        rw [List.flatten_cons]
        exact List.mem_append_left _ (List.head_mem hb)
      have hlast : (a.getLast ha).precedes (b.head hb) = true := by
        rcases spanLe_iff.mp (hlater _ (List.getLast_mem ha) _ hmem) with heq | hlt
        · exact absurd heq (beq_eq_false_iff_ne.mp hne)
        · exact hlt
      have hhead : spanLe (a.head ha) (a.getLast ha) = true :=
        hwithin.rel_head_of_rel_head_head (List.getLast_mem ha) (spanLe_iff.mpr (.inl rfl))
      rcases spanLe_iff.mp hhead with heq | hlt
      · rw [heq]
        exact hlast
      · exact Span.precedes_trans hlt hlast

/-- Spans that are sorted, each of them kept once, rise strictly. -/
theorem increasing_distinctSpans (spans : List Span) : Increasing (distinctSpans spans) := by
  have hsorted := pairwise_mergeSort_spanLe spans
  rw [← List.flatten_splitBy (· == ·) (spans.mergeSort spanLe)] at hsorted
  have hheads := (isChain_headPrecedes hsorted
    (List.isChain_getLast_head_splitBy (· == ·) (spans.mergeSort spanLe))).pairwise
  refine List.pairwise_filterMap.mpr (hheads.imp ?_)
  rintro a b ⟨ha, hb, hlt⟩ s hs t ht
  rw [List.head?_eq_some_head ha, Option.some.injEq] at hs
  rw [List.head?_eq_some_head hb, Option.some.injEq] at ht
  rw [← hs, ← ht]
  exact hlt

/-! ## Outcomes of checks -/

theorem failsInOrder_failIfAny (h : Increasing spans) : (failIfAny spans).FailsInOrder := by
  unfold failIfAny
  split
  · exact .pass []
  · exact .fail h

/-- What is missing has no span. -/
theorem failsInOrder_requireBlockOutcome (kind : BlockKind) (level : Option UInt8) (min : Nat) :
    (requireBlockOutcome kind level min ctx).FailsInOrder := by
  simp only [requireBlockOutcome]
  split
  · exact .pass _
  · exact .fail .nil

theorem failsInOrder_maxBlocksOutcome (h : ctx.WalksForward) (kind : BlockKind)
    (level : Option UInt8) (max : Nat) : (maxBlocksOutcome kind level max ctx).FailsInOrder := by
  simp only [maxBlocksOutcome]
  split
  · exact .pass _
  · exact .fail ((increasing_blocksOf h kind level).sublist (List.drop_sublist max _))

theorem failsInOrder_requireSectionOutcome (heading : Finder) (level : Option UInt8) :
    (requireSectionOutcome heading level ctx).FailsInOrder := by
  simp only [requireSectionOutcome]
  split
  · exact .fail .nil
  · exact .pass _

/-- The check asks for values of metadata, whose spans are not those of violations. -/
def asksMetadata : Check → Bool
  | .requireMetadata _ => true
  | .metadataMatches _ _ => true
  | _ => false

/-- The violations of a check that asks for what stands in the document rise strictly. -/
theorem Decides.failsInOrder {ruleNum : UInt32} {check : Check}
    {outcomeOf : AuditContext → Outcome} (hdecides : Decides engine ruleNum check outcomeOf)
    (hcheck : check.asksMetadata = false) (h : ctx.WalksForward) :
    (outcomeOf ctx).FailsInOrder := by
  cases hdecides with
  | requireBlock level min => exact failsInOrder_requireBlockOutcome _ level _
  | maxBlocks level max => exact failsInOrder_maxBlocksOutcome h _ level _
  | requireMetadata keys => cases hcheck
  | metadataMatches key => cases hcheck
  | requireSection level => exact failsInOrder_requireSectionOutcome _ level
  | headingHierarchy =>
    exact failsInOrder_failIfAny ((increasing_blocksOf h .header none).sublist (sublist_jumps 0 _))
  | forbidPattern => exact failsInOrder_failIfAny (increasing_distinctSpans _)
  | linkTargets => exact failsInOrder_failIfAny (increasing_badTargets h _)

end Check

/-! ## Documents -/

/-- The blocks of a document walk forward, whatever its metadata. -/
theorem walksForward_context (doc : SourceDocument) (strict : Bool) (metadata : Metadata) :
    AuditContext.WalksForward { doc.context strict with metadata } := by
  obtain ⟨hi, hrises⟩ := Document.rises_segment doc.fileName doc.text.toList strict
  unfold AuditContext.WalksForward
  rw [allBlocks_context]
  exact hrises.pairwise

/-- The spans that a failure is reported at; the start of the document where something is
missing. -/
def Outcome.placesOf (spans : List Span) : List Span :=
  if spans.isEmpty then [.point 0] else spans

/-- A failing entry of one span is one diagnostic. -/
theorem Diagnostic.ofEntries_map_entry (r : Rule) (spans : List Span) :
    ofEntries (spans.map fun s => r.entry false [s]) =
      spans.map fun s => ⟨s, r.title, .warning, r.ruleNum⟩ := by
  rw [ofEntries, List.flatMap_map]
  exact List.flatMap_pure_eq_map _ spans

namespace Rule

theorem reportOf_fail (r : Rule) (spans : List Span) :
    r.reportOf (.fail spans) = (Outcome.placesOf spans).map fun s => r.entry false [s] := by
  cases spans with
  | nil => rfl
  | cons span rest => rfl

/-- The metadata of a document may be put in the place of themselves. -/
theorem context_with_metadata (doc : SourceDocument) (strict : Bool) :
    { doc.context strict with metadata := doc.metadata } = doc.context strict := by
  rw [SourceDocument.context]

/-- The entries of a rule stand together among those of an audit. -/
theorem entries_infix_verify {r : Rule} (registry : Registry) (options : AuditOptions)
    {doc : SourceDocument} {topic : String} {entries : List AuditEntry}
    (htopic : doc.metadata.topic? = some topic)
    (hr : r ∈ registry.applicable options.ruleSet topic)
    (heval : r.evaluate { doc.context options.strict with metadata := doc.metadata } =
      .ok entries) :
    entries <:+: (Audit.verify registry options doc).entries := by
  rw [context_with_metadata] at heval
  have hsorts := Audit.stablySorts_mergeSort Rule.ruleNum
    (registry.applicable options.ruleSet topic)
  have htogether := ((List.singleton_infix_iff r _).mpr ((hsorts.mem_iff r).mpr hr)).flatMap
    (Audit.contribution (doc.context options.strict))
  rw [Audit.verify_entries htopic hsorts]
  rwa [List.flatMap_singleton, Audit.contribution, heval] at htogether

/-- A rule of a check that asks for what stands in the document, rather than for metadata, reports
each violation once and in the order of the document, with any engine, in either mode and whatever
the metadata are. The matches of a forbidden pattern are sorted and repeated ones dropped, so that
nothing is asked of the order in which the engine finds them:

* it has an outcome, and the spans of a failure rise strictly by start and then by stop;
* it is evaluated to entries if the engine finds its matches in the text that it searches;
* of the entries there is one failing entry for each span in their order, or one at the start of the
  document if something is missing, and its diagnostics are those of the same spans in the same
  order;
* in an audit in which it applies, its entries stand together in that order, and so do its
  diagnostics. -/
theorem ofDescriptor_inOrder (engine : Engine) (doc : SourceDocument) (strict : Bool)
    (metadata : Metadata) (d : RuleDescriptor) (r : Rule) (h : ofDescriptor engine d = .ok r)
    (hcheck : d.check.asksMetadata = false) :
    let ctx : AuditContext := { doc.context strict with metadata }
    ∃ outcome, r.strategy ctx = .ok outcome ∧
      (∀ spans, outcome = .fail spans →
        spans.Pairwise (fun a b => a.precedes b = true) ∧ spans.Nodup) ∧
      (engine.FindsInText → ∃ entries, r.evaluate ctx = .ok entries) ∧
      ∀ entries, r.evaluate ctx = .ok entries →
        (∀ spans, outcome = .fail spans →
          entries = (Outcome.placesOf spans).map (fun s => r.entry false [s]) ∧
          Diagnostic.ofEntries entries =
            (Outcome.placesOf spans).map fun s => ⟨s, r.title, .warning, r.ruleNum⟩) ∧
        ∀ registry ruleSet topic, metadata = doc.metadata → metadata.topic? = some topic →
          r ∈ registry.applicable ruleSet topic →
            let report := Audit.verify registry ⟨ruleSet, strict⟩ doc
            entries <:+: report.entries ∧
              Diagnostic.ofEntries entries <:+: Diagnostic.ofEntries report.entries := by
  intro ctx
  obtain ⟨strategy, hcompile, hr⟩ := Check.exists_of_bind_eq_ok h
  obtain rfl := Except.ok.inj hr
  obtain ⟨outcomeOf, hdecides, rfl⟩ := Check.exists_decides_of_compile hcompile
  have hinOrder := hdecides.failsInOrder hcheck (walksForward_context doc strict metadata)
  refine ⟨outcomeOf ctx, rfl, ?_, ?_, ?_⟩
  · intro spans hfail
    have hincreasing := hinOrder spans hfail
    exact ⟨hincreasing, hincreasing.nodup⟩
  · intro hengine
    have hinText := hdecides.inText hengine (fitsSource_context doc strict metadata)
    exact ⟨_, evaluate_of_inText rfl hinText⟩
  · intro entries heval
    -- Whatever is evaluated is the report of the outcome.
    obtain ⟨outcome, houtcome, hentries⟩ := exists_reportOf_of_evaluate heval
    obtain rfl := Except.ok.inj houtcome
    refine ⟨?_, ?_⟩
    · intro spans hfail
      rw [hentries, hfail, reportOf_fail]
      exact ⟨rfl, Diagnostic.ofEntries_map_entry _ _⟩
    · rintro registry ruleSet topic rfl htopic hr report
      have htogether := entries_infix_verify registry ⟨ruleSet, strict⟩ htopic hr heval
      exact ⟨htogether, htogether.flatMap Diagnostic.ofEntry⟩

/-- Two headings that skip a level. -/
theorem ofDescriptor_inOrder_jumps :
    let doc : SourceDocument := .plain "a.md" "## A\n\n#### B\n"
    let metadata : Metadata := .empty
    let d : RuleDescriptor := ⟨1, "MVC", "overview", none, "levels", .headingHierarchy⟩
    ∃ r, ofDescriptor .threaded d = .ok r ∧
      ∃ entries, r.evaluate { doc.context false with metadata } = .ok entries ∧
        Diagnostic.ofEntries entries =
          [⟨⟨0, 4⟩, "levels", .warning, 1⟩, ⟨⟨6, 12⟩, "levels", .warning, 1⟩] := by
  intro doc metadata d
  have hmarkdown : Toc.isToc "a.md"
      (Markdown.LineFacts.ofText false "## A\n\n#### B\n".toList) = false := by
    decide
  have hblocks : doc.blocks false = _ := Document.segment_eq_of_markdown hmarkdown
  have hjumps : Check.headingHierarchyOutcome { doc.context false with metadata } =
      .fail [⟨0, 4⟩, ⟨6, 12⟩] := by
    rw [Check.headingHierarchyOutcome, AuditContext.blocksOf, allBlocks_context, hblocks]
    cbv
  obtain ⟨r, hr⟩ : ∃ r, ofDescriptor .threaded d = .ok r := ⟨_, rfl⟩
  obtain ⟨outcome, houtcome, -, hevaluates, hreports⟩ :=
    ofDescriptor_inOrder .threaded doc false metadata d r hr rfl
  obtain ⟨entries, heval⟩ := hevaluates Engine.findsInText_threaded
  refine ⟨r, hr, entries, heval, ?_⟩
  obtain rfl := Except.ok.inj hr
  obtain rfl := Except.ok.inj houtcome
  exact ((hreports entries heval).1 _ hjumps).2

end Rule

end ArticleAudit
