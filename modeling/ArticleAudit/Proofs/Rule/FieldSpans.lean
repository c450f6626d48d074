import ArticleAudit.Proofs.Document.FlatFrontMatter
import ArticleAudit.Proofs.Rule.Bounds

/-!
# Where checks of metadata point

A check of metadata tests the value of a key and points at the first field of the key. In flat front
matter every key that a field has is pointed at, and the field holds the tested value if all fields
of the key agree (`Check.metadata_checks_point_at_fields`). What is missing has no field, and is
reported at the start of the document.
-/

set_option autoImplicit false

namespace ArticleAudit

open ArticleAudit.Text ArticleAudit.Markdown ArticleAudit.Metadata ArticleAudit.Pattern

variable {doc : SourceDocument} {strict : Bool} {fm : FrontMatter} {fields : List FlatField}

/-- The first block of a key is that of the first field of the key. -/
theorem find?_fieldBlock {blocks : List Block} (k : String)
    (h : List.Forall₂ (fun f b => ∃ start, f.IsBlock start b) fields blocks) :
    firstValue? k (fields.map FlatField.pair) =
      (blocks.find? fun b => b.tag == some k).map Block.contentText := by
  induction h with
  | nil => rfl
  | @cons f b fields blocks hblock _ ih =>
    obtain ⟨start, hb⟩ := hblock
    have htag : b.tag = some (normalizeKey f.pair.1) := hb.tag
    have hcontent : b.contentText = f.pair.2 := hb.contentText
    rw [List.map_cons, firstValue?_cons, ih]
    by_cases hk : k = normalizeKey f.pair.1
    · rw [List.find?_cons_of_pos (by rw [htag, hk]; exact beq_self_eq_true _), if_pos hk,
        Option.some_or, Option.map_some, hcontent]
    · rw [List.find?_cons_of_neg (by simpa [htag] using Ne.symm hk), if_neg hk, Option.none_or]

/-- The fields that a rule looks at are those of the document at every depth. -/
theorem blocksOf_metadataField (doc : SourceDocument) (strict : Bool) :
    (doc.context strict).blocksOf .metadataField none =
      (Block.preorderAll (doc.blocks strict)).filter (·.kind == .metadataField) := by
  simp [AuditContext.blocksOf, allBlocks_context]

namespace SourceDocument

/-- An article whose front matter is flat and read by YAML as the texts that it shows, and which is
audited as it is. -/
structure IsFlatArticle (doc : SourceDocument) (fm : FrontMatter) (fields : List FlatField) :
    Prop where
  name : FlatDocument.IsMarkdownName doc.fileName
  flat : FlatFrontMatter doc.text.toList fm fields
  yaml : ReadAsTexts (slice doc.text.toList fm.body) fields
  overrides : doc.overrides = []

/-- The span is that of a field of the key. If the first and the last field of the key have one
value, the field has the value of the key. -/
def PointsAtField (doc : SourceDocument) (strict : Bool) (fields : List FlatField) (key : String)
    (s : Span) : Prop :=
  ∃ b ∈ (doc.context strict).allBlocks, b.kind = .metadataField ∧ b.span = s ∧
    b.tag = some (normalizeKey key) ∧
    (AgreeOn fields key → doc.metadata.get? key = some b.contentText)

namespace IsFlatArticle

/-- The first field of a key that a rule looks at has the first value of the key. -/
theorem firstValue?_eq (h : doc.IsFlatArticle fm fields) (strict : Bool) (k : String) :
    firstValue? k (fields.map FlatField.pair) =
      (((doc.context strict).blocksOf .metadataField none).find? fun b => b.tag == some k).map
        Block.contentText := by
  rw [blocksOf_metadataField]
  exact find?_fieldBlock k (h.flat.forall₂_fields strict h.name)

/-- Only keys that no field has are not pointed at. -/
theorem fieldSpan?_eq_none_iff (h : doc.IsFlatArticle fm fields) {key : String} :
    (doc.context strict).fieldSpan? (normalizeKey key) = none ↔ hasKey fields key = false := by
  have hfirst := h.firstValue?_eq strict (normalizeKey key)
  have hnone : firstValue? (normalizeKey key) (fields.map FlatField.pair) = none ↔
      normalizeKey key ∉ normalKeys (fields.map FlatField.pair) := firstValue?_eq_none_iff
  rw [hfirst, Option.map_eq_none_iff] at hnone
  rw [AuditContext.fieldSpan?, Option.map_eq_none_iff, hnone, hasKey, Bool.eq_false_iff,
    ne_eq, List.contains_iff_mem]

/-- The field that is pointed at is the first of its key. Where it agrees with the last one, whose
value counts, it has the value of the key. -/
theorem pointsAtField_of_fieldSpan? (h : doc.IsFlatArticle fm fields) {key : String} {s : Span}
    (hs : (doc.context strict).fieldSpan? (normalizeKey key) = some s) :
    doc.PointsAtField strict fields key s := by
  obtain ⟨b, hfind, rfl⟩ := Option.map_eq_some_iff.mp hs
  obtain ⟨hb, hkind⟩ := List.mem_filter.mp (List.mem_of_find?_eq_some hfind)
  have htag := List.find?_some hfind
  -- The metadata have the last value of the key, and the field that is found has the first one.
  refine ⟨b, hb, by simpa using hkind, rfl, by simpa using htag, ?_⟩
  intro hagree
  have hlast : lastValue? (normalizeKey key) (fields.map FlatField.pair) = some b.contentText := by
    rw [← hagree, h.firstValue?_eq strict, hfind, Option.map_some]
  exact h.flat.get?_metadata h.name.notYaml h.yaml h.overrides hlast

/-- The keys that fields have are pointed at in order. -/
theorem forall₂_fieldSpans (h : doc.IsFlatArticle fm fields) (strict : Bool)
    (keys : List String) :
    List.Forall₂ (doc.PointsAtField strict fields) (keys.filter (hasKey fields))
      ((doc.context strict).fieldSpans (keys.map normalizeKey)) := by
  unfold AuditContext.fieldSpans
  induction keys with
  | nil => exact .nil
  | cons key keys ih =>
    rw [List.map_cons]
    cases hspan : (doc.context strict).fieldSpan? (normalizeKey key) with
    | none =>
      have hkey := h.fieldSpan?_eq_none_iff.mp hspan
      rw [List.filterMap_cons_none hspan, List.filter_cons_of_neg (Bool.eq_false_iff.mp hkey)]
      exact ih
    | some s =>
      have hkey : hasKey fields key = true := by
        by_contra hno
        rw [h.fieldSpan?_eq_none_iff.mpr (Bool.eq_false_iff.mpr hno)] at hspan
        cases hspan
      rw [List.filterMap_cons_some hspan, List.filter_cons_of_pos hkey]
      exact .cons (h.pointsAtField_of_fieldSpan? hspan) ih

end IsFlatArticle

end SourceDocument

namespace Check

/-- Whether a key is written in normal form or not makes no difference to what it lacks. -/
theorem lacks_normalizeKey (m : Metadata) (key : String) :
    lacks m (normalizeKey key) = lacks m key := by
  rw [lacks, lacks, Metadata.get?, Metadata.get?, normalizeKey_normalizeKey]

theorem spans_metadataMatchesOutcome (key : String) (pattern : Finder)
    (ctx : AuditContext) :
    (metadataMatchesOutcome key pattern ctx).spans = ctx.fieldSpans [key] := by
  simp only [metadataMatchesOutcome]
  split <;> rfl

/-- What the checks of metadata point at in an article with flat front matter. A check of the value
of a key points at a field of the key, if there is one, no matter whether it passes. A check that
keys have values points at a field for each key that has one, if no value is missing, and otherwise
at the start of the document, once for every missing value. -/
theorem metadata_checks_point_at_fields (engine : Engine) (doc : SourceDocument) (strict : Bool)
    (ruleNum : UInt32) {fm : FrontMatter} {fields : List FlatField}
    (h : doc.IsFlatArticle fm fields) :
    (∀ key text strategy, (Check.metadataMatches key text).compile ruleNum engine = .ok strategy →
      ∃ outcome, strategy (doc.context strict) = .ok outcome ∧
        List.Forall₂ (doc.PointsAtField strict fields) ([key].filter (hasKey fields))
          outcome.spans) ∧
    ∀ keys, ∃ strategy outcome, (Check.requireMetadata keys).compile ruleNum engine = .ok strategy ∧
      strategy (doc.context strict) = .ok outcome ∧
      if keys.filter (lacks doc.metadata) = [] then
        ∃ spans, outcome = .pass spans ∧
          List.Forall₂ (doc.PointsAtField strict fields) (keys.filter (hasKey fields)) spans
      else
        outcome =
          .fail (List.replicate (keys.filter (lacks doc.metadata)).length (.point 0)) := by
  constructor
  · intro key text strategy hcompile
    obtain ⟨_, hdecides, rfl⟩ := exists_decides_of_compile hcompile
    cases hdecides with
    | @metadataMatches _ _ pattern hpattern =>
      refine ⟨_, rfl, ?_⟩
      rw [spans_metadataMatchesOutcome]
      exact h.forall₂_fieldSpans strict [key]
  · intro keys
    -- The keys are tested in normal form.
    have hmissing : ((keys.map normalizeKey).filter (lacks doc.metadata)).length =
        (keys.filter (lacks doc.metadata)).length := by
      rw [List.filter_map, List.length_map]
      simp only [Function.comp_def, lacks_normalizeKey]
    refine ⟨_, _, rfl, rfl, ?_⟩
    have houtcome : requireMetadataOutcome (keys.map normalizeKey) (doc.context strict) =
        if (keys.filter (lacks doc.metadata)).length > 0 then
          .fail (List.replicate (keys.filter (lacks doc.metadata)).length (.point 0))
        else .pass ((doc.context strict).fieldSpans (keys.map normalizeKey)) := by
      rw [← hmissing]
      rfl
    rw [houtcome]
    split
    · next hnone =>
      rw [hnone, if_neg (by simp)]
      exact ⟨_, rfl, h.forall₂_fieldSpans strict keys⟩
    · next hsome => rw [if_pos (List.length_pos_of_ne_nil hsome)]

/-- A date. -/
def dateField : FlatField where
  key := "ms.date".toList
  value := "May".toList
  key_first := ⟨'m', rfl, rfl⟩
  key_chars := List.all_eq_true.mp rfl
  value_first := ⟨'M', rfl, rfl⟩
  value_chars := List.all_eq_true.mp rfl
  value_last := by decide

/-- An article with a date. -/
def datedArticle : SourceDocument :=
  .plain "a.md" "---\nms.date: May\n---\n# Intro\n"

/-- A date is looked up, and pointed at, under another spelling of its key. -/
theorem metadata_checks_point_at_fields_date :
    datedArticle.IsFlatArticle ⟨⟨0, 20⟩, ⟨4, 17⟩⟩ [dateField] ∧
      ∃ strategy outcome s,
        (Check.metadataMatches "MS.Date" "May").compile 1 .threaded = .ok strategy ∧
        strategy (datedArticle.context true) = .ok outcome ∧ outcome.spans = [s] ∧
        datedArticle.PointsAtField true [dateField] "MS.Date" s ∧
        AgreeOn [dateField] "MS.Date" := by
  have hflat : datedArticle.IsFlatArticle ⟨⟨0, 20⟩, ⟨4, 17⟩⟩ [dateField] := by
    have hlines : splitLines (slice datedArticle.text.toList ⟨4, 17⟩) =
        [dateField.line ++ ['\n']] := by
      decide
    refine ⟨⟨by decide, by decide, by decide⟩, ⟨by decide, ?_⟩, by decide +kernel, rfl⟩
    rw [hlines]
    exact .cons ⟨['\n'], .inl rfl, rfl⟩ .nil
  obtain ⟨strategy, hcompile⟩ :
      ∃ strategy, (Check.metadataMatches "MS.Date" "May").compile 1 .threaded = .ok strategy :=
    ⟨_, rfl⟩
  obtain ⟨hmatches, -⟩ := metadata_checks_point_at_fields .threaded datedArticle true 1 hflat
  obtain ⟨outcome, houtcome, hspans⟩ := hmatches "MS.Date" "May" strategy hcompile
  have hkeys : ["MS.Date"].filter (hasKey [dateField]) = ["MS.Date"] := by decide +kernel
  rw [hkeys] at hspans
  obtain ⟨s, _, hpoints, hnil, hs⟩ := List.forall₂_cons_left_iff.mp hspans
  rw [List.forall₂_nil_left_iff.mp hnil] at hs
  have hagree : AgreeOn [dateField] "MS.Date" := by
    unfold AgreeOn
    decide +kernel
  exact ⟨hflat, strategy, outcome, s, hcompile, houtcome, hs, hpoints, hagree⟩

/-- A later date under another spelling of the key. -/
def laterDateField : FlatField where
  key := "MS.Date".toList
  value := "Jun".toList
  key_first := ⟨'M', rfl, rfl⟩
  key_chars := List.all_eq_true.mp rfl
  value_first := ⟨'J', rfl, rfl⟩
  value_chars := List.all_eq_true.mp rfl
  value_last := by decide

/-- An article with two dates. -/
def redatedArticle : SourceDocument :=
  .plain "a.md" "---\nms.date: May\nMS.Date: Jun\n---\n"

theorem isFlatArticle_redatedArticle :
    redatedArticle.IsFlatArticle ⟨⟨0, 33⟩, ⟨4, 30⟩⟩ [dateField, laterDateField] := by
  have hlines : splitLines (slice redatedArticle.text.toList ⟨4, 30⟩) =
      [dateField.line ++ ['\n'], laterDateField.line ++ ['\n']] := by
    decide
  refine ⟨⟨by decide, by decide, by decide⟩, ⟨by decide, ?_⟩, by decide +kernel, rfl⟩
  rw [hlines]
  exact .cons ⟨['\n'], .inl rfl, rfl⟩ (.cons ⟨['\n'], .inl rfl, rfl⟩ .nil)

/-- The article has a field for each date, and both have one tag. -/
theorem fields_redatedArticle :
    ((redatedArticle.context true).blocksOf .metadataField none).map
        (fun b => (b.span, b.tag, b.contentText)) =
      [(⟨4, 16⟩, some "ms_date", "May"), (⟨17, 29⟩, some "ms_date", "Jun")] := by
  have hfront := isFlatArticle_redatedArticle.flat.frontMatter
  have hmarkdown := Document.isToc_of_frontMatter? true hfront
    isFlatArticle_redatedArticle.name.notToc
  rw [blocksOf_metadataField, SourceDocument.blocks,
    Document.filter_metadataField_segment true hfront hmarkdown]
  decide +kernel

/-- A title that is missing is reported where no field is, and the date that is tested is not the
one that is pointed at. -/
theorem redatedArticle_points_elsewhere :
    redatedArticle.IsFlatArticle ⟨⟨0, 33⟩, ⟨4, 30⟩⟩ [dateField, laterDateField] ∧
      dateField.key ≠ laterDateField.key ∧
      (∃ strategy, (Check.requireMetadata ["title"]).compile 1 .threaded = .ok strategy ∧
        strategy (redatedArticle.context true) = .ok (.fail [.point 0]) ∧
        ∀ b ∈ (redatedArticle.context true).allBlocks, b.kind = .metadataField →
          b.span ≠ .point 0 ∧ b.tag ≠ some (normalizeKey "title")) ∧
      (∃ strategy, (Check.metadataMatches "ms.date" "Jun").compile 1 .threaded = .ok strategy ∧
        strategy (redatedArticle.context true) = .ok (.pass [⟨4, 16⟩]) ∧
        redatedArticle.metadata.get? "ms.date" = some "Jun" ∧
        ∀ b ∈ (redatedArticle.context true).allBlocks, b.kind = .metadataField →
          b.span = ⟨4, 16⟩ → b.contentText = "May") := by
  have hfields : ∀ b ∈ (redatedArticle.context true).allBlocks, b.kind = .metadataField →
      (b.span, b.tag, b.contentText) ∈
        [(⟨4, 16⟩, some "ms_date", "May"), (⟨17, 29⟩, some "ms_date", "Jun")] := by
    intro b hb hkind
    rw [← fields_redatedArticle]
    refine List.mem_map_of_mem (List.mem_filter.mpr ⟨hb, ?_⟩)
    simp [hkind]
  have hspans : (redatedArticle.context true).fieldSpans [normalizeKey "ms.date"] = [⟨4, 16⟩] := by
    obtain ⟨b, rest, hblocks, hb, -⟩ := List.map_eq_cons_iff.mp fields_redatedArticle
    simp only [Prod.mk.injEq] at hb
    have htag : (b.tag == some (normalizeKey "ms.date")) = true := by
      rw [hb.2.1]
      decide +kernel
    have hspan : (redatedArticle.context true).fieldSpan? (normalizeKey "ms.date") =
        some ⟨4, 16⟩ := by
      simp [AuditContext.fieldSpan?, hblocks, htag, hb.1]
    rw [AuditContext.fieldSpans, List.filterMap_cons_some hspan]
    rfl
  have hdate : redatedArticle.metadata.get? "ms.date" = some "Jun" := by decide +kernel
  have hfits :
      ((Engine.threaded.compile? false "Jun").any fun p => p.isIn "Jun".toList) = true := by
    decide +kernel
  obtain ⟨pattern, hpattern, hisIn⟩ := (Option.any_eq_true _ _).mp hfits
  refine ⟨isFlatArticle_redatedArticle, by decide, ⟨_, rfl, ?_, ?_⟩,
    ⟨always (metadataMatchesOutcome (normalizeKey "ms.date") pattern), ?_, ?_, hdate, ?_⟩⟩
  · have hmissing : requireMetadataOutcome (["title"].map normalizeKey)
        (redatedArticle.context true) = .fail [.point 0] := by
      decide +kernel
    exact congrArg Except.ok hmissing
  · intro b hb hkind
    have hb := hfields b hb hkind
    simp only [List.mem_cons, Prod.mk.injEq, List.not_mem_nil, or_false] at hb
    have htitle : some "ms_date" ≠ some (normalizeKey "title") := by decide +kernel
    rcases hb with ⟨hspan, htag, -⟩ | ⟨hspan, htag, -⟩
    · rw [hspan, htag]
      exact ⟨by decide, htitle⟩
    · rw [hspan, htag]
      exact ⟨by decide, htitle⟩
  · rw [compile, patternOf, hpattern]
    rfl
  · have hget : (redatedArticle.context true).metadata.get? (normalizeKey "ms.date") =
        some "Jun" := by
      show redatedArticle.metadata.get? (normalizeKey "ms.date") = some "Jun"
      rw [Metadata.get?, normalizeKey_normalizeKey]
      exact hdate
    rw [always, metadataMatchesOutcome, hget, Option.any_some, if_pos hisIn, hspans]
  · intro b hb hkind hspan
    have hb := hfields b hb hkind
    simp only [List.mem_cons, Prod.mk.injEq, List.not_mem_nil, or_false] at hb
    rcases hb with ⟨-, -, hcontent⟩ | ⟨hlater, -, -⟩
    · exact hcontent
    · rw [hlater] at hspan
      cases hspan

end Check

end ArticleAudit
