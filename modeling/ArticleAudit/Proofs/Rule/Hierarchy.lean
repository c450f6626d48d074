import ArticleAudit.Proofs.Document.Sections
import ArticleAudit.Proofs.Rule.Order

/-!
# No level is skipped

The check of the heading hierarchy compares each heading with the one before it, and nothing else.
What it decides is nevertheless a property of the tree of sections: no heading jumps down by more
than one level exactly when every heading below the first level lies in the section of an earlier
one that is one level above it (`Check.jumps_eq_nil_iff_noLevelSkipped`). For one direction, the
last earlier heading above a level is just above it, since levels go down one at a time
(`Check.exists_level_above`). For the other one, a heading that jumps comes after one that is no
deeper than the heading above, and there the section of the heading above has ended
(`Check.stop_le_of_not_deeper`). `Check.headingHierarchy_decides` is the result for documents.
-/

set_option autoImplicit false

namespace ArticleAudit.Check

open ArticleAudit.Block ArticleAudit.Pattern ArticleAudit.Text

variable {limit : Nat} {headers earlier : List Block}

/-! ## Headings and the level before them -/

/-- The level of the last of some headings; a given one if there are none. -/
def lastLevel (current : Nat) (headers : List Block) : Nat :=
  (headers.map (·.level)).getLastD current

@[simp] theorem lastLevel_nil (current : Nat) : lastLevel current [] = current :=
  rfl

@[simp] theorem lastLevel_cons (current : Nat) (header : Block) (rest : List Block) :
    lastLevel current (header :: rest) = lastLevel header.level rest :=
  List.getLastD_cons ..

@[simp] theorem lastLevel_concat (current : Nat) (headers : List Block) (last : Block) :
    lastLevel current (headers ++ [last]) = last.level := by
  simp [lastLevel]

/-- The headings that are more than one level below the one before them, the first one below a given
level. -/
def jumping (current : Nat) (headers : List Block) : List Block :=
  (((current :: headers.map (·.level)).zip headers).filter
    fun (previous, header) => previous + 1 < header.level).map (·.2)

/-- The check keeps the level of the heading before, and reports the headings that jump. -/
theorem jumps_eq (current : Nat) (headers : List Block) :
    jumps current headers = (jumping current headers).map (·.span) := by
  induction headers generalizing current with
  | nil => rfl
  | cons header rest ih =>
    rw [jumps, ih]
    by_cases hjump : current + 1 < header.level
    · simp [jumping, hjump]
    · simp [jumping, hjump]

/-- Nothing is reported when each heading is at most one level below the one before it. -/
theorem jumps_eq_nil_iff {current : Nat} :
    jumps current headers = [] ↔
      ∀ earlier header later, headers = earlier ++ header :: later →
        header.level ≤ lastLevel current earlier + 1 := by
  induction headers generalizing current with
  | nil => simp [jumps]
  | cons first rest ih =>
    rw [jumps, List.append_eq_nil_iff, ih]
    constructor
    · rintro ⟨hfirst, hrest⟩ earlier header later heq
      cases earlier with
      | nil =>
        obtain ⟨rfl, -⟩ := List.cons.inj heq
        by_contra hlt
        rw [if_pos (by simpa using hlt)] at hfirst
        cases hfirst
      | cons _ earlier =>
        obtain ⟨rfl, htail⟩ := List.cons.inj heq
        rw [lastLevel_cons]
        exact hrest earlier header later htail
    · intro h
      refine ⟨if_neg (Nat.not_lt.mpr (h [] first rest rfl)), ?_⟩
      rintro earlier header later rfl
      have := h (first :: earlier) header later rfl
      rwa [lastLevel_cons] at this

/-! ## Sections around headings -/

/-- Every heading below the first level lies in the section of an earlier one that is one level
above it. -/
def NoLevelSkipped (headers : List Block) : Prop :=
  ∀ earlier header later, headers = earlier ++ header :: later → 2 ≤ header.level →
    ∃ above ∈ earlier, above.level + 1 = header.level ∧
      ∃ r, above.region = some r ∧ r.contains header.span = true

/-- Where headings go down one level at a time from the first level on, what comes next at a deeper
level has before it a heading just above that level, with deeper ones only in between. -/
theorem exists_level_above {level : Nat} (h : jumps 0 earlier = [])
    (hstep : level ≤ lastLevel 0 earlier + 1) (hlevel : 2 ≤ level) :
    ∃ before above between, earlier = before ++ above :: between ∧ above.level + 1 = level ∧
      ∀ c ∈ between, level ≤ c.level := by
  induction earlier using List.reverseRecOn with
  | nil =>
    rw [lastLevel_nil] at hstep
    omega
  | append_singleton init last ih =>
    rw [lastLevel_concat] at hstep
    rw [jumps_eq_nil_iff] at h
    by_cases hlast : last.level < level
    · exact ⟨init, last, [], rfl, by omega, nofun⟩
    · -- The last heading is no higher, so it changes nothing for what comes next.
      have hinit : jumps 0 init = [] := by
        rw [jumps_eq_nil_iff]
        rintro earlier header later rfl
        exact h earlier header (later ++ [last]) (by simp)
      have hbefore : last.level ≤ lastLevel 0 init + 1 := h init last [] rfl
      obtain ⟨before, above, between, rfl, habove, hbetween⟩ := ih hinit (by omega)
      refine ⟨before, above, between ++ [last], by simp, habove, ?_⟩
      intro c hc
      rcases List.mem_append.mp hc with hc | hc
      · exact hbetween c hc
      · rw [List.mem_singleton.mp hc]
        omega

/-- A heading lies in the section of an earlier one if it is deeper, and so are those in between. -/
theorem contains_of_deeper {before between later : List Block} {above header : Block}
    (h : Sectioned limit headers) (hordered : Ordered limit headers)
    (hkind : ∀ b ∈ headers, b.kind = .header)
    (heq : headers = before ++ above :: (between ++ header :: later))
    (hdeeper : above.level < header.level) (hbetween : ∀ c ∈ between, above.level < c.level) :
    ∃ r, above.region = some r ∧ r.contains header.span = true := by
  obtain ⟨stop, hregion, -, hends⟩ :=
    h.section_ends before above _ heq (hkind above (by simp [heq]))
  refine ⟨_, hregion, Span.contains_iff.mpr ⟨?_, ?_⟩⟩
  · have horder := hordered.inOrder
    rw [heq] at horder
    have hafter := (List.pairwise_cons.mp (List.pairwise_append.mp horder).2.1).1 header (by simp)
    exact (hordered.start_le_stop above (by simp [heq])).trans hafter
  · rcases hends with ⟨passed, next, rest, hlater, -, hnext, -, rfl⟩ | ⟨-, rfl⟩
    · -- The heading that ends the section comes later.
      have hmem : next ∈ between ++ header :: later := by simp [hlater]
      rcases List.mem_append.mp hmem with hmem | hmem
      · exact absurd hnext (Nat.not_le.mpr (hbetween next hmem))
      · rcases List.mem_cons.mp hmem with rfl | hmem
        · exact absurd hnext (Nat.not_le.mpr hdeeper)
        · have horder := hordered.inOrder
          rw [heq, List.append_cons, ← List.append_assoc] at horder
          exact (List.pairwise_cons.mp (List.pairwise_append.mp horder).2.1).1 next hmem
    · exact hordered.stop_le header (by simp [heq])

/-- A section has ended where a heading starts that is not deeper. -/
theorem stop_le_of_not_deeper {before later : List Block} {above header : Block} {r : Span}
    (h : Sectioned limit (before ++ header :: later))
    (hkind : ∀ b ∈ before ++ header :: later, b.kind = .header) (habove : above ∈ before)
    (hlevel : header.level ≤ above.level) (hr : above.region = some r) :
    r.stop ≤ header.span.start := by
  obtain ⟨r', _, hr', -, hends⟩ := (List.pairwise_append.mp h.laminar).2.2 above habove header
    List.mem_cons_self (hkind above (by simp [habove])) (hkind header (by simp))
  obtain rfl := Option.some.inj (hr.symm.trans hr')
  rcases hends with hstop | ⟨hdeeper, -⟩
  · exact hstop
  · exact absurd hdeeper (Nat.not_lt.mpr hlevel)

/-- Where no heading jumps, no level is skipped. -/
theorem noLevelSkipped_of_jumps (h : Sectioned limit headers) (hordered : Ordered limit headers)
    (hkind : ∀ b ∈ headers, b.kind = .header) (hjumps : jumps 0 headers = []) :
    NoLevelSkipped headers := by
  rintro earlier header later rfl hlevel
  have hsteps := jumps_eq_nil_iff.mp hjumps
  have hearlier : jumps 0 earlier = [] := by
    rw [jumps_eq_nil_iff]
    rintro before b after rfl
    exact hsteps before b (after ++ header :: later) (by simp)
  obtain ⟨before, above, between, rfl, habove, hbetween⟩ :=
    exists_level_above hearlier (hsteps earlier header later rfl) hlevel
  refine ⟨above, by simp, habove, ?_⟩
  refine contains_of_deeper h hordered hkind (List.append_assoc ..) (by omega) ?_
  intro c hc
  have := hbetween c hc
  omega

/-- A heading that has one just above it around it does not jump: the last heading before it would
end the section around it. -/
theorem level_le_of_noLevelSkipped {last header : Block} {init later : List Block}
    (hheaders : headers = (init ++ [last]) ++ header :: later) (hskipped : NoLevelSkipped headers)
    (h : Sectioned limit headers) (hordered : Ordered limit headers)
    (hkind : ∀ b ∈ headers, b.kind = .header)
    (hstarts : headers.Pairwise fun a b => a.span.start < b.span.start) :
    header.level ≤ last.level + 1 := by
  subst hheaders
  by_contra hjump
  obtain ⟨above, hmem, habove, r, hr, hcontains⟩ :=
    hskipped (init ++ [last]) header later rfl (by omega)
  have hinit : above ∈ init := by
    rcases List.mem_append.mp hmem with hinit | hlast
    · exact hinit
    · rw [List.mem_singleton.mp hlast] at habove
      omega
  rw [List.append_assoc] at h hstarts
  have hstop : r.stop ≤ last.span.start :=
    stop_le_of_not_deeper h (by simpa using hkind) hinit (by omega) hr
  have hstart : last.span.start < header.span.start :=
    (List.pairwise_cons.mp (List.pairwise_append.mp hstarts).2.1).1 header List.mem_cons_self
  have hsound := hordered.start_le_stop header (by simp)
  have hreach := (Span.contains_iff.mp hcontains).2
  omega

/-- No heading jumps exactly when no level is skipped in the tree of sections. -/
theorem jumps_eq_nil_iff_noLevelSkipped (h : Sectioned limit headers)
    (hordered : Ordered limit headers) (hkind : ∀ b ∈ headers, b.kind = .header)
    (hstarts : headers.Pairwise fun a b => a.span.start < b.span.start) :
    jumps 0 headers = [] ↔ NoLevelSkipped headers := by
  constructor
  · exact noLevelSkipped_of_jumps h hordered hkind
  · intro hskipped
    rw [jumps_eq_nil_iff]
    intro earlier header later heq
    rcases List.eq_nil_or_concat' earlier with rfl | ⟨init, last, rfl⟩
    · -- There is no heading around the first one, so it is of the first level.
      by_contra hjump
      rw [lastLevel_nil] at hjump
      obtain ⟨above, hmem, -⟩ := hskipped [] header later heq (by omega)
      cases hmem
    · rw [lastLevel_concat]
      exact level_le_of_noLevelSkipped heq hskipped h hordered hkind hstarts

/-! ## Documents -/

/-- The headings that a rule may look at. -/
theorem blocksOf_header_context (doc : SourceDocument) (strict : Bool) (metadata : Metadata) :
    AuditContext.blocksOf { doc.context strict with metadata } .header none =
      headersOf (preorderAll (doc.blocks strict)) := by
  rw [AuditContext.blocksOf, allBlocks_context, headersOf]
  simp

/-- The headings of a document without zones are a family of sections. -/
theorem sectioned_headers (doc : SourceDocument) (strict : Bool)
    (hmarkdown : Toc.isToc doc.fileName
      (Markdown.LineFacts.ofText strict doc.text.toList) = false)
    (hzone : ∀ b ∈ preorderAll (doc.blocks strict), b.kind ≠ .zonePivot) :
    Sectioned (byteSize doc.text.toList) (headersOf (preorderAll (doc.blocks strict))) ∧
      Ordered (byteSize doc.text.toList) (headersOf (preorderAll (doc.blocks strict))) := by
  obtain ⟨hsectioned, hwell⟩ :=
    Document.wellSectioned_segment doc.fileName doc.text.toList strict
  have hordered : Ordered (byteSize doc.text.toList) (doc.blocks strict) := by
    rw [SourceDocument.blocks, Document.segment_eq_of_markdown hmarkdown]
    exact (Document.laid_forest doc.text.toList strict).ordered.assignRegions
  have htop : headersOf (preorderAll (doc.blocks strict)) = headersOf (doc.blocks strict) :=
    headersOf_preorderAll hwell hzone
  rw [htop]
  exact ⟨hsectioned.headers, hordered.filter _⟩

/-- In a document that is not a table of contents and has no zones, the check of the heading
hierarchy always has an outcome, whatever the metadata are:

* it passes exactly when every heading below the first level lies in the section of an earlier one
  that is one level above it;
* otherwise it fails with the headings that are more than one level below the one before them, or
  below level zero for the first one, in the order of the document. -/
theorem headingHierarchy_decides (engine : Engine) (doc : SourceDocument) (strict : Bool)
    (metadata : Metadata) (ruleNum : UInt32)
    (hmarkdown : Toc.isToc doc.fileName
      (Markdown.LineFacts.ofText strict doc.text.toList) = false)
    (hzone : ∀ b ∈ preorderAll (doc.blocks strict), b.kind ≠ .zonePivot) :
    let ctx : AuditContext := { doc.context strict with metadata }
    let headers := headersOf (preorderAll (doc.blocks strict))
    let violations := (jumping 0 headers).map (·.span)
    ∃ strategy, headingHierarchy.compile ruleNum engine = .ok strategy ∧
      (strategy ctx = .ok (.pass []) ↔ NoLevelSkipped headers) ∧
      (¬ NoLevelSkipped headers → strategy ctx = .ok (.fail violations)) ∧
      violations.Pairwise fun a b => a.precedes b = true := by
  intro ctx headers violations
  have hlooked : ctx.blocksOf .header none = headers := blocksOf_header_context doc strict metadata
  have hforward := walksForward_context doc strict metadata
  have hstarts : headers.Pairwise fun a b => a.span.start < b.span.start := by
    rw [← hlooked]
    exact pairwise_blocksOf hforward .header none
  obtain ⟨hsectioned, hordered⟩ := sectioned_headers doc strict hmarkdown hzone
  have hpasses := jumps_eq_nil_iff_noLevelSkipped hsectioned hordered
    (fun b hb => (mem_headersOf.mp hb).2) hstarts
  have hincreasing : Increasing (jumps 0 headers) := by
    rw [← hlooked]
    exact (increasing_blocksOf hforward .header none).sublist (sublist_jumps 0 _)
  have hanswer : always headingHierarchyOutcome ctx = .ok (failIfAny violations) := by
    rw [always, headingHierarchyOutcome, hlooked, jumps_eq]
  rw [jumps_eq] at hpasses hincreasing
  refine ⟨always headingHierarchyOutcome, rfl, ?_, ?_, hincreasing⟩
  · rw [hanswer, Except.ok.injEq, failIfAny_eq_pass_iff, hpasses]
  · intro hskipped
    rw [hanswer, failIfAny_of_ne_nil (hskipped ∘ hpasses.mp)]

/-- The second heading lies in the section of the first one. -/
theorem headingHierarchy_decides_levels :
    let doc : SourceDocument := .plain "a.md" "# A\n## B\n# C\n"
    let metadata : Metadata := .empty
    ∃ strategy, headingHierarchy.compile 1 .threaded = .ok strategy ∧
      strategy { doc.context false with metadata } = .ok (.pass []) ∧
      NoLevelSkipped (headersOf (preorderAll (doc.blocks false))) := by
  intro doc metadata
  have hmarkdown : Toc.isToc "a.md"
      (Markdown.LineFacts.ofText false "# A\n## B\n# C\n".toList) = false := by
    decide
  have hblocks : doc.blocks false = _ := Document.segment_eq_of_markdown hmarkdown
  have hkinds : (preorderAll (doc.blocks false)).map (·.kind) = [.header, .header, .header] := by
    rw [hblocks]
    cbv
  have hzone : ∀ b ∈ preorderAll (doc.blocks false), b.kind ≠ .zonePivot := by
    intro b hb hkind
    have hmem : b.kind ∈ (preorderAll (doc.blocks false)).map (·.kind) := List.mem_map_of_mem hb
    rw [hkinds, hkind] at hmem
    exact absurd hmem (by decide)
  obtain ⟨strategy, hcompile, hpasses, -⟩ :=
    headingHierarchy_decides .threaded doc false metadata 1 hmarkdown hzone
  have houtcome : strategy { doc.context false with metadata } = .ok (.pass []) := by
    obtain rfl := Except.ok.inj hcompile
    rw [always, headingHierarchyOutcome, blocksOf_header_context, hblocks]
    cbv
  exact ⟨strategy, hcompile, houtcome, hpasses.mp houtcome⟩

end ArticleAudit.Check
