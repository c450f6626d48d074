import ArticleAudit.Audit.Verify
import ArticleAudit.Proofs.Audit.Sorting
import ArticleAudit.Proofs.Rule.Reports

/-!
# An audit as a merge of rules

Every rule is evaluated on its own: what one of them does, also to fail, changes nothing for the
others. The entries of an audit are therefore those of the applicable rules one rule after the
other, with the rules stably sorted by number (`verify_merges`), although the audit runs the rules
in the order of loading and sorts their entries afterwards (`verify_stablySorts`). Each failure
among them refers to one span of the document (`localized_of_mem_verify`).
-/

set_option autoImplicit false

namespace ArticleAudit.Audit

open ArticleAudit.Text

variable {ctx : AuditContext} {r : Rule}

/-- What a rule adds to the entries of an audit: nothing if it fails. -/
def contribution (ctx : AuditContext) (r : Rule) : List AuditEntry :=
  match r.evaluate ctx with
  | .ok entries => entries
  | .error _ => []

/-- What a rule adds to the trace of an audit: a line if it fails. -/
def complaint? (ctx : AuditContext) (r : Rule) : Option String :=
  match r.evaluate ctx with
  | .ok _ => none
  | .error e => some e.message

/-- A rule that adds something adds its report. -/
theorem reports_contribution (h : contribution ctx r ≠ []) :
    Rule.Reports r (contribution ctx r) := by
  unfold contribution at *
  split at h
  case h_1 entries heval => exact Rule.reports_of_evaluate heval
  case h_2 => exact absurd rfl h

/-- What a rule adds has its number. -/
theorem ruleNum_of_mem_contribution {e : AuditEntry} (h : e ∈ contribution ctx r) :
    e.ruleNum = r.ruleNum :=
  (reports_contribution (List.ne_nil_of_mem h)).ruleNum_eq e h

/-- The entries of the results are what the rules add. -/
theorem entriesOf_results (rules : List Rule) (ctx : AuditContext) :
    entriesOf (rules.map fun r => r.evaluate ctx) = rules.flatMap (contribution ctx) := by
  rw [entriesOf, List.flatMap_map]
  rfl

/-- The messages of the results are what the rules complain of. -/
theorem messagesOf_results (rules : List Rule) (ctx : AuditContext) :
    messagesOf (rules.map fun r => r.evaluate ctx) = rules.filterMap (complaint? ctx) := by
  rw [messagesOf, List.filterMap_map]
  rfl

/-- Entries sorted by number are what the rules add, in the order of the sorted rules. -/
theorem sortEntries_flatMap {rules sorted : List Rule}
    (h : StablySorts Rule.ruleNum rules sorted) :
    sortEntries (rules.flatMap (contribution ctx)) = sorted.flatMap (contribution ctx) := by
  have hentries : StablySorts AuditEntry.ruleNum (rules.flatMap (contribution ctx))
      (sorted.flatMap (contribution ctx)) :=
    h.flatMap fun r e he => ruleNum_of_mem_contribution he
  exact (stablySorts_mergeSort _ _).unique hentries

/-- The entries of an audit are those of the rules stably sorted by number. -/
theorem verify_entries {registry : Registry} {options : AuditOptions} {doc : SourceDocument}
    {topic : String} (htopic : doc.metadata.topic? = some topic) {sorted : List Rule}
    (h : StablySorts Rule.ruleNum (registry.applicable options.ruleSet topic) sorted) :
    (verify registry options doc).entries =
      sorted.flatMap (contribution (doc.context options.strict)) := by
  simp only [verify, htopic]
  split
  case isTrue hempty =>
    rw [List.isEmpty_iff.mp hempty] at h
    have hnil : sorted = [] := (h.unique ⟨.nil, fun _ => rfl⟩)
    rw [hnil]
    rfl
  case isFalse =>
    simp only [runRules, entriesOf_results]
    exact sortEntries_flatMap h

/-- What the applicable rules report of a document, in the order of loading; nothing if it has no
topic. -/
def reported (registry : Registry) (options : AuditOptions) (doc : SourceDocument) :
    List AuditEntry :=
  match doc.metadata.topic? with
  | none => []
  | some topic =>
    (registry.applicable options.ruleSet topic).flatMap (contribution (doc.context options.strict))

/-- The entries of an audit are what the rules report, by rule number and then in that order. -/
theorem verify_stablySorts (registry : Registry) (options : AuditOptions) (doc : SourceDocument) :
    StablySorts AuditEntry.ruleNum (reported registry options doc)
      (verify registry options doc).entries := by
  unfold reported
  cases htopic : doc.metadata.topic? with
  | none =>
    simp only [verify, htopic]
    exact ⟨.nil, fun _ => rfl⟩
  | some topic =>
    rw [verify_entries htopic (stablySorts_mergeSort _ _)]
    exact (stablySorts_mergeSort _ _).flatMap fun r e he => ruleNum_of_mem_contribution he

/-- Every failure of an audit is localized in the document. -/
theorem localized_of_mem_verify {registry : Registry} {options : AuditOptions}
    {doc : SourceDocument} {e : AuditEntry} (h : e ∈ (verify registry options doc).entries) :
    e.Localized (byteSize doc.text.toList) := by
  have hreported := ((verify_stablySorts registry options doc).mem_iff e).mp h
  unfold reported at hreported
  split at hreported
  · cases hreported
  · obtain ⟨r, -, he⟩ := List.mem_flatMap.mp hreported
    unfold contribution at he
    split at he
    · next found heval => exact Rule.localized_of_evaluate heval e he
    · cases he

/-- The trace of an audit for which rules apply. -/
theorem verify_trace {registry : Registry} {options : AuditOptions} {doc : SourceDocument}
    {topic : String} (htopic : doc.metadata.topic? = some topic)
    (hrules : registry.applicable options.ruleSet topic ≠ []) :
    (verify registry options doc).trace =
      startLine doc.fileName ::
        (registry.applicable options.ruleSet topic).filterMap
          (complaint? (doc.context options.strict)) ++
        (verify registry options doc).entries.map entryLine := by
  have hrun : verify registry options doc =
      runRules (registry.applicable options.ruleSet topic) (doc.context options.strict) := by
    simp [verify, htopic, hrules]
  rw [hrun]
  simp only [runRules, messagesOf_results]
  rfl

/-- An audit of a document with a topic merges what the applicable rules report, each of them on its
own:

* the entries are those of the rules one after the other, the rules stably sorted by number;
* a rule that fails adds none, one with a span outside the document fails, and every other one adds
  either one entry for its success or some for its failures, with one span each;
* if a rule applies, the trace has the line of the file, the lines of the rules that fail in the
  order of loading, and the lines of the entries in their order. -/
theorem verify_merges (registry : Registry) (options : AuditOptions) (doc : SourceDocument)
    (topic : String) (htopic : doc.metadata.topic? = some topic) :
    let rules := registry.applicable options.ruleSet topic
    let ctx := doc.context options.strict
    let report := verify registry options doc
    (∃ sorted, StablySorts Rule.ruleNum rules sorted ∧
      report.entries = sorted.flatMap (contribution ctx)) ∧
    (∀ r ∈ rules, ∀ entries, r.evaluate ctx = .ok entries →
      contribution ctx r = entries ∧ Rule.Reports r entries) ∧
    (∀ r ∈ rules, ∀ e, r.evaluate ctx = .error e → contribution ctx r = []) ∧
    (∀ r ∈ rules, ∀ outcome, r.strategy ctx = .ok outcome →
      ∀ s ∈ outcome.spans, s.isValidFor (byteSize doc.text.toList) = false →
        (∃ e, r.evaluate ctx = .error e) ∧ contribution ctx r = []) ∧
    (rules ≠ [] →
      report.trace = ("Verifying file: " ++ doc.fileName) :: rules.filterMap (complaint? ctx) ++
        report.entries.map fun e => e.title ++ ": " ++ toString e.success) := by
  intro rules ctx report
  refine ⟨⟨_, stablySorts_mergeSort Rule.ruleNum rules,
    verify_entries htopic (stablySorts_mergeSort _ _)⟩, ?_, ?_, ?_, verify_trace htopic⟩
  · intro r _ entries heval
    refine ⟨?_, Rule.reports_of_evaluate heval⟩
    rw [contribution, heval]
  · intro r _ e heval
    rw [contribution, heval]
  · intro r _ outcome houtcome s hs hout
    obtain ⟨e, heval⟩ := Rule.evaluate_of_outside houtcome hs hout
    refine ⟨⟨e, heval⟩, ?_⟩
    rw [contribution, heval]

/-- A registry in which a rule with a span outside the document stands between two others. -/
theorem verify_merges_failingRule :
    let doc : SourceDocument := .plain "a.md" "ms.topic: x"
    let registry : Registry := .ofRules [⟨2, "MVC", "x", none, "late", fun _ => .ok (.fail [])⟩,
      ⟨1, "MVC", "x", none, "outside", fun _ => .ok (.pass [⟨0, 99⟩])⟩,
      ⟨1, "MVC", "x", none, "early", fun _ => .ok (.pass [])⟩]
    doc.metadata.topic? = some "x" ∧
      ∃ sorted, StablySorts Rule.ruleNum (registry.applicable "MVC" "x") sorted ∧
        (verify registry ⟨"MVC", false⟩ doc).entries =
          sorted.flatMap (contribution (doc.context false)) := by
  intro doc registry
  have htopic : doc.metadata.topic? = some "x" := by
    decide +kernel
  exact ⟨htopic, (verify_merges registry ⟨"MVC", false⟩ doc "x" htopic).1⟩

end ArticleAudit.Audit
