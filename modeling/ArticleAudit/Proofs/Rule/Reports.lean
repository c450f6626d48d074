import ArticleAudit.Rule.Basic

/-!
# What a rule reports

The outcome of a strategy refers to spans of the document. They are checked one after the other, and
the first one that lies outside the document makes the rule fail (`Rule.mapM_checked`); so a rule
reports all of its spans or none of them (`Rule.evaluate_eq`). A report has one of two shapes
(`Rule.Reports`), and a failure in it refers to one span within the document
(`Rule.localized_of_evaluate`).
-/

set_option autoImplicit false

namespace ArticleAudit

open ArticleAudit.Text

/-- If the entry is a failure, it refers to one span within a document of the size. -/
def AuditEntry.Localized (size : Nat) (e : AuditEntry) : Prop :=
  e.success = false → ∃ s, e.indexes = [s] ∧ s.isValidFor size = true

/-- The spans that an outcome refers to. -/
def Outcome.spans : Outcome → List Span
  | .pass spans => spans
  | .fail spans => spans

namespace Rule

variable {r : Rule} {ctx : AuditContext} {entries : List AuditEntry}

/-- What one rule reports: that it passes, or where it is violated. -/
inductive Reports (r : Rule) : List AuditEntry → Prop
  /-- One entry that refers to whatever justifies the pass. -/
  | passes (spans : List Span) : Reports r [r.entry true spans]
  /-- At least one entry, and one span in each. -/
  | fails (span : Span) (spans : List Span) :
    Reports r ((span :: spans).map fun s => r.entry false [s])

/-- The entries of an outcome whose spans all lie within the document. -/
def reportOf (r : Rule) : Outcome → List AuditEntry
  | .pass spans => [r.entry true spans]
  | .fail [] => [r.entry false [.point 0]]
  | .fail spans => spans.map fun span => r.entry false [span]

/-- An outcome is reported in one of two ways. -/
theorem reports_reportOf (r : Rule) (outcome : Outcome) : Reports r (r.reportOf outcome) := by
  cases outcome with
  | pass spans => exact .passes spans
  | fail spans =>
    cases spans with
    | nil => exact .fails (.point 0) []
    | cons span rest => exact .fails span rest

/-- Every entry of a report has the number of its rule. -/
theorem Reports.ruleNum_eq (h : Reports r entries) :
    ∀ e ∈ entries, e.ruleNum = r.ruleNum := by
  cases h with
  | passes spans => simp [entry]
  | fails span spans => simp [entry]

/-- Spans are checked all together: the first one that lies outside the document makes it fail. -/
theorem mapM_checked {β : Type} (r : Rule) (size : Nat) (f : Span → β) (spans : List Span) :
    (spans.mapM fun s => do return f (← r.checked size s)) =
      match spans.find? fun s => !s.isValidFor size with
      | none => .ok (spans.map f)
      | some s => .error (.spanOutOfBounds r.ruleNum s size) := by
  induction spans with
  | nil => rfl
  | cons s rest ih =>
    rw [List.mapM_cons, ih]
    cases hs : s.isValidFor size with
    | false => simp [checked, hs, bind, Except.bind]
    | true =>
      rw [List.find?_cons_of_neg (by simp [hs])]
      cases rest.find? fun s => !s.isValidFor size <;>
        simp [checked, hs, bind, Except.bind, pure, Except.pure]

/-- The entries of an outcome are its report, unless one of its spans lies outside the document. -/
theorem entriesOf_eq (r : Rule) (size : Nat) (outcome : Outcome) :
    r.entriesOf size outcome =
      match outcome.spans.find? fun s => !s.isValidFor size with
      | none => .ok (r.reportOf outcome)
      | some s => .error (.spanOutOfBounds r.ruleNum s size) := by
  cases outcome with
  | pass spans =>
    have hchecked := mapM_checked r size id spans
    simp only [id_eq, bind_pure, List.map_id_fun] at hchecked
    simp only [entriesOf, hchecked, Outcome.spans]
    cases spans.find? fun s => !s.isValidFor size <;> rfl
  | fail spans =>
    cases spans with
    | nil => rfl
    | cons span rest => exact mapM_checked r size (fun s => r.entry false [s]) (span :: rest)

/-- A rule is evaluated to the report of its outcome, or fails as a whole. -/
theorem evaluate_eq (r : Rule) (ctx : AuditContext) :
    r.evaluate ctx =
      match r.strategy ctx with
      | .error e => .error e
      | .ok outcome =>
        match outcome.spans.find? fun s => !s.isValidFor (byteSize ctx.source) with
        | none => .ok (r.reportOf outcome)
        | some s => .error (.spanOutOfBounds r.ruleNum s (byteSize ctx.source)) := by
  unfold evaluate
  cases r.strategy ctx with
  | error e => rfl
  | ok outcome => exact entriesOf_eq r _ outcome

/-- Entries of a rule are the report of its outcome. -/
theorem exists_reportOf_of_evaluate (h : r.evaluate ctx = .ok entries) :
    ∃ outcome, r.strategy ctx = .ok outcome ∧ entries = r.reportOf outcome := by
  rw [evaluate_eq] at h
  split at h
  · cases h
  · next outcome houtcome =>
    split at h
    · exact ⟨outcome, houtcome, (Except.ok.inj h).symm⟩
    · cases h

theorem reports_of_evaluate (h : r.evaluate ctx = .ok entries) : Reports r entries := by
  obtain ⟨outcome, -, rfl⟩ := exists_reportOf_of_evaluate h
  exact reports_reportOf r outcome

/-- The entries of a rule that is evaluated are localized. -/
theorem localized_of_evaluate (h : r.evaluate ctx = .ok entries) :
    ∀ e ∈ entries, e.Localized (byteSize ctx.source) := by
  rw [evaluate_eq] at h
  split at h
  · cases h
  · next outcome _ =>
    split at h
    · next hvalid =>
      obtain rfl := Except.ok.inj h
      intro e he hfailed
      cases outcome with
      | pass spans =>
        -- A rule that passes reports no failure.
        obtain rfl := List.mem_singleton.mp he
        cases hfailed
      | fail spans =>
        cases spans with
        | nil =>
          obtain rfl := List.mem_singleton.mp he
          exact ⟨.point 0, rfl, Span.isValidFor_iff.mpr ⟨Nat.le_refl 0, Nat.zero_le _⟩⟩
        | cons first rest =>
          obtain ⟨s, hs, rfl⟩ := List.mem_map.mp he
          have hwithin := List.find?_eq_none.mp hvalid s hs
          exact ⟨s, rfl, by simpa using hwithin⟩
    · cases h

/-- A rule with a span outside the document fails. -/
theorem evaluate_of_outside {outcome : Outcome} {s : Span}
    (houtcome : r.strategy ctx = .ok outcome) (hs : s ∈ outcome.spans)
    (hout : s.isValidFor (byteSize ctx.source) = false) :
    ∃ e, r.evaluate ctx = .error e := by
  rw [evaluate_eq, houtcome]
  cases hfind : outcome.spans.find? fun s => !s.isValidFor (byteSize ctx.source) with
  | none =>
    have hvalid := List.find?_eq_none.mp hfind s hs
    simp [hout] at hvalid
  | some s' =>
    refine ⟨.spanOutOfBounds r.ruleNum s' (byteSize ctx.source), ?_⟩
    simp only [hfind]

end Rule

end ArticleAudit
