import ArticleAudit.CommandLine.Run
import ArticleAudit.Proofs.Audit.Merging

/-!
# What a run shows

Failures are localized, so each failing entry is shown as one diagnostic, in the order of the
entries (`Audit.verify_shows`), and there are none exactly when no entry failed
(`Diagnostic.ofEntries_eq_nil_iff`). A document can be loaded exactly when the text of its file can
be read, whatever the configuration of its site is (`SourceDocument.exists_load`,
`SourceDocument.exists_load_error`). A run that audits a document prints the whole trace and a line
for each failing entry, and its status tells whether there are any; a run that cannot load its
document prints nothing (`withWords_shows`).
-/

set_option autoImplicit false

namespace ArticleAudit

open ArticleAudit.Files ArticleAudit.Pattern ArticleAudit.Text

variable {files : FileTree} {path : String}

/-! ## Diagnostics of an audit -/

namespace Diagnostic

variable {size : Nat} {entries : List AuditEntry}

/-- The diagnostic shows the entry: a warning with its title and its number at its one span, which
lies within a document of the size. -/
structure Shows (size : Nat) (e : AuditEntry) (d : Diagnostic) : Prop where
  range : e.indexes = [d.range]
  within : d.range.isValidFor size = true
  message : d.message = e.title
  severity : d.severity = .warning
  ruleNum : d.ruleNum = e.ruleNum

/-- Localized failures are shown one by one. -/
theorem forall₂_shows (h : ∀ e ∈ entries, e.Localized size) :
    List.Forall₂ (Shows size) (entries.filter fun e => !e.success) (ofEntries entries) := by
  induction entries with
  | nil => exact .nil
  | cons e rest ih =>
    obtain ⟨he, hrest⟩ := List.forall_mem_cons.mp h
    rw [ofEntries, List.flatMap_cons]
    cases hsuccess : e.success with
    | true =>
      have hnone : ofEntry e = [] := by
        rw [ofEntry, hsuccess, if_pos rfl]
      rw [List.filter_cons_of_neg (by simp [hsuccess]), hnone, List.nil_append]
      exact ih hrest
    | false =>
      -- A failure that has exactly one span is shown exactly once.
      obtain ⟨s, hindexes, hwithin⟩ := he hsuccess
      have hone : ofEntry e = [⟨s, e.title, .warning, e.ruleNum⟩] := by
        simp [ofEntry, rangesOf, hsuccess, hindexes]
      rw [List.filter_cons_of_pos (by simp [hsuccess]), hone, List.singleton_append]
      exact .cons ⟨hindexes, hwithin, rfl, rfl, rfl⟩ (ih hrest)

theorem rangesOf_ne_nil (e : AuditEntry) : rangesOf e ≠ [] := by
  unfold rangesOf
  split
  · exact List.cons_ne_nil _ _
  · next h => simpa using h

/-- There is nothing to show exactly when no entry failed. -/
theorem ofEntries_eq_nil_iff : ofEntries entries = [] ↔ ∀ e ∈ entries, e.success = true := by
  rw [ofEntries, List.flatMap_eq_nil_iff]
  apply forall₂_congr
  intro e _
  cases hsuccess : e.success with
  | true => simp [ofEntry, hsuccess]
  | false => simp [ofEntry, hsuccess, rangesOf_ne_nil]

end Diagnostic

/-- An audit shows its failures, each of them once. -/
theorem Audit.verify_shows (registry : Registry) (options : AuditOptions) (doc : SourceDocument) :
    List.Forall₂ (Diagnostic.Shows (byteSize doc.text.toList))
      ((verify registry options doc).entries.filter fun e => !e.success)
      (Diagnostic.ofEntries (verify registry options doc).entries) :=
  Diagnostic.forall₂_shows fun _ => localized_of_mem_verify

/-! ## Loading a document -/

namespace SourceDocument

/-- A file that can be read is there. -/
theorem pathExists_of_readText? {text : String} (h : files.readText? path = some text) :
    files.pathExists path = true := by
  unfold FileTree.readText? at h
  split at h
  · next hfind => rw [FileTree.pathExists, hfind, Option.isSome_some]
  · cases h

/-- A document whose text can be read is loaded under its path, with defaults of its site if there
are any. -/
theorem exists_load {text : String} (h : files.readText? path = some text) :
    ∃ doc, load files path = .ok doc ∧ doc.fileName = path ∧ doc.text = text := by
  have hread : read files path = .ok (plain path text) := by
    simp [read, pathExists_of_readText? h, h]
  rw [load, hread]
  -- A site without a configuration, or with one that cannot be read, leaves the document as it is.
  cases hsite : (findSite? files path).map (readSite files) with
  | none => exact ⟨plain path text, rfl, rfl, rfl⟩
  | some site =>
    cases site with
    | ok defaults => exact ⟨{ plain path text with defaults }, rfl, rfl, rfl⟩
    | error e => exact ⟨plain path text, rfl, rfl, rfl⟩

/-- A document whose text cannot be read is not loaded. -/
theorem exists_load_error (h : files.readText? path = none) : ∃ e, load files path = .error e := by
  have hread : ∃ e, read files path = .error e := by
    unfold read
    rw [h]
    split
    · exact ⟨_, rfl⟩
    · exact ⟨_, rfl⟩
  obtain ⟨e, hread⟩ := hread
  refine ⟨e, ?_⟩
  rw [load, hread]
  rfl

end SourceDocument

/-! ## Running -/

namespace Run

/-- The status tells whether an entry failed. -/
theorem reportStatus_eq (report : AuditReport) :
    reportStatus report = if ∀ e ∈ report.entries, e.success = true then 0 else 1 := by
  unfold reportStatus
  by_cases h : ∀ e ∈ report.entries, e.success = true
  · rw [if_pos h, if_pos (List.isEmpty_iff.mpr (Diagnostic.ofEntries_eq_nil_iff.mpr h))]
  · have hsome : ¬ (Diagnostic.ofEntries report.entries).isEmpty = true :=
      fun hnil => h (Diagnostic.ofEntries_eq_nil_iff.mp (List.isEmpty_iff.mp hnil))
    rw [if_neg h, if_neg hsome]

/-- Words that name a document, and do not ask for the settings to be written, audit it. -/
theorem withWords_eq_audit (engine : Engine) {env : Environment} {words : List String}
    {a : Arguments}
    (hwords : Arguments.ofWords? words = some a) (hinit : a.initConfig = false)
    (hfile : a.file? = some path) :
    withWords files env words engine =
      audit engine files (effective files env a).1 path (effective files env a).2 := by
  rw [withWords, hwords]
  simp only [withArguments, hinit, hfile, Bool.false_eq_true, if_false]

/-- An audit of a document that can be read prints its trace and what it shows. -/
theorem audit_of_readText? (engine : Engine) {text : String}
    (h : files.readText? path = some text) (s : Settings) (errors : List String) :
    ∃ doc, SourceDocument.load files path = .ok doc ∧ doc.fileName = path ∧ doc.text = text ∧
      audit engine files s path errors =
        let report := Audit.verify (registry engine files s) (auditOptions s) doc
        ⟨reportStatus report, report.trace ++
          (Diagnostic.ofEntries report.entries).map (Diagnostic.line path text.toList),
          errors, files⟩ := by
  obtain ⟨doc, hload, rfl, rfl⟩ := SourceDocument.exists_load h
  refine ⟨doc, hload, rfl, rfl, ?_⟩
  rw [audit, hload]
  rfl

/-- An audit of a document that cannot be read says so and prints nothing. -/
theorem audit_of_unreadable (engine : Engine) (h : files.readText? path = none) (s : Settings)
    (errors : List String) :
    ∃ message,
      audit engine files s path errors = ⟨2, [], errors ++ [errorLine message], files⟩ := by
  obtain ⟨e, hload⟩ := SourceDocument.exists_load_error h
  refine ⟨fileMessage path e, ?_⟩
  rw [audit, hload]

/-- What the user sees is exactly the failing entries. Whatever the rules are, an audit shows one
diagnostic for each failing entry, in the order of the entries: by rule number, and then as the
rules report them. A run with a document prints the whole trace and then a line for each diagnostic,
and ends with 0 if no entry failed and with 1 otherwise; if the document cannot be read, it prints
no trace and ends with 2. -/
theorem withWords_shows (engine : Engine) :
    (∀ (registry : Registry) (options : AuditOptions) (doc : SourceDocument),
      let entries := (Audit.verify registry options doc).entries
      List.Forall₂ (Diagnostic.Shows (byteSize doc.text.toList))
        (entries.filter fun e => !e.success) (Diagnostic.ofEntries entries) ∧
      Audit.StablySorts AuditEntry.ruleNum (Audit.reported registry options doc) entries) ∧
    ∀ (files : FileTree) (env : Environment) (words : List String) (a : Arguments) (path : String),
      Arguments.ofWords? words = some a → a.initConfig = false → a.file? = some path →
      let run := withWords files env words engine
      let settings := (effective files env a).1
      (∀ text, files.readText? path = some text →
        ∃ doc, SourceDocument.load files path = .ok doc ∧ doc.fileName = path ∧ doc.text = text ∧
          let report := Audit.verify (registry engine files settings) (auditOptions settings) doc
          run.output = report.trace ++
            (Diagnostic.ofEntries report.entries).map (Diagnostic.line path text.toList) ∧
          run.status = (if ∀ e ∈ report.entries, e.success = true then 0 else 1) ∧
          run.files = files) ∧
      (files.readText? path = none →
        run.status = 2 ∧ run.output = [] ∧ run.files = files ∧
          ∃ message, errorLine message ∈ run.errors) := by
  constructor
  · intro registry options doc
    exact ⟨Audit.verify_shows registry options doc, Audit.verify_stablySorts registry options doc⟩
  · intro files env words a path hwords hinit hfile
    rw [withWords_eq_audit engine hwords hinit hfile]
    constructor
    · intro text htext
      obtain ⟨doc, hload, hname, hdoc, haudit⟩ :=
        audit_of_readText? engine htext (effective files env a).1 (effective files env a).2
      refine ⟨doc, hload, hname, hdoc, ?_⟩
      rw [haudit]
      exact ⟨rfl, reportStatus_eq _, rfl⟩
    · intro hnone
      obtain ⟨message, haudit⟩ :=
        audit_of_unreadable engine hnone (effective files env a).1 (effective files env a).2
      rw [haudit]
      exact ⟨rfl, rfl, rfl, message, List.mem_append_right _ (List.mem_singleton_self _)⟩

/-- A rule that misses something, a document without a topic, and a document that is not there. -/
theorem withWords_shows_noTopic :
    let files := FileTree.empty.add "a.md" (.file "x".toUTF8)
    let registry : Registry := .ofRules [⟨2, "MVC", "x", none, "t", fun _ => .ok (.fail [])⟩]
    let entries := (Audit.verify registry ⟨"MVC", false⟩ (.plain "a.md" "ms.topic: x")).entries
    let run path := withWords files ⟨[]⟩ [path] .threaded
    entries = [⟨"t", false, 2, [.point 0]⟩] ∧
      List.Forall₂ (Diagnostic.Shows (byteSize "ms.topic: x".toList))
        (entries.filter fun e => !e.success) (Diagnostic.ofEntries entries) ∧
      files.readText? "a.md" = some "x" ∧
      (run "a.md").output =
        ["Verifying file: a.md", "No MS.Topic detected for MVC guidance"] ∧
      ((run "a.md").status = 0 ∨ (run "a.md").status = 1) ∧
      files.readText? "b.md" = none ∧ (run "b.md").status = 2 := by
  intro files registry entries run
  have hread : files.readText? "a.md" = some "x" := by
    decide +kernel
  have hnone : files.readText? "b.md" = none := by
    decide +kernel
  have hshows := (withWords_shows .threaded).1 registry ⟨"MVC", false⟩ (.plain "a.md" "ms.topic: x")
  have hruns := fun path => (withWords_shows .threaded).2 files ⟨[]⟩ [path]
  have hstatus : (run "a.md").status = 0 ∨ (run "a.md").status = 1 := by
    obtain ⟨doc, -, -, -, -, hstatus, -⟩ :=
      (hruns "a.md" { Arguments.empty with file? := some "a.md" } "a.md" (by decide +kernel) rfl
        rfl).1 "x" hread
    rw [hstatus]
    split
    · exact Or.inl rfl
    · exact Or.inr rfl
  refine ⟨by decide +kernel, hshows.1, hread, by decide +kernel, hstatus, hnone, ?_⟩
  exact ((hruns "b.md" { Arguments.empty with file? := some "b.md" } "b.md" (by decide +kernel) rfl
    rfl).2 hnone).1

end Run

end ArticleAudit
