import ArticleAudit.Audit.Diagnostic
import Mathlib.Data.List.Induction
import Mathlib.Data.List.Pairwise

/-!
# The diagnostics sink over a history of publications

A sink that starts empty and takes one publication after the other always holds the latest
diagnostics of every document. `LatestOf` says so of a sink and the calls so far; an empty sink has
it, one more publication keeps it (`LatestOf.publishEntries`), and so every history does
(`latestOf_published`). Main statement: one item for each document that was published, with the
diagnostics of its last entries, in the order of the last publications, and a publication leaves the
items of the other documents alone (`published_latest`).
-/

set_option autoImplicit false

namespace ArticleAudit.DiagnosticSink

variable {calls : List (String × List AuditEntry)} {s : DiagnosticSink} {id other : String}
  {entries entries' : List AuditEntry} {time time' : Nat}

/-- The documents that have an item, in the order of the items. -/
def ids (s : DiagnosticSink) : List String :=
  s.items.map Prod.fst

/-- The sink after publications one after the other, the first one on an empty sink. -/
def published (calls : List (String × List AuditEntry)) : DiagnosticSink :=
  calls.foldl (fun s call => s.publishEntries call.1 call.2) .empty

theorem published_append_singleton (calls : List (String × List AuditEntry)) (id : String)
    (entries : List AuditEntry) :
    published (calls ++ [(id, entries)]) = (published calls).publishEntries id entries := by
  rw [published, List.foldl_append]
  rfl

/-! ## Last publications -/

/-- The call at a time publishes the entries of a document, and no call after it is for that
document. -/
structure LastAt (calls : List (String × List AuditEntry)) (time : Nat) (id : String)
    (entries : List AuditEntry) : Prop where
  call : calls[time]? = some (id, entries)
  last : ∀ later entries', calls[later]? = some (id, entries') → later ≤ time

theorem LastAt.lt_length (h : LastAt calls time id entries) : time < calls.length :=
  (List.getElem?_eq_some_iff.mp h.call).1

/-- A document has one last publication. -/
theorem LastAt.unique (h : LastAt calls time id entries) (h' : LastAt calls time' id entries') :
    time = time' ∧ entries = entries' := by
  obtain rfl : time = time' := Nat.le_antisymm (h'.last _ _ h.call) (h.last _ _ h'.call)
  have hcall := h.call.symm.trans h'.call
  simp only [Option.some.injEq, Prod.mk.injEq, true_and] at hcall
  exact ⟨rfl, hcall⟩

/-- One more call is the last one for its document. -/
theorem lastAt_length (calls : List (String × List AuditEntry)) (id : String)
    (entries : List AuditEntry) :
    LastAt (calls ++ [(id, entries)]) calls.length id entries := by
  refine ⟨List.getElem?_concat_length, ?_⟩
  intro later entries' hlater
  have := (List.getElem?_eq_some_iff.mp hlater).1
  rw [List.length_append, List.length_singleton] at this
  omega

/-- One more call changes nothing about when other documents were published last. -/
theorem lastAt_append_singleton (hne : other ≠ id) :
    LastAt (calls ++ [(id, entries)]) time other entries' ↔ LastAt calls time other entries' := by
  -- The new call is for `id`, so a call for `other` is one of the earlier calls.
  have hcall : ∀ (t : Nat) (e : List AuditEntry), (calls ++ [(id, entries)])[t]? = some (other, e) ↔
      calls[t]? = some (other, e) := by
    intro t e
    rcases Nat.lt_trichotomy t calls.length with ht | rfl | ht
    · rw [List.getElem?_append_left ht]
    · simp [hne.symm]
    · rw [List.getElem?_eq_none (by simp; omega), List.getElem?_eq_none (Nat.le_of_lt ht)]
  constructor
  · rintro ⟨h, hlast⟩
    exact ⟨(hcall _ _).mp h, fun later e he => hlast later e ((hcall _ _).mpr he)⟩
  · rintro ⟨h, hlast⟩
    exact ⟨(hcall _ _).mpr h, fun later e he => hlast later e ((hcall _ _).mp he)⟩

/-- Every document that was published has a last publication. -/
theorem exists_lastAt_iff :
    (∃ time entries, LastAt calls time id entries) ↔ id ∈ calls.map Prod.fst := by
  constructor
  · rintro ⟨time, entries, h⟩
    exact List.mem_map.mpr ⟨(id, entries), List.mem_of_getElem? h.call, rfl⟩
  · intro hid
    induction calls using List.reverseRecOn with
    | nil => cases hid
    | append_singleton calls call ih =>
      obtain ⟨last, entries⟩ := call
      by_cases hlast : id = last
      · subst hlast
        exact ⟨_, _, lastAt_length calls id entries⟩
      · have hmem : id ∈ calls.map Prod.fst := by
          simpa [hlast] using hid
        obtain ⟨time, entries', h⟩ := ih hmem
        exact ⟨time, entries', (lastAt_append_singleton hlast).mpr h⟩

/-! ## One publication -/

theorem ids_publishEntries (s : DiagnosticSink) (id : String) (entries : List AuditEntry) :
    (s.publishEntries id entries).ids = (s.ids.filter fun other => other != id) ++ [id] := by
  simp [ids, publishEntries, publish, List.filter_map, Function.comp_def]

/-- A publication leaves the items of the other documents as they are, and in their order. -/
theorem filter_publishEntries (s : DiagnosticSink) (id : String) (entries : List AuditEntry) :
    ((s.publishEntries id entries).items.filter fun item => item.1 != id) =
      s.items.filter fun item => item.1 != id := by
  simp [publishEntries, publish]

/-- The items of a sink are the last publications of the calls, in the order of those. -/
structure LatestOf (calls : List (String × List AuditEntry)) (s : DiagnosticSink) : Prop where
  mem_iff : ∀ id diagnostics, (id, diagnostics) ∈ s.items ↔
    ∃ time entries, LastAt calls time id entries ∧ diagnostics = Diagnostic.ofEntries entries
  ordered : s.ids.Pairwise fun a b => ∀ time time' entries entries',
    LastAt calls time a entries → LastAt calls time' b entries' → time < time'

theorem latestOf_empty : LatestOf [] empty := by
  refine ⟨?_, List.Pairwise.nil⟩
  intro id diagnostics
  constructor
  · intro h
    cases h
  · rintro ⟨time, entries, h, -⟩
    exact absurd h.lt_length (Nat.not_lt_zero time)

namespace LatestOf

/-- The documents of the items are those that were published. -/
theorem mem_ids_iff (h : LatestOf calls s) : id ∈ s.ids ↔ id ∈ calls.map Prod.fst := by
  rw [← exists_lastAt_iff]
  constructor
  · intro hid
    obtain ⟨⟨_, diagnostics⟩, hitem, rfl⟩ := List.mem_map.mp hid
    obtain ⟨time, entries, hlast, -⟩ := (h.mem_iff _ _).mp hitem
    exact ⟨time, entries, hlast⟩
  · rintro ⟨time, entries, hlast⟩
    have hitem := (h.mem_iff id _).mpr ⟨time, entries, hlast, rfl⟩
    exact List.mem_map.mpr ⟨_, hitem, rfl⟩

/-- No document has two items: both would be of its one last publication. -/
theorem nodup_ids (h : LatestOf calls s) : s.ids.Nodup := by
  refine List.Pairwise.imp_of_mem ?_ h.ordered
  rintro a b ha - hlt rfl
  obtain ⟨time, entries, hlast⟩ := exists_lastAt_iff.mpr (h.mem_ids_iff.mp ha)
  exact absurd (hlt _ _ _ _ hlast hlast) (Nat.lt_irrefl time)

/-- After one more publication the items are the last publications of the calls. -/
theorem mem_iff_publishEntries (h : LatestOf calls s) (id : String) (entries : List AuditEntry)
    (other : String) (diagnostics : List Diagnostic) :
    (other, diagnostics) ∈ (s.publishEntries id entries).items ↔
      ∃ time entries', LastAt (calls ++ [(id, entries)]) time other entries' ∧
        diagnostics = Diagnostic.ofEntries entries' := by
  by_cases hother : other = id
  · -- The old item of the document is gone, the new one is there.
    subst hother
    have hnew : (other, diagnostics) ∈ (s.publishEntries other entries).items ↔
        diagnostics = Diagnostic.ofEntries entries := by
      simp [DiagnosticSink.publishEntries, publish]
    rw [hnew]
    constructor
    · rintro rfl
      exact ⟨_, _, lastAt_length calls other entries, rfl⟩
    · rintro ⟨time, entries', hlast, rfl⟩
      rw [(hlast.unique (lastAt_length calls other entries)).2]
  · have hkept : (other, diagnostics) ∈ (s.publishEntries id entries).items ↔
        (other, diagnostics) ∈ s.items := by
      simp [DiagnosticSink.publishEntries, publish, hother]
    rw [hkept, h.mem_iff]
    simp only [lastAt_append_singleton hother]

/-- One more publication keeps a sink the latest. -/
theorem publishEntries (h : LatestOf calls s) (id : String) (entries : List AuditEntry) :
    LatestOf (calls ++ [(id, entries)]) (s.publishEntries id entries) := by
  refine ⟨h.mem_iff_publishEntries id entries, ?_⟩
  rw [ids_publishEntries]
  refine List.pairwise_append.mpr ⟨?_, List.pairwise_singleton _ _, ?_⟩
  · refine List.Pairwise.imp_of_mem ?_ (h.ordered.filter _)
    intro a b ha hb hlt time time' ea eb hlast hlast'
    have hane : a ≠ id := by simpa using (List.mem_filter.mp ha).2
    have hbne : b ≠ id := by simpa using (List.mem_filter.mp hb).2
    exact hlt time time' ea eb ((lastAt_append_singleton hane).mp hlast)
      ((lastAt_append_singleton hbne).mp hlast')
  · -- Every earlier last publication is before the new call.
    intro a ha b hb time time' ea eb hlast hlast'
    obtain rfl := List.mem_singleton.mp hb
    have hane : a ≠ b := by simpa using (List.mem_filter.mp ha).2
    have htime := ((lastAt_append_singleton hane).mp hlast).lt_length
    obtain ⟨rfl, -⟩ := hlast'.unique (lastAt_length calls b entries)
    exact htime

end LatestOf

/-! ## All publications -/

/-- After any history of publications the sink is the latest. -/
theorem latestOf_published (calls : List (String × List AuditEntry)) :
    LatestOf calls (published calls) := by
  induction calls using List.reverseRecOn with
  | nil => exact latestOf_empty
  | append_singleton calls call ih =>
    obtain ⟨id, entries⟩ := call
    rw [published_append_singleton]
    exact ih.publishEntries id entries

/-- After any publications on an empty sink

* no document has two items, and those with an item are those that were published;
* the item of a document has the diagnostics of the entries of its last publication;
* the items stand in the order of the last publications of their documents;
* one more publication changes no items but those of its document. -/
theorem published_latest (calls : List (String × List AuditEntry)) :
    let sink := published calls
    sink.ids.Nodup ∧
    (∀ id, id ∈ sink.ids ↔ id ∈ calls.map Prod.fst) ∧
    (∀ id diagnostics, (id, diagnostics) ∈ sink.items ↔
      ∃ time entries, LastAt calls time id entries ∧
        diagnostics = Diagnostic.ofEntries entries) ∧
    (sink.ids.Pairwise fun a b => ∀ time time' entries entries',
      LastAt calls time a entries → LastAt calls time' b entries' → time < time') ∧
    ∀ id entries, ((published (calls ++ [(id, entries)])).items.filter fun item => item.1 != id) =
      sink.items.filter fun item => item.1 != id := by
  intro sink
  have h := latestOf_published calls
  refine ⟨h.nodup_ids, fun id => h.mem_ids_iff, h.mem_iff, h.ordered, ?_⟩
  intro id entries
  rw [published_append_singleton]
  exact filter_publishEntries sink id entries

/-- A document that is published again moves behind the other one, with its new diagnostics. -/
example : (published [("a.md", [⟨"t", false, 1, []⟩]), ("b.md", []), ("a.md", [])]).items =
    [("b.md", []), ("a.md", [])] := by
  decide

/-- Two documents, the first one published again without failures. -/
theorem published_latest_again :
    let calls : List (String × List AuditEntry) :=
      [("a.md", [⟨"t", false, 1, []⟩]), ("b.md", []), ("a.md", [])]
    LastAt calls 1 "b.md" [] ∧ LastAt calls 2 "a.md" [] ∧ ("a.md", []) ∈ (published calls).items ∧
      (published calls).ids.Nodup := by
  intro calls
  have hlatest := published_latest calls
  have hb : LastAt calls 1 "b.md" [] := (lastAt_append_singleton (by decide)).mpr
    (lastAt_length [("a.md", [⟨"t", false, 1, []⟩])] "b.md" [])
  have ha : LastAt calls 2 "a.md" [] :=
    lastAt_length [("a.md", [⟨"t", false, 1, []⟩]), ("b.md", [])] "a.md" []
  exact ⟨hb, ha, (hlatest.2.2.1 "a.md" []).mpr ⟨2, [], ha, rfl⟩, hlatest.1⟩

end ArticleAudit.DiagnosticSink
