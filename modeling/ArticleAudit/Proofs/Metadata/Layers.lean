import ArticleAudit.Audit.SourceDocument
import ArticleAudit.Proofs.Metadata.Operations

/-!
# The layers of metadata

A document's own metadata lie between the overrides of its host and the defaults of its site. A key
has the value of its last override, or else the document's value, or else the default
(`get?_resolve`). The document's keys come first, then those that only overrides have, then the
remaining ones of the defaults (`keys_resolve`). `metadata_layers` says both about a document whose
defaults are in normal form, as those of every document that was loaded are
(`isNormal_defaults_of_load`).
-/

set_option autoImplicit false

namespace ArticleAudit.Metadata

/-! ## A document's own metadata -/

theorem isNormal_empty : Metadata.empty.IsNormal :=
  isNormal_ofList []

theorem isNormal_ofYaml? {v : Yaml.Value} {m : Metadata} (h : ofYaml? v = .ok m) : m.IsNormal := by
  unfold ofYaml? at h
  split at h
  · cases h
    exact isNormal_empty
  · cases h
    exact isNormal_ofList _
  · cases h

theorem isNormal_read {text : List Char} {m : Metadata} (h : read text = .ok m) : m.IsNormal := by
  unfold read at h
  split at h
  · cases h
    exact isNormal_empty
  · split at h
    · exact isNormal_ofYaml? h
    · cases h

theorem isNormal_scan (source : List Char) : (scan source).IsNormal :=
  Records.isNormal (Records.empty.foldl (fun m pair => keys_insertIfAbsent m pair.1 pair.2) _)

/-- The metadata that count as the document's own are in normal form. -/
theorem isNormal_own (fileName : String) (source : List Char) : (own fileName source).IsNormal := by
  unfold own ownOf
  split
  · next hread =>
    split
    · exact isNormal_scan source
    · exact isNormal_read hread
  · exact isNormal_scan source

/-! ## Overrides over them, defaults under them -/

/-- The value that overrides give to a normalized key: that of the last one. -/
def overridden? (k : String) (overrides : List Override) : Option String :=
  ((overrides.filter fun o => o.key == k).getLast?).map Override.value

theorem lastValue?_overrides (k : String) (overrides : List Override) :
    lastValue? k (overrides.map fun o => (o.kind, o.value)) = overridden? k overrides := by
  unfold lastValue? overridden?
  rw [List.filter_map, List.getLast?_map, Option.map_map]
  rfl

theorem normalKeys_overrides (overrides : List Override) :
    normalKeys (overrides.map fun o => (o.kind, o.value)) = overrides.map Override.key := by
  unfold normalKeys
  rw [List.map_map]
  rfl

variable {defaults : Metadata}

/-- An override wins over the document, and the document over the defaults. -/
theorem get?_resolve (h : defaults.IsNormal) (fileName : String) (source : List Char)
    (overrides : List Override) (key : String) :
    (resolve fileName source overrides defaults).get? key =
      ((overridden? (normalizeKey key) overrides).or ((own fileName source).get? key)).or
        (defaults.get? key) := by
  rw [resolve, get?_fillFrom, h.firstValue?_entries, applyOverrides, get?_insertAll,
    lastValue?_overrides]

/-- The keys of the document, those that only overrides have, and those that only the defaults
have. -/
theorem keys_resolve (h : defaults.IsNormal) (fileName : String) (source : List Char)
    (overrides : List Override) :
    (resolve fileName source overrides defaults).keys =
      (own fileName source).keys ++
        ((overrides.map Override.key).removeAll (own fileName source).keys).eraseDups ++
        defaults.keys.removeAll ((own fileName source).keys ++ overrides.map Override.key) := by
  have hown := isNormal_own fileName source
  have hover := hown.records.insertAll (overrides.map fun o => (o.kind, o.value))
  have hall := hover.fillFrom defaults
  have hrest :
      (defaults.keys.removeAll ((own fileName source).keys ++ overrides.map Override.key)).Nodup :=
    h.nodup.filter _
  rw [normalKeys_overrides, h.normalKeys_entries] at hall
  rw [resolve, applyOverrides, hall, List.eraseDups_append, List.eraseDups_append,
    eraseDups_eq_self hown.nodup, eraseDups_eq_self hrest]

/-! ## Defaults of a site -/

theorem isNormal_ofSiteTree? {t : Json.Tree} {m : Metadata} (h : ofSiteTree? t = some m) :
    m.IsNormal := by
  unfold ofSiteTree? at h
  split at h
  · cases h
    exact isNormal_empty
  · split at h
    · cases h
      exact isNormal_empty
    · obtain ⟨members, -, rfl⟩ := Option.map_eq_some_iff.mp h
      exact isNormal_ofList _
    · cases h
  · cases h

theorem isNormal_ofSiteText? {text : List Char} {m : Metadata} (h : ofSiteText? text = some m) :
    m.IsNormal := by
  obtain ⟨t, -, ht⟩ := Option.bind_eq_some_iff.mp h
  exact isNormal_ofSiteTree? ht

end Metadata

namespace SourceDocument

open ArticleAudit.Files

theorem isNormal_readSite {files : FileTree} {path : String} {m : Metadata}
    (h : readSite files path = .ok m) : m.IsNormal := by
  unfold readSite at h
  split at h
  · cases h
  · split at h
    · next hm =>
      cases h
      exact Metadata.isNormal_ofSiteText? hm
    · cases h

theorem defaults_of_read {files : FileTree} {path : String} {doc : SourceDocument}
    (h : read files path = .ok doc) : doc.defaults = .empty := by
  unfold read at h
  split at h
  · cases h
  · split at h
    · cases h
      rfl
    · cases h

/-- The defaults of a document that was loaded are in normal form. -/
theorem isNormal_defaults_of_load {files : FileTree} {path : String} {doc : SourceDocument}
    (h : load files path = .ok doc) : doc.defaults.IsNormal := by
  unfold load at h
  cases hread : read files path with
  | error e =>
    rw [hread] at h
    cases h
  | ok plainDoc =>
    simp only [hread, bind, Except.bind] at h
    split at h
    · next hsite =>
      cases h
      obtain ⟨site, -, hdefaults⟩ := Option.map_eq_some_iff.mp hsite
      exact isNormal_readSite hdefaults
    · cases h
      rw [defaults_of_read hread]
      exact Metadata.isNormal_empty

/-- The metadata that a document itself gives. -/
def ownMetadata (doc : SourceDocument) : Metadata :=
  Metadata.own doc.fileName doc.text.toList

/-- What reading the metadata of a document finds. -/
def readMetadata (doc : SourceDocument) : Except Metadata.ReadError Metadata :=
  Metadata.read (Metadata.textOf doc.fileName doc.text.toList)

theorem ownMetadata_of_read {doc : SourceDocument} {m : Metadata} (h : doc.readMetadata = .ok m)
    (hm : m.isEmpty = false) : doc.ownMetadata = m := by
  unfold readMetadata at h
  rw [ownMetadata, Metadata.own, h, Metadata.ownOf, hm, if_neg (by decide)]

theorem ownMetadata_of_not_read {doc : SourceDocument}
    (h : ∀ m, doc.readMetadata = .ok m → m.isEmpty = true) :
    doc.ownMetadata = Metadata.scan doc.text.toList := by
  unfold readMetadata at h
  unfold ownMetadata Metadata.own Metadata.ownOf
  split
  · next m hread => rw [if_pos (h m hread)]
  · rfl

/-- The value of a key is that of its last override, or else the document's own, or else the
default. The document's own keys come first, then those that only overrides have, each where it
occurs first, then the remaining ones of the defaults. What counts as the document's own is what
reading finds, or what scanning finds where reading fails or finds nothing. -/
theorem metadata_layers (doc : SourceDocument) (h : doc.defaults.IsNormal) :
    (∀ key, doc.metadata.get? key =
        ((Metadata.overridden? (Metadata.normalizeKey key) doc.overrides).or
          (doc.ownMetadata.get? key)).or (doc.defaults.get? key)) ∧
      doc.metadata.keys =
        doc.ownMetadata.keys ++
          ((doc.overrides.map Metadata.Override.key).removeAll doc.ownMetadata.keys).eraseDups ++
          doc.defaults.keys.removeAll
            (doc.ownMetadata.keys ++ doc.overrides.map Metadata.Override.key) ∧
      (∀ m, doc.readMetadata = .ok m → m.isEmpty = false → doc.ownMetadata = m) ∧
      ((∀ m, doc.readMetadata = .ok m → m.isEmpty = true) →
        doc.ownMetadata = Metadata.scan doc.text.toList) := by
  refine ⟨fun key => ?_, ?_, fun _ => ownMetadata_of_read, ownMetadata_of_not_read⟩
  · unfold metadata ownMetadata
    exact Metadata.get?_resolve h _ _ _ key
  · unfold metadata ownMetadata
    exact Metadata.keys_resolve h _ _ _

/-- An article whose overrides repeat a key and replace a value under another spelling. -/
def layeredArticle : SourceDocument where
  fileName := "a.md"
  text := "---\ntitle: T\nms.date: D\n---\n"
  overrides := [⟨"Author", "A"⟩, ⟨"MS.Date", "E"⟩, ⟨"author", "B"⟩]
  defaults := Metadata.ofList [("title", "U"), ("ms.topic", "overview")]

theorem metadata_layers_layeredArticle :
    layeredArticle.defaults.IsNormal ∧
      layeredArticle.metadata.keys = ["title", "ms_date", "author", "ms_topic"] ∧
      layeredArticle.metadata.get? "author" = some "B" := by
  have hnormal : layeredArticle.defaults.IsNormal := Metadata.isNormal_ofList _
  obtain ⟨hget, hkeys, -⟩ := metadata_layers layeredArticle hnormal
  refine ⟨hnormal, ?_, ?_⟩
  · rw [hkeys]
    decide +kernel
  · rw [hget]
    decide +kernel

end SourceDocument

end ArticleAudit
