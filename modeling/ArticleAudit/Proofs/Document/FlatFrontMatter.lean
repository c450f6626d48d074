import ArticleAudit.Audit.SourceDocument
import ArticleAudit.Proofs.Document.FlatFields
import ArticleAudit.Proofs.Document.Zones

/-!
# Articles with flat front matter

Front matter may be flat and stand before an article. The fields of the whole document are then the
lines of the front matter, in order (`FlatFrontMatter.forall₂_fields`), while of several values for
one key the metadata have the last (`FlatFrontMatter.get?_metadata`).
-/

set_option autoImplicit false

namespace ArticleAudit.Document

open ArticleAudit.Text ArticleAudit.Markdown

variable {source : List Char} {fileName : String} {fm : FrontMatter}

/-- Blocks without children are all that there are. -/
theorem preorderAll_of_childless {blocks : List Block} (h : ∀ b ∈ blocks, b.children = []) :
    Block.preorderAll blocks = blocks := by
  induction blocks with
  | nil => rw [Block.preorderAll_nil]
  | cons b rest ih =>
    obtain ⟨hb, hrest⟩ := List.forall_mem_cons.mp h
    rw [Block.preorderAll_cons, Block.preorder_eq, hb, Block.preorderAll_nil, ih hrest]
    rfl

/-- The fields of a document are those of its front matter. -/
theorem filter_metadataField_segment (strict : Bool) (h : frontMatter? source = some fm)
    (hmarkdown : Toc.isToc fileName (LineFacts.ofText strict source) = false) :
    (Block.preorderAll (segment fileName source strict)).filter (·.kind == .metadataField) =
      (metadataBlock source (LineFacts.ofText strict source) fm).children := by
  -- Sections leave the front matter as it is, and change no kind of the blocks after it.
  have hsegment : segment fileName source strict =
      metadataBlock source (LineFacts.ofText strict source) fm ::
        Block.assignRegions (byteSize source)
          (Markdown.blocksOf source strict (mainLines source strict)) := by
    rw [segment_eq_of_markdown hmarkdown, forest_eq, h, Option.toList_some, List.map_singleton,
      List.singleton_append, Block.assignRegions_cons]
    rfl
  have harticle := Block.throughout_assignRegions (P := OfArticle)
    (fun limit b later hb => by rwa [OfArticle, Block.kind_place])
    (ofArticle_blocksOf source strict (mainLines source strict)) (byteSize source)
  have hfields : ∀ b ∈ (metadataBlock source (LineFacts.ofText strict source) fm).children,
      IsField b := fun b hb => isField_of_mem_fieldBlocks hb
  have hmetadata : ((metadataBlock source (LineFacts.ofText strict source) fm).kind ==
      .metadataField) = false := rfl
  rw [hsegment, Block.preorderAll_cons, Block.preorder_eq,
    preorderAll_of_childless fun b hb => (hfields b hb).2, List.filter_append,
    List.filter_cons_of_neg (p := fun b : Block => b.kind == .metadataField)
      (Bool.eq_false_iff.mp hmetadata),
    List.filter_eq_self.mpr, List.filter_eq_nil_iff.mpr, List.append_nil]
  · intro b hb hkind
    have hof : OfArticle b := harticle b hb
    rw [OfArticle, beq_iff_eq.mp hkind] at hof
    cases hof
  · intro b hb
    exact beq_iff_eq.mpr (hfields b hb).1

end ArticleAudit.Document

namespace ArticleAudit.Metadata

open ArticleAudit.Text ArticleAudit.Markdown

variable {source : List Char} {fileName : String} {fm : FrontMatter} {fields : List FlatField}

/-- The front matter of a text is the lines of flat fields, each with a line break of its own. -/
structure FlatFrontMatter (source : List Char) (fm : FrontMatter) (fields : List FlatField) :
    Prop where
  frontMatter : Document.frontMatter? source = some fm
  lines : List.Forall₂ (fun f line => ∃ eol, IsLineBreak eol ∧ line = f.line ++ eol) fields
    (splitLines (slice source fm.body))

/-- YAML reads a text as a mapping of the keys of fields to their values. -/
def ReadAsTexts (text : List Char) (fields : List FlatField) : Prop :=
  Yaml.Value.ofChars? text = .ok (.mapping (fields.map fun f =>
    (.text (String.ofList f.key), .text (String.ofList f.value))))

instance (text : List Char) (fields : List FlatField) : Decidable (ReadAsTexts text fields) :=
  decidable_of_iff _ FlatDocument.ofChars?_eq_texts_iff.symm

/-- Some field has the key, however both are written. -/
def hasKey (fields : List FlatField) (key : String) : Bool :=
  (normalKeys (fields.map FlatField.pair)).contains (normalizeKey key)

/-- The first and the last field of the key have one value. -/
def AgreeOn (fields : List FlatField) (key : String) : Prop :=
  firstValue? (normalizeKey key) (fields.map FlatField.pair) =
    lastValue? (normalizeKey key) (fields.map FlatField.pair)

namespace FlatFrontMatter

/-- Each field has its block in the front matter. -/
theorem forall₂_metadataBlock (h : FlatFrontMatter source fm fields) (strict : Bool) :
    List.Forall₂ (fun f b => ∃ start, f.IsBlock start b) fields
      (Document.metadataBlock source (LineFacts.ofText strict source) fm).children := by
  obtain ⟨first, body, closing, after, hsplits⟩ := Document.exists_splits h.frontMatter
  have hlines := h.lines
  rw [hsplits.splitLines_body, ← map_text_placeLines fm.body.start body,
    List.forall₂_map_right_iff] at hlines
  -- Each line stands where it is placed, which is behind the line that opens the front matter.
  have hplaced := (List.forall₂_and_left _ _).mpr
    ⟨fun raw (hraw : raw ∈ placeLines fm.body.start body) =>
      And.intro (bounds_of_mem_placeLines hraw).2.1 (hsplits.stands_of_mem hraw), hlines.flip⟩
  show List.Forall₂ _ _ (Document.fieldBlocks source (List.filter _ _))
  rw [hsplits.filter_ofText]
  apply Document.forall₂_fieldBlocks
  refine List.forall₂_map_right_iff.mpr (hplaced.flip.imp ?_)
  rintro f ⟨⟨start, stop⟩, text⟩ ⟨⟨hstop, hpos, hstands⟩, eol, heol, rfl⟩
  obtain rfl : stop = start + byteSize (f.line ++ eol) := hstop
  obtain ⟨hblank, b, hb, hblock⟩ :=
    exists_fieldBlock strict heol (p := (start, f)) hpos hstands.left
  exact ⟨hblank, b, hb, start, hblock⟩

/-- The fields of the whole document are the lines of the front matter. -/
theorem forall₂_fields (h : FlatFrontMatter source fm fields) (strict : Bool)
    (hname : FlatDocument.IsMarkdownName fileName) :
    List.Forall₂ (fun f b => ∃ start, f.IsBlock start b) fields
      ((Block.preorderAll (Document.segment fileName source strict)).filter
        (·.kind == .metadataField)) := by
  rw [Document.filter_metadataField_segment strict h.frontMatter
    (Document.isToc_of_frontMatter? strict h.frontMatter hname.notToc)]
  exact h.forall₂_metadataBlock strict

/-- A field is not blank, so the text between the delimiters is blank only without fields. -/
theorem eq_nil_of_blank (h : FlatFrontMatter source fm fields)
    (hblank : (trim (slice source fm.body)).isEmpty = true) : fields = [] := by
  have hlines := h.lines
  cases fields with
  | nil => rfl
  | cons f fields =>
    obtain ⟨line, rest, ⟨eol, -, rfl⟩, -, hsplit⟩ := List.forall₂_cons_left_iff.mp hlines
    obtain ⟨c, chars, hline, halpha⟩ := f.exists_line
    have hmem : c ∈ slice source fm.body := by
      rw [← flatten_splitLines (slice source fm.body), hsplit, hline]
      exact List.mem_cons_self
    have hc := trim_eq_nil_iff.mp (List.isEmpty_iff.mp hblank) c hmem
    rw [isBlank_of_isAlpha halpha] at hc
    cases hc

/-- What an article gives itself are its fields; the last value of a key counts. -/
theorem own_eq (h : FlatFrontMatter source fm fields) (hname : isYamlFile fileName = false)
    (hyaml : ReadAsTexts (slice source fm.body) fields) (hne : fields ≠ []) :
    own fileName source = ofList (fields.map FlatField.pair) := by
  have htext : textOf fileName source = slice source fm.body := by
    rw [textOf, if_neg (Bool.eq_false_iff.mp hname), h.frontMatter]
  have hentries : (ofList (fields.map FlatField.pair)).isEmpty = false := by
    obtain ⟨f, rest, rfl⟩ := List.exists_cons_of_ne_nil hne
    have hkey : normalizeKey f.pair.1 ∈ (ofList ((f :: rest).map FlatField.pair)).keys := by
      rw [Records.ofList, List.mem_eraseDups]
      exact List.mem_cons_self
    rw [isEmpty, List.isEmpty_eq_false_iff]
    intro hnil
    rw [keys, hnil] at hkey
    cases hkey
  rw [own, htext, FlatDocument.read_of_texts h.eq_nil_of_blank hyaml, ownOf, hentries]
  rfl

/-- Without overrides the last value of a key is its value in the document. -/
theorem get?_metadata {doc : SourceDocument} {key v : String}
    (h : FlatFrontMatter doc.text.toList fm fields) (hname : isYamlFile doc.fileName = false)
    (hyaml : ReadAsTexts (slice doc.text.toList fm.body) fields) (hover : doc.overrides = [])
    (hv : lastValue? (normalizeKey key) (fields.map FlatField.pair) = some v) :
    doc.metadata.get? key = some v := by
  have hne : fields ≠ [] := by
    rintro rfl
    cases hv
  have hown : (own doc.fileName doc.text.toList).applyOverrides doc.overrides =
      ofList (fields.map FlatField.pair) := by
    rw [h.own_eq hname hyaml hne, hover]
    rfl
  rw [SourceDocument.metadata, resolve, hown, get?_fillFrom, ofList, get?_insertAll, hv]
  rfl

end FlatFrontMatter

end ArticleAudit.Metadata
