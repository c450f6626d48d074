import ArticleAudit.Proofs.Document.InnerSpans
import ArticleAudit.Proofs.Markdown.LeafLineEnds
import ArticleAudit.Proofs.Metadata.FlatFields

/-!
# The blocks of flat front matter

A document of flat fields is one block of metadata, with a block for the line of each field
(`FlatDocument.segment_text`). So a document whose keys are distinct is read alike by YAML, by the
scan for fields and by segmentation (`FlatDocument.readings_agree`).
-/

set_option autoImplicit false

namespace ArticleAudit.Document

open ArticleAudit.Text ArticleAudit.Markdown

variable {source : List Char}

/-- Where every line is a field, each has its block. -/
theorem forall₂_fieldBlocks {α : Type} {R : α → Block → Prop} {items : List α}
    {lines : List LineFacts} (h : List.Forall₂ (fun a l => l.isBlank = false ∧
      ∃ b, fieldBlock? source l = some b ∧ R a b) items lines) :
    List.Forall₂ R items (fieldBlocks source lines) := by
  -- The lines are read from the first to the last, and the latest block comes first.
  have hfoldl : ∀ fields, ∃ blocks, List.Forall₂ R items blocks ∧
      lines.foldl (addFieldLine source) fields = blocks.reverse ++ fields := by
    induction h with
    | nil => exact fun fields => ⟨[], .nil, rfl⟩
    | @cons a l items lines hfield _ ih =>
      obtain ⟨hblank, b, hb, hR⟩ := hfield
      intro fields
      obtain ⟨blocks, hblocks, heq⟩ := ih (b :: fields)
      have hline : addFieldLine source fields l = b :: fields := by
        rw [addFieldLine, if_neg (Bool.eq_false_iff.mp hblank)]
        simp only [hb]
      refine ⟨b :: blocks, .cons hR hblocks, ?_⟩
      rw [List.foldl_cons, hline, heq, List.reverse_cons, List.append_assoc]
      rfl
  obtain ⟨blocks, hblocks, heq⟩ := hfoldl []
  rw [fieldBlocks, heq, List.append_nil, List.reverse_reverse]
  exact hblocks

end ArticleAudit.Document

namespace ArticleAudit.Metadata

open ArticleAudit.Text ArticleAudit.Markdown

/-! ## Fields and their lines

The lines of the fields stand one behind the other, each with its line break. `placeFields` gives
the offset of each, from which the block of its field is known: the key and the value have the
offsets that they have in the line, and the line break does not belong to the block.
-/

/-- The fields with the offsets of their lines, of which the first stands at `offset`. -/
def placeFields (eol : List Char) (offset : Nat) : List FlatField → List (Nat × FlatField)
  | [] => []
  | f :: rest => (offset, f) :: placeFields eol (offset + byteSize (f.line ++ eol)) rest

@[simp] theorem map_snd_placeFields (eol : List Char) (offset : Nat) (fields : List FlatField) :
    (placeFields eol offset fields).map Prod.snd = fields := by
  induction fields generalizing offset with
  | nil => rfl
  | cons f rest ih => rw [placeFields, List.map_cons, ih]

/-- The line of a field that stands at an offset. -/
def fieldLine (eol : List Char) (p : Nat × FlatField) : Line :=
  ⟨⟨p.1, p.1 + byteSize (p.2.line ++ eol)⟩, p.2.line ++ eol⟩

theorem placeLines_fields (eol : List Char) (offset : Nat) (fields : List FlatField) :
    placeLines offset ((fields.map FlatField.line).map (· ++ eol)) =
      (placeFields eol offset fields).map (fieldLine eol) := by
  induction fields generalizing offset with
  | nil => rfl
  | cons f rest ih =>
    rw [List.map_cons, List.map_cons, placeLines, ih, placeFields, List.map_cons]
    rfl

/-- The block is the field of the line at an offset. -/
structure FlatField.IsBlock (f : FlatField) (start : Nat) (b : Block) : Prop where
  kind : b.kind = .metadataField
  span : b.span = ⟨start, start + byteSize f.line⟩
  text : b.text = String.ofList f.line
  tag : b.tag = some (normalizeKey (String.ofList f.key))
  contentText : b.contentText = String.ofList f.value
  children : b.children = []

/-- The block that is made of the line of a field. -/
theorem FlatField.isBlock {source : List Char} {start : Nat} (f : FlatField)
    (hstands : Stands source start f.line) :
    f.IsBlock start { Block.ofSource source .metadataField start (start + byteSize f.line) with
      tag := some (normalizeKey (String.ofList f.key))
      content := some ⟨start + (f.key.length + 2),
        start + (f.key.length + 2) + byteSize f.value⟩ } := by
  have hkey : byteSize (f.key ++ [':', ' ']) = f.key.length + 2 := by
    rw [byteSize_append, byteSize_eq_length fun c hc => utf8Size_of_isKeyChar (f.key_chars c hc)]
    rfl
  have hline : f.line = (f.key ++ [':', ' ']) ++ f.value := by
    simp [FlatField.line]
  have htext : (Block.ofSource source .metadataField start (start + byteSize f.line)).text =
      String.ofList f.line := congrArg String.ofList hstands.slice
  -- The value stands behind the key, the colon and the space, which are one byte each.
  have hvalue : Stands source (start + (f.key.length + 2)) f.value := by
    rw [← hkey]
    exact (hline ▸ hstands).right
  have hsize : byteSize f.line = f.key.length + 2 + byteSize f.value := by
    rw [hline, byteSize_append, hkey]
  refine ⟨rfl, rfl, htext, rfl, ?_, rfl⟩
  unfold Block.contentText
  rw [Option.bind_some, Block.textAt?_eq ?_ hvalue.slice? (Nat.le_add_right _ _), if_pos ?_]
  · rfl
  · show start + (f.key.length + 2) + byteSize f.value ≤ start + byteSize f.line
    omega
  · show slice? source ⟨start, start + byteSize f.line⟩ =
      some (Block.ofSource source .metadataField start (start + byteSize f.line)).text.toList
    rw [htext, String.toList_ofList]
    exact hstands.slice?

/-- The line of a field is its own content. -/
theorem contentOf_fieldLine {eol : List Char} (heol : IsLineBreak eol) {p : Nat × FlatField}
    (hp : 0 < p.1) : LineFacts.contentOf (fieldLine eol p) = (p.1, p.2.line) := by
  obtain ⟨c, rest, hline, -⟩ := p.2.exists_line
  have htext := dropEndWhile_isLineEnd p.2.oneLine_line (Or.inr heol)
  unfold LineFacts.contentOf fieldLine
  simp only [htext]
  rw [hline]
  simp only
  rw [if_neg (by simp [hp.ne'])]

/-- The line of a field is read as the field. -/
theorem exists_fieldBlock {source eol : List Char} (strict : Bool) (heol : IsLineBreak eol)
    {p : Nat × FlatField} (hp : 0 < p.1) (hstands : Stands source p.1 p.2.line) :
    (LineFacts.ofLine strict (fieldLine eol p)).isBlank = false ∧
      ∃ b, Document.fieldBlock? source (LineFacts.ofLine strict (fieldLine eol p)) = some b ∧
        p.2.IsBlock p.1 b := by
  obtain ⟨start, f⟩ := p
  have hcontent := contentOf_fieldLine heol hp
  have htext : (LineFacts.ofLine strict (fieldLine eol (start, f))).text = f.line :=
    congrArg Prod.snd hcontent
  have hstart : (LineFacts.ofLine strict (fieldLine eol (start, f))).content.start = start :=
    congrArg Prod.fst hcontent
  -- The line is not indented, so its block starts and stops with its content.
  have hindent := (Field.reads_of_ofLine? f.ofLine?_line).leadingIndent_eq
  generalize hl : LineFacts.ofLine strict (fieldLine eol (start, f)) = l at htext hstart
  have hcolumns : l.indent = 0 := by
    rw [← hl]
    show columnsOf (leadingIndent (LineFacts.contentOf (fieldLine eol (start, f))).2) = 0
    rw [hcontent, hindent]
    rfl
  have hbytes : l.indentBytes = 0 := by
    rw [← hl]
    show (leadingIndent (LineFacts.contentOf (fieldLine eol (start, f))).2).length = 0
    rw [hcontent, hindent]
    rfl
  have hblank : l.isBlank = false := by
    obtain ⟨c, rest, hline, halpha⟩ := f.exists_line
    have hc : isBlank c = false := isBlank_of_isAlpha halpha
    rw [← hl]
    show (LineFacts.contentOf (fieldLine eol (start, f))).2.all Text.isBlank = false
    rw [hcontent, hline, List.all_cons, hc, Bool.false_and]
  have hstop : l.stop = start + byteSize f.line := by
    rw [LineFacts.stop, htext, hstart, f.trimEnd_line]
  have hstartLine : l.start = start := by
    rw [LineFacts.start, hstop, hstart, hbytes]
    omega
  have hread : Document.fieldBlock? source l =
      some { Block.ofSource source .metadataField start (start + byteSize f.line) with
        tag := some (normalizeKey (String.ofList f.key))
        content := some ⟨start + (f.key.length + 2),
          start + (f.key.length + 2) + byteSize f.value⟩ } := by
    rw [Document.fieldBlock?, hcolumns, htext, f.ofLine?_line, hstartLine, hstop, hstart]
    rfl
  exact ⟨hblank, _, hread, f.isBlock hstands⟩

namespace FlatDocument

variable {doc : FlatDocument} {fileName : String}

/-- The fields with the offsets of their lines in the document. -/
def placed (doc : FlatDocument) : List (Nat × FlatField) :=
  placeFields doc.eol (byteSize doc.opening) doc.fields

/-- A file name of a Markdown document. -/
structure IsMarkdownName (fileName : String) : Prop where
  notYaml : isYamlFile fileName = false
  notToc : Toc.baseName fileName ≠ "toc.yml" ∧ Toc.baseName fileName ≠ "toc.yaml"

/-- The document is split into its delimiters and the lines of its fields. -/
theorem splits_text (doc : FlatDocument) :
    Document.Splits doc.text doc.frontMatter doc.opening
      ((doc.fields.map FlatField.line).map (· ++ doc.eol)) doc.closing [] where
  lines := doc.splitLines_text
  opening stop := by
    have hcontent : LineFacts.contentOf ⟨⟨0, stop⟩, doc.opening⟩ = (0, FrontMatter.delimiter) := by
      unfold LineFacts.contentOf
      simp only [opening, dropEndWhile_isLineEnd oneLine_delimiter (Or.inr doc.eol_eq)]
      rfl
    rw [hcontent]
    exact ⟨Nat.le_refl 0, by decide⟩
  closing_ne := by
    rw [closing, trimEnd_delimiter doc.isLineEnd_of_mem_tail]
    decide
  block_start := boundary_zero _
  body_start := rfl
  body_stop := by
    rw [← List.flatMap_def]
    rfl
  block_stop := by
    rw [closing, trimEnd_delimiter doc.isLineEnd_of_mem_tail]
    rfl

/-- The line of a field stands at its offset. -/
theorem stands_of_mem_placed {p : Nat × FlatField} (hp : p ∈ doc.placed) :
    0 < p.1 ∧ Stands doc.text p.1 p.2.line := by
  have hline : fieldLine doc.eol p ∈ placeLines doc.frontMatter.body.start
      ((doc.fields.map FlatField.line).map (· ++ doc.eol)) := by
    rw [placeLines_fields]
    exact List.mem_map_of_mem hp
  obtain ⟨hpos, hstands⟩ := doc.splits_text.stands_of_mem hline
  exact ⟨hpos, hstands.left⟩

/-- The block of the metadata has the fields as its children. -/
theorem forall₂_metadataBlock (doc : FlatDocument) (strict : Bool) :
    List.Forall₂ (fun p b => p.2.IsBlock p.1 b) doc.placed
      (Document.metadataBlock doc.text (LineFacts.ofText strict doc.text)
        doc.frontMatter).children := by
  show List.Forall₂ _ _ (Document.fieldBlocks doc.text (List.filter _ _))
  rw [doc.splits_text.filter_ofText, placeLines_fields, List.map_map]
  apply Document.forall₂_fieldBlocks
  refine List.forall₂_map_right_iff.mpr (List.forall₂_same.mpr fun p hp => ?_)
  obtain ⟨hpos, hstands⟩ := stands_of_mem_placed hp
  exact exists_fieldBlock strict doc.eol_eq hpos hstands

/-- No line starts after the last delimiter. -/
theorem line_start_le (doc : FlatDocument) (strict : Bool) :
    ∀ l ∈ LineFacts.ofText strict doc.text, l.line.start ≤ doc.frontMatter.body.stop := by
  rw [doc.splits_text.ofText_eq, List.forall_mem_cons, List.forall_mem_append]
  refine ⟨Nat.zero_le _, ?_, List.forall_mem_singleton.mpr (Nat.le_refl _)⟩
  intro l hl
  obtain ⟨raw, hraw, rfl⟩ := List.mem_map.mp hl
  obtain ⟨-, hstop, hle⟩ := bounds_of_mem_placeLines hraw
  show raw.span.start ≤ _
  rw [doc.splits_text.body_stop]
  omega

theorem mainLines_text (doc : FlatDocument) (strict : Bool) :
    Document.mainLines doc.text strict = [] := by
  have hstop : doc.frontMatter.body.stop < doc.frontMatter.block.stop :=
    Nat.lt_add_of_pos_right (by decide)
  unfold Document.mainLines
  rw [doc.frontMatter?_text]
  refine List.dropWhile_eq_nil_iff.mpr fun l hl => ?_
  exact decide_eq_true ((doc.line_start_le strict l hl).trans_lt hstop)

/-- The document is the block of its metadata. -/
theorem segment_text (doc : FlatDocument) (strict : Bool) (hname : IsMarkdownName fileName) :
    Document.segment fileName doc.text strict =
      [Document.metadataBlock doc.text (LineFacts.ofText strict doc.text) doc.frontMatter] := by
  have hblocks : blocksOf doc.text strict [] = [] := by
    rw [blocksOf, readLines]
    rfl
  have hmarkdown := Document.isToc_of_frontMatter? strict doc.frontMatter?_text hname.notToc
  rw [Document.segment_eq_of_markdown hmarkdown, Document.forest_eq,
    doc.frontMatter?_text, doc.mainLines_text, hblocks, List.append_nil, Option.toList_some,
    List.map_singleton, Block.assignRegions_cons, Block.assignRegions_nil]
  rfl

/-- A document of flat fields with distinct keys is read alike in three ways: as YAML, by the scan
for fields and by segmentation. -/
theorem readings_agree (doc : FlatDocument) (strict : Bool) (hname : IsMarkdownName fileName)
    (hkeys : (normalKeys doc.pairs).Nodup) (hyaml : doc.ReadAsYaml) :
    read (textOf fileName doc.text) = .ok doc.metadata ∧ scan doc.text = doc.metadata ∧
      ∃ b, Document.segment fileName doc.text strict = [b] ∧ b.kind = .metadata ∧
        b.span = doc.frontMatter.block ∧ doc.placed.map Prod.snd = doc.fields ∧
        (∀ p ∈ doc.placed, Stands doc.text p.1 p.2.line) ∧
        List.Forall₂ (fun p c => p.2.IsBlock p.1 c) doc.placed b.children := by
  refine ⟨?_, scan_text_of_nodup hkeys, _, doc.segment_text strict hname, rfl, rfl,
    map_snd_placeFields _ _ _, ?_, doc.forall₂_metadataBlock strict⟩
  · rw [read_textOf hname.notYaml hyaml, ofList_pairs hkeys]
  · exact fun p hp => (stands_of_mem_placed hp).2

/-- A title and a date. -/
theorem readings_agree_date :
    ∃ doc : FlatDocument, doc.text = "---\ntitle: Intro\nms.date: May 5\n---\n".toList ∧
      IsMarkdownName "a.md" ∧ (normalKeys doc.pairs).Nodup ∧ doc.ReadAsYaml ∧
      scan doc.text = ⟨[("title", "Intro"), ("ms_date", "May 5")]⟩ ∧
      ∃ b, Document.segment "a.md" doc.text true = [b] ∧
        List.Forall₂ (fun p c => p.2.IsBlock p.1 c) doc.placed b.children := by
  let title : FlatField := ⟨"title".toList, "Intro".toList, ⟨'t', rfl, rfl⟩,
    List.all_eq_true.mp rfl, ⟨'I', rfl, rfl⟩, List.all_eq_true.mp rfl, by decide⟩
  let date : FlatField := ⟨"ms.date".toList, "May 5".toList, ⟨'m', rfl, rfl⟩,
    List.all_eq_true.mp rfl, ⟨'M', rfl, rfl⟩, List.all_eq_true.mp rfl, by decide⟩
  let doc : FlatDocument := ⟨[title, date], ['\n'], ['\n'], Or.inl rfl, Or.inr (Or.inl rfl)⟩
  have hname : IsMarkdownName "a.md" := ⟨by decide, by decide, by decide⟩
  have hkeys : (normalKeys doc.pairs).Nodup := by decide +kernel
  have hyaml : doc.ReadAsYaml := by decide +kernel
  have hmetadata : doc.metadata = ⟨[("title", "Intro"), ("ms_date", "May 5")]⟩ := by
    decide +kernel
  obtain ⟨-, hscan, b, hb, -, -, -, -, hfields⟩ := doc.readings_agree true hname hkeys hyaml
  exact ⟨doc, by decide, hname, hkeys, hyaml, hscan.trans hmetadata, b, hb, hfields⟩

end FlatDocument

end ArticleAudit.Metadata
