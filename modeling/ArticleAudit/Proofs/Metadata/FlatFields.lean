import ArticleAudit.Metadata.Flatten
import ArticleAudit.Metadata.Scan
import ArticleAudit.Metadata.Section
import ArticleAudit.Proofs.Markdown.Fields
import ArticleAudit.Proofs.Metadata.Operations
import ArticleAudit.Proofs.Text.Runs
import ArticleAudit.Proofs.Text.WrittenLines

/-!
# Flat front matter

A flat field is a line of a key and a value that need no quotes. A document that is nothing but
such lines between two delimiters is read in two ways: as YAML, where later values of a key replace
earlier ones (`FlatDocument.read_textOf`), and by scanning its lines, where the first value of a key
counts (`FlatDocument.scan_text`). Both give the fields in order when no two keys have one normal
form (`FlatDocument.ofList_pairs`, `FlatDocument.foldl_pairs`).

How YAML reads the lines is not proved here. That they are a mapping of the texts in order is a
condition on the document.
-/

set_option autoImplicit false

namespace ArticleAudit.Metadata

open ArticleAudit.Text ArticleAudit.Markdown

/-! ## Flat fields -/

/-- An ASCII letter or, beyond ASCII, any character but white space. -/
def isLetter (c : Char) : Bool :=
  c.isAlpha || (decide (127 < c.toNat) && !isBlank c)

/-- The characters of flat values. -/
def isValueChar (c : Char) : Bool :=
  isLetter c || c.isDigit || c == '_' || c == '-' || c == '.' || c == '/' || c == ' '

/-- A key that starts with an ASCII letter, and a value that starts with a letter and does not end
with a space. -/
structure FlatField where
  key : List Char
  value : List Char
  key_first : ∃ c ∈ key.head?, c.isAlpha = true
  key_chars : ∀ c ∈ key, isKeyChar c = true
  value_first : ∃ c ∈ value.head?, isLetter c = true
  value_chars : ∀ c ∈ value, isValueChar c = true
  value_last : value.getLast? ≠ some ' '

theorem isBlank_of_isAlpha {c : Char} (h : c.isAlpha = true) : isBlank c = false :=
  isBlank_of_isAlphanum (by simp [Char.isAlphanum, h])

theorem isBlank_of_isLetter {c : Char} (h : isLetter c = true) : isBlank c = false := by
  rcases Bool.or_eq_true_iff.mp h with halpha | hbeyond
  · exact isBlank_of_isAlpha halpha
  · simpa using (Bool.and_eq_true_iff.mp hbeyond).2

/-- Of the characters of values only the space is blank. -/
theorem isBlank_of_isValueChar {c : Char} (h : isValueChar c = true) (hspace : c ≠ ' ') :
    isBlank c = false := by
  simp only [isValueChar, Bool.or_eq_true, beq_iff_eq] at h
  rcases h with (((((hletter | hdigit) | rfl) | rfl) | rfl) | rfl) | rfl
  · exact isBlank_of_isLetter hletter
  · exact isBlank_of_isAlphanum (by simp [Char.isAlphanum, hdigit])
  · rfl
  · rfl
  · rfl
  · rfl
  · exact absurd rfl hspace

namespace FlatField

variable {f : FlatField}

/-- The line of a field. -/
def line (f : FlatField) : List Char :=
  f.key ++ ':' :: ' ' :: f.value

/-- The key and the value as they are written. -/
def pair (f : FlatField) : String × String :=
  (String.ofList f.key, String.ofList f.value)

/-- The key in normal form and the value. -/
def normalPair (f : FlatField) : String × String :=
  (normalizeKey (String.ofList f.key), String.ofList f.value)

theorem exists_line (f : FlatField) : ∃ c rest, f.line = c :: rest ∧ c.isAlpha = true := by
  obtain ⟨c, hc, halpha⟩ := f.key_first
  obtain ⟨rest, hkey⟩ := List.head?_eq_some_iff.mp hc
  exact ⟨c, rest ++ ':' :: ' ' :: f.value, by rw [line, hkey, List.cons_append], halpha⟩

theorem exists_value (f : FlatField) : ∃ c rest, f.value = c :: rest ∧ isLetter c = true := by
  obtain ⟨c, hc, hletter⟩ := f.value_first
  obtain ⟨rest, hvalue⟩ := List.head?_eq_some_iff.mp hc
  exact ⟨c, rest, hvalue, hletter⟩

/-- Only spaces of a value are blank, and it ends with none. -/
theorem isBlank_of_getLast?_value (f : FlatField) :
    ∀ c, f.value.getLast? = some c → isBlank c = false := by
  intro c hc
  refine isBlank_of_isValueChar (f.value_chars c (List.mem_of_getLast? hc)) ?_
  rintro rfl
  exact f.value_last hc

theorem trim_value (f : FlatField) : trim f.value = f.value := by
  obtain ⟨c, rest, hvalue, hletter⟩ := f.exists_value
  refine trim_eq_self (fun d hd => ?_) f.isBlank_of_getLast?_value
  rw [hvalue] at hd
  rw [← Option.some.inj hd]
  exact isBlank_of_isLetter hletter

/-- The only blanks of a line are spaces. -/
theorem oneLine_line (f : FlatField) : OneLine f.line := by
  have hchars : ∀ c ∈ f.line, isBlank c = false ∨ c = ' ' := by
    intro c hc
    rcases List.mem_append.mp hc with hkey | hc
    · exact Or.inl (isBlank_of_isKeyChar (f.key_chars c hkey))
    · rcases List.mem_cons.mp hc with rfl | hc
      · exact Or.inl rfl
      · rcases List.mem_cons.mp hc with rfl | hvalue
        · exact Or.inr rfl
        · by_cases hspace : c = ' '
          · exact Or.inr hspace
          · exact Or.inl (isBlank_of_isValueChar (f.value_chars c hvalue) hspace)
  intro c hc
  rcases hchars c hc with hblank | rfl
  · cases hend : isLineEnd c with
    | false => rfl
    | true =>
      rw [isBlank_of_isLineEnd hend] at hblank
      cases hblank
  · rfl

/-- The line ends as its value does. -/
theorem trimEnd_line (f : FlatField) : trimEnd f.line = f.line := by
  obtain ⟨c, rest, hvalue, -⟩ := f.exists_value
  refine dropEndWhile_eq_self_iff.mpr fun d hd => f.isBlank_of_getLast?_value d ?_
  rw [line, List.getLast?_append_of_ne_nil _ (List.cons_ne_nil _ _), hvalue] at hd
  rw [hvalue, ← hd]
  rfl

/-! ## Readers of one line

A line of a flat field starts with a letter and ends with a character that is not blank, so a reader
has nothing to trim, and the colon is the first one. The line is a field for the readers of fields,
and for the readers of fences, headings and delimiters it is nothing.
-/

theorem isIndent_eq_false {c : Char} (h : isBlank c = false) : isIndent c = false := by
  cases hindent : isIndent c with
  | false => rfl
  | true =>
    rw [isBlank_of_isIndent hindent] at h
    cases h

/-- The value follows the colon after one space. -/
theorem fieldValue?_value (f : FlatField) (colonStop : Nat) :
    fieldValue? f.key colonStop (' ' :: f.value) = some ⟨f.key, colonStop + 1, f.value⟩ := by
  obtain ⟨c, rest, hvalue, hletter⟩ := f.exists_value
  have hc := isIndent_eq_false (isBlank_of_isLetter hletter)
  have hlast : dropEndWhile isIndent f.value = f.value :=
    dropEndWhile_eq_self_iff.mpr fun d hd => isIndent_eq_false (f.isBlank_of_getLast?_value d hd)
  have hfeed : '\n' ∉ f.value := by
    intro hmem
    have hline : '\n' ∈ f.line := List.mem_append_right _ (by simp [hmem])
    exact f.oneLine_line.not_mem_lineFeed hline
  have hspace : isIndent ' ' = true := rfl
  -- The blanks after the colon are the one space, since the value starts with a letter.
  have hone : ∀ x ∈ [' '], isIndent x = true := by simp [hspace]
  obtain ⟨htake, hdrop⟩ := takeWhile_run rest hone hc
  rw [← hvalue, List.singleton_append] at htake hdrop
  unfold fieldValue?
  simp [htake, hdrop, hlast, hfeed]

/-- A flat line is a field. -/
theorem ofLine?_line (f : FlatField) :
    Field.ofLine? f.line = some ⟨f.key, f.key.length + 2, f.value⟩ := by
  obtain ⟨c, rest, hline, halpha⟩ := f.exists_line
  have hstart : isKeyStart c = true := by simp [isKeyStart, Char.isAlphanum, halpha]
  obtain ⟨hkey, hafter⟩ := takeWhile_run (' ' :: f.value) f.key_chars
    (show isKeyChar ':' = false by decide)
  unfold Field.ofLine?
  rw [hline]
  simp only [hstart, Bool.not_true, Bool.false_eq_true, if_false]
  rw [← hline, line, hkey, hafter]
  exact f.fieldValue?_value _

/-- The scan for fields finds the key and the value as they are written. -/
theorem fieldOf?_line (f : FlatField) : fieldOf? f.line = some f.pair := by
  obtain ⟨c, rest, hvalue, hletter⟩ := f.exists_value
  -- A value that starts with a letter is not quoted.
  have hquote : unquote f.value = f.value := by
    have hdouble : c ≠ '"' := by
      rintro rfl
      exact absurd hletter (by decide)
    have hsingle : c ≠ '\'' := by
      rintro rfl
      exact absurd hletter (by decide)
    rw [hvalue]
    cases rest <;> simp [unquote, unquote.inner?, hdouble, hsingle]
  have hne : f.value.isEmpty = false := by
    rw [hvalue]
    rfl
  rw [fieldOf?, f.ofLine?_line, Option.bind_some]
  simp only [f.trim_value, hquote, hne, Bool.false_eq_true, if_false]
  rfl

/-- A flat line opens no fence. -/
theorem fence_line (f : FlatField) : Fence.ofLine? f.line = none := by
  obtain ⟨c, rest, hline, halpha⟩ := f.exists_line
  have hblank : isBlank c = false := isBlank_of_isAlpha halpha
  have hmark : ∀ mark : FenceMark, Fence.ofMark? mark f.line = none := by
    intro mark
    have hc : c ≠ mark.char := by
      rintro rfl
      revert halpha
      cases mark <;> decide
    simp [Fence.ofMark?, hline, hc]
  have htrim : trimStart f.line = f.line := by
    rw [hline, trimStart, List.dropWhile_cons_of_neg (by simp [hblank])]
  rw [Fence.ofLine?, htrim]
  simp only [hmark]
  rfl

/-- A flat line is no heading. -/
theorem heading_line (f : FlatField) : Heading.ofLine? true f.line = none := by
  obtain ⟨c, rest, hline, halpha⟩ := f.exists_line
  have hspace : c ≠ ' ' := by
    rintro rfl
    exact absurd halpha (by decide)
  have hmark : c ≠ '#' := by
    rintro rfl
    exact absurd halpha (by decide)
  simp [Heading.ofLine?, hline, hspace, hmark]

/-- A flat line closes no front matter. -/
theorem not_isClosing_line (f : FlatField) {ends : List Char}
    (hends : ∀ c ∈ ends, isBlank c = true) : FrontMatter.isClosing (f.line ++ ends) = false := by
  obtain ⟨c, rest, hline, halpha⟩ := f.exists_line
  have hdash : c ≠ '-' := by
    rintro rfl
    exact absurd halpha (by decide)
  have hpoint : c ≠ '.' := by
    rintro rfl
    exact absurd halpha (by decide)
  have htrim : trimEnd (f.line ++ ends) = f.line :=
    (dropEndWhile_append_of_all hends).trans f.trimEnd_line
  rw [FrontMatter.isClosing, htrim, hline]
  simp [FrontMatter.delimiter, hdash, hpoint]

end FlatField

/-! ## Flat documents -/

/-- A document that is front matter of flat fields. -/
structure FlatDocument where
  fields : List FlatField
  /-- What ends each line but the last one. -/
  eol : List Char
  /-- What follows the last delimiter. -/
  tail : List Char
  eol_eq : IsLineBreak eol
  tail_eq : tail = [] ∨ IsLineBreak tail

namespace FlatDocument

variable {doc : FlatDocument} {fileName : String}

/-- The lines between the delimiters. -/
def body (doc : FlatDocument) : List Char :=
  (doc.fields.map FlatField.line).flatMap (· ++ doc.eol)

/-- The first line. -/
def opening (doc : FlatDocument) : List Char :=
  FrontMatter.delimiter ++ doc.eol

/-- The last line. -/
def closing (doc : FlatDocument) : List Char :=
  FrontMatter.delimiter ++ doc.tail

/-- The document as it is written. -/
def text (doc : FlatDocument) : List Char :=
  doc.opening ++ doc.body ++ doc.closing

/-- The keys and the values as they are written. -/
def pairs (doc : FlatDocument) : List (String × String) :=
  doc.fields.map FlatField.pair

/-- The metadata of the fields, with their keys in normal form. -/
def metadata (doc : FlatDocument) : Metadata :=
  ⟨doc.fields.map FlatField.normalPair⟩

theorem oneLine_delimiter : OneLine FrontMatter.delimiter := by
  have hall : FrontMatter.delimiter.all (!isLineEnd ·) = true := rfl
  intro c hc
  simpa using List.all_eq_true.mp hall c hc

theorem splitLines_closing (doc : FlatDocument) : splitLines doc.closing = [doc.closing] :=
  splitLines_last oneLine_delimiter (by decide) doc.tail_eq

/-- The lines of the document. -/
theorem splitLines_text (doc : FlatDocument) :
    splitLines doc.text =
      doc.opening :: ((doc.fields.map FlatField.line).map (· ++ doc.eol) ++ [doc.closing]) := by
  have hlines : ∀ l ∈ doc.fields.map FlatField.line, OneLine l := by
    intro l hl
    obtain ⟨f, -, rfl⟩ := List.mem_map.mp hl
    exact f.oneLine_line
  rw [text, List.append_assoc, opening, splitLines_line oneLine_delimiter doc.eol_eq, body,
    splitLines_written hlines doc.eol_eq, doc.splitLines_closing]

/-- The document starts with a dash. -/
theorem exists_text (doc : FlatDocument) : ∃ rest, doc.text = '-' :: rest :=
  ⟨_, rfl⟩

/-! ## Scanning

The scan drops the terminators of the lines and meets no fence and no heading, so it goes through
all of them with no code open.
-/

/-- The scan finds the fields of flat lines and goes on behind them. -/
theorem scanLines_append (fields : List FlatField) (rest : List (List Char)) :
    scanLines none (fields.map FlatField.line ++ rest) =
      fields.map FlatField.pair ++ scanLines none rest := by
  induction fields with
  | nil => rfl
  | cons f fields ih =>
    rw [List.map_cons, List.cons_append, scanLines, f.fence_line]
    simp only [f.heading_line, f.fieldOf?_line, ih]
    rfl

/-- A delimiter tells the scan nothing. -/
theorem scanLines_delimiter (rest : List (List Char)) :
    scanLines none (FrontMatter.delimiter :: rest) = scanLines none rest := by
  have hfence : Fence.ofLine? FrontMatter.delimiter = none := by decide
  have hheading : Heading.ofLine? true FrontMatter.delimiter = none := by decide
  have hfield : fieldOf? FrontMatter.delimiter = none := by decide
  rw [scanLines, hfence]
  simp only [hheading, hfield]
  rfl

/-- Scanning collects the fields in order; the first value of a key counts. -/
theorem scan_text (doc : FlatDocument) :
    scan doc.text = doc.pairs.foldl (fun m (key, value) => m.insertIfAbsent key value) empty := by
  have hmark : dropByteOrderMark doc.text = doc.text := by
    obtain ⟨rest, htext⟩ := doc.exists_text
    rw [htext]
    rfl
  -- Without their terminators the lines are those of the fields between the two delimiters.
  have hlines : (splitLines doc.text).map dropTerminator =
      FrontMatter.delimiter ::
        (doc.fields.map FlatField.line ++ [FrontMatter.delimiter]) := by
    rw [doc.splitLines_text, List.map_cons, opening,
      dropTerminator_append oneLine_delimiter (Or.inr doc.eol_eq), List.map_append,
      List.map_singleton, closing, dropTerminator_append oneLine_delimiter doc.tail_eq,
      List.map_map, List.map_map]
    congr 2
    refine List.map_congr_left fun f _ => ?_
    exact dropTerminator_append f.oneLine_line (Or.inr doc.eol_eq)
  unfold scan
  simp only [hmark, hlines]
  rw [scanLines_delimiter, scanLines_append, scanLines_delimiter, scanLines, List.append_nil]
  rfl

/-! ## Front matter -/

/-- Where the front matter of the document stands. -/
def frontMatter (doc : FlatDocument) : FrontMatter :=
  let bodyStart := byteSize doc.opening
  let bodyStop := bodyStart + byteSize doc.body
  ⟨⟨0, bodyStop + byteSize FrontMatter.delimiter⟩, ⟨bodyStart, bodyStop⟩⟩

theorem trimEnd_delimiter {ends : List Char} (hends : ∀ c ∈ ends, isLineEnd c = true) :
    trimEnd (FrontMatter.delimiter ++ ends) = FrontMatter.delimiter :=
  dropEndWhile_append_of_all fun c hc => isBlank_of_isLineEnd (hends c hc)

theorem isLineEnd_of_mem_tail (doc : FlatDocument) : ∀ c ∈ doc.tail, isLineEnd c = true := by
  rcases doc.tail_eq with htail | htail
  · rw [htail]
    exact nofun
  · exact htail.isLineEnd

/-- No flat line closes the front matter, so its last delimiter does. -/
theorem findClosing_append (doc : FlatDocument) (fields : List FlatField) (offset : Nat) :
    FrontMatter.findClosing offset
        ((fields.map FlatField.line).map (· ++ doc.eol) ++ [doc.closing]) =
      some (offset + byteSize ((fields.map FlatField.line).flatMap (· ++ doc.eol)),
        offset + byteSize ((fields.map FlatField.line).flatMap (· ++ doc.eol)) +
          byteSize FrontMatter.delimiter) := by
  -- The offset counts the lines that are passed, so the induction is for every offset.
  induction fields generalizing offset with
  | nil =>
    have hclosing : FrontMatter.isClosing doc.closing = true := by
      rw [FrontMatter.isClosing, closing, trimEnd_delimiter doc.isLineEnd_of_mem_tail]
      decide
    have htrim := trimEnd_delimiter doc.isLineEnd_of_mem_tail
    rw [List.map_nil, List.map_nil, List.nil_append, FrontMatter.findClosing, if_pos hclosing,
      closing, htrim]
    rfl
  | cons f fields ih =>
    have hline : FrontMatter.isClosing (f.line ++ doc.eol) = false :=
      f.not_isClosing_line fun c hc => isBlank_of_isLineEnd (doc.eol_eq.isLineEnd c hc)
    rw [List.map_cons, List.map_cons, List.cons_append, FrontMatter.findClosing,
      if_neg (Bool.eq_false_iff.mp hline), ih, List.flatMap_cons,
      byteSize_append _ (List.flatMap _ _), Nat.add_assoc]

/-- The front matter is the whole document up to its last delimiter. -/
theorem frontMatter?_text (doc : FlatDocument) :
    Document.frontMatter? doc.text = some doc.frontMatter := by
  obtain ⟨rest, htext⟩ := doc.exists_text
  have hopening : (trimEnd doc.opening == FrontMatter.delimiter) = true := by
    rw [opening, trimEnd_delimiter doc.eol_eq.isLineEnd]
    decide
  have hfind : Document.frontMatter? doc.text = FrontMatter.ofLines? 0 (splitLines doc.text) := by
    rw [htext]
    rfl
  rw [hfind, doc.splitLines_text, FrontMatter.ofLines?, if_pos hopening]
  simp only [doc.findClosing_append, Option.map_some, Nat.zero_add]
  rfl

/-- The text of the metadata is what stands between the delimiters. -/
theorem textOf_text (doc : FlatDocument) (hname : isYamlFile fileName = false) :
    textOf fileName doc.text = doc.body := by
  rw [textOf, if_neg (Bool.eq_false_iff.mp hname), doc.frontMatter?_text]
  simp only [frontMatter, text]
  rw [slice, slice?_append]
  rfl

/-! ## YAML

The trees that YAML reads have no decidable equality, but whether a tree is the mapping of the texts
can be decided: reading its members as pairs of texts gives the pairs of the document.
-/

/-- YAML reads the lines between the delimiters as a mapping of the keys to the values. -/
def ReadAsYaml (doc : FlatDocument) : Prop :=
  Yaml.Value.ofChars? doc.body = .ok (.mapping (doc.fields.map fun f =>
    (.text (String.ofList f.key), .text (String.ofList f.value))))

/-- The pair of a member whose key and value are texts. -/
def textPair? : Yaml.Value × Yaml.Value → Option (String × String)
  | (.text key, .text value) => some (key, value)
  | _ => none

/-- The pairs of a mapping of texts to texts. -/
def textPairs? : Yaml.Value → Option (List (String × String))
  | .mapping members => members.mapM textPair?
  | _ => none

theorem textPair?_eq_some_iff {member : Yaml.Value × Yaml.Value} {pair : String × String} :
    textPair? member = some pair ↔ member = (.text pair.1, .text pair.2) := by
  constructor
  · intro h
    unfold textPair? at h
    split at h
    · obtain rfl := Option.some.inj h
      rfl
    · cases h
  · rintro rfl
    rfl

theorem mapM_textPair?_eq_some_iff {members : List (Yaml.Value × Yaml.Value)}
    {pairs : List (String × String)} :
    members.mapM textPair? = some pairs ↔
      members = pairs.map fun pair => (.text pair.1, .text pair.2) := by
  induction members generalizing pairs with
  | nil => cases pairs <;> simp
  | cons member rest ih =>
    cases pairs with
    | nil => simp [List.mapM_cons, Option.bind_eq_some_iff]
    | cons pair pairs =>
      simp [List.mapM_cons, Option.bind_eq_some_iff, textPair?_eq_some_iff, ih]

/-- Whether YAML reads a text as a mapping of texts can be computed. -/
theorem ofChars?_eq_texts_iff {text : List Char} {fields : List FlatField} :
    Yaml.Value.ofChars? text = .ok (.mapping (fields.map fun f =>
      (.text (String.ofList f.key), .text (String.ofList f.value)))) ↔
    (Yaml.Value.ofChars? text).toOption.bind textPairs? = some (fields.map FlatField.pair) := by
  have hmembers : (fields.map FlatField.pair).map
      (fun pair => (Yaml.Value.text pair.1, Yaml.Value.text pair.2)) =
        fields.map fun f => (.text (String.ofList f.key), .text (String.ofList f.value)) :=
    List.map_map
  rw [← hmembers]
  cases Yaml.Value.ofChars? text with
  | error fault => exact iff_of_false nofun nofun
  | ok v =>
    rw [Except.ok.injEq]
    show _ ↔ textPairs? v = some (fields.map FlatField.pair)
    cases v with
    | mapping members => rw [textPairs?, mapM_textPair?_eq_some_iff, Yaml.Value.mapping.injEq]
    | _ => exact iff_of_false nofun nofun

instance (doc : FlatDocument) : Decidable doc.ReadAsYaml :=
  decidable_of_iff _ ofChars?_eq_texts_iff.symm

/-- A mapping of texts has its pairs as leaves. -/
theorem leaves_texts (fields : List FlatField) :
    leaves "" (.mapping (fields.map fun f =>
      (.text (String.ofList f.key), .text (String.ofList f.value)))) =
      fields.map FlatField.pair := by
  rw [leaves]
  induction fields with
  | nil => rfl
  | cons f fields ih =>
    rw [List.map_cons, leaves.memberLeaves, ih]
    rfl

theorem trim_body_ne_nil (doc : FlatDocument) (hne : doc.fields ≠ []) :
    (trim doc.body).isEmpty = false := by
  obtain ⟨f, fields, hfields⟩ := List.exists_cons_of_ne_nil hne
  obtain ⟨c, rest, hline, halpha⟩ := f.exists_line
  have hblank : isBlank c = false := isBlank_of_isAlpha halpha
  rw [List.isEmpty_eq_false_iff, body, hfields, List.map_cons, List.flatMap_cons, hline, trim,
    List.cons_append, List.cons_append, trimStart, List.dropWhile_cons_of_neg (by simp [hblank])]
  intro hnil
  have hall := trimEnd_eq_nil_iff.mp hnil c List.mem_cons_self
  rw [hblank] at hall
  cases hall

/-- Reading collects texts in order; the last value of a key counts. -/
theorem read_of_texts {text : List Char} {fields : List FlatField}
    (hblank : (trim text).isEmpty = true → fields = [])
    (hyaml : Yaml.Value.ofChars? text = .ok (.mapping (fields.map fun f =>
      (.text (String.ofList f.key), .text (String.ofList f.value))))) :
    read text = .ok (ofList (fields.map FlatField.pair)) := by
  rw [read]
  split
  · next hempty =>
    rw [hblank hempty]
    rfl
  · rw [hyaml]
    simp only [ofYaml?, leaves_texts]

/-- Reading collects the fields of the document. -/
theorem read_textOf (hname : isYamlFile fileName = false) (hyaml : doc.ReadAsYaml) :
    read (textOf fileName doc.text) = .ok (ofList doc.pairs) := by
  rw [doc.textOf_text hname]
  refine read_of_texts (fun hblank => ?_) hyaml
  by_contra hne
  rw [doc.trim_body_ne_nil hne] at hblank
  cases hblank

/-! ## Distinct keys

Reading replaces the value of a key that it meets again, and scanning keeps the first one. On keys
that are distinct in normal form both only add entries.
-/

/-- Both ways to collect fields whose keys are distinct give them all in order. -/
theorem foldl_pairs {step : Metadata → String × String → Metadata}
    (hstep : ∀ (m : Metadata) (pair : String × String), normalizeKey pair.1 ∉ m.keys →
      step m pair = m.insert pair.1 pair.2)
    (hkeys : (normalKeys doc.pairs).Nodup) : doc.pairs.foldl step empty = doc.metadata := by
  have hentries := entries_foldl_of_nodup (m := empty) hstep hkeys
  rw [pairs, List.map_map] at hentries
  exact congrArg Metadata.mk hentries

theorem ofList_pairs (hkeys : (normalKeys doc.pairs).Nodup) : ofList doc.pairs = doc.metadata :=
  foldl_pairs (fun _ _ _ => rfl) hkeys

theorem scan_text_of_nodup (hkeys : (normalKeys doc.pairs).Nodup) :
    scan doc.text = doc.metadata := by
  rw [doc.scan_text]
  exact foldl_pairs (fun _ pair hnew => insertIfAbsent_of_not_mem hnew pair.2) hkeys

end FlatDocument

end ArticleAudit.Metadata
