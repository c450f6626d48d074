import ArticleAudit.Proofs.Block.Sections
import ArticleAudit.Proofs.Text.LineEnds

/-!
# Blocks of a text with carriage returns

`Block.crlf` moves the spans of a block and of its descendants to where they come to lie when each
line feed of the source gets a carriage return. Blocks that are cut out of the source are cut out of
the new one (`ofSource_crlf`), and sections are assigned to the moved blocks as they are assigned to
the blocks (`assignRegions_crlf`).
-/

set_option autoImplicit false

namespace ArticleAudit

open ArticleAudit.Text

mutual

/-- The block where it stands in the text with carriage returns. Kind, level and tag stay, spans
move, and the text has its carriage returns. -/
def Block.crlf (source : List Char) : Block → Block
  | ⟨kind, span, text, level, tag, content, target, region, children⟩ =>
    { kind
      span := span.crlf source
      text := String.ofList (Text.crlf text.toList)
      level
      tag
      content := content.map (Span.crlf source)
      target := target.map (Span.crlf source)
      region := region.map (Span.crlf source)
      children := Block.crlfAll source children }

/-- The blocks of a forest where they stand in the text with carriage returns. -/
def Block.crlfAll (source : List Char) : List Block → List Block
  | [] => []
  | b :: rest => b.crlf source :: Block.crlfAll source rest

end

namespace Block

variable {source : List Char} {b : Block}

theorem crlfAll_eq_map (source : List Char) (blocks : List Block) :
    crlfAll source blocks = blocks.map (crlf source) := by
  induction blocks with
  | nil =>
    rw [crlfAll]
    rfl
  | cons b rest ih => rw [crlfAll, ih, List.map_cons]

theorem crlf_eq (source : List Char) (b : Block) :
    b.crlf source =
      { kind := b.kind
        span := b.span.crlf source
        text := String.ofList (Text.crlf b.text.toList)
        level := b.level
        tag := b.tag
        content := b.content.map (Span.crlf source)
        target := b.target.map (Span.crlf source)
        region := b.region.map (Span.crlf source)
        children := b.children.map (crlf source) } := by
  cases b
  rw [crlf, crlfAll_eq_map]

@[simp] theorem kind_crlf : (b.crlf source).kind = b.kind := by rw [crlf_eq]

@[simp] theorem span_crlf : (b.crlf source).span = b.span.crlf source := by rw [crlf_eq]

@[simp] theorem level_crlf : (b.crlf source).level = b.level := by rw [crlf_eq]

@[simp] theorem children_crlf : (b.crlf source).children = b.children.map (crlf source) := by
  rw [crlf_eq]

/-! ## Builders -/

theorem leaf_crlf (source : List Char) (kind : BlockKind) (span : Span) (text : List Char) :
    leaf kind (span.crlf source) (Text.crlf text) = (leaf kind span text).crlf source := by
  rw [crlf_eq]
  simp [leaf]

/-- A block that is cut out of the source. -/
theorem ofSource_crlf (source : List Char) (kind : BlockKind) (start stop : Nat) :
    ofSource (Text.crlf source) kind (crlfOffset source start) (crlfOffset source stop) =
      (ofSource source kind start stop).crlf source := by
  unfold ofSource
  rw [← leaf_crlf, ← slice_crlf]
  rfl

theorem withLevel_crlf (level : Nat) :
    (b.crlf source).withLevel level = (b.withLevel level).crlf source := by
  rw [crlf_eq, crlf_eq]
  rfl

theorem withTag_crlf (tag : List Char) :
    (b.crlf source).withTag tag = (b.withTag tag).crlf source := by
  rw [crlf_eq, crlf_eq]
  rfl

theorem withContent_crlf (content : Span) :
    (b.crlf source).withContent (content.crlf source) = (b.withContent content).crlf source := by
  rw [crlf_eq, crlf_eq]
  rfl

theorem withTarget_crlf (target : Span) :
    (b.crlf source).withTarget (target.crlf source) = (b.withTarget target).crlf source := by
  rw [crlf_eq, crlf_eq]
  rfl

theorem withChildren_crlf (children : List Block) :
    (b.crlf source).withChildren (children.map (crlf source)) =
      (b.withChildren children).crlf source := by
  rw [crlf_eq, crlf_eq]
  rfl

/-! ## Sections -/

theorem endsRegion_crlf (level : Nat) (b : Block) :
    endsRegion level (b.crlf source) = endsRegion level b := by
  unfold endsRegion
  rw [kind_crlf, level_crlf]

theorem regionStop_crlf (source : List Char) (level limit : Nat) (later : List Block) :
    regionStop level (crlfOffset source limit) (later.map (crlf source)) =
      crlfOffset source (regionStop level limit later) := by
  unfold regionStop
  rw [List.find?_map, show endsRegion level ∘ crlf source = endsRegion level from
    funext (endsRegion_crlf level)]
  cases later.find? (endsRegion level) with
  | none => rfl
  | some b =>
    show (b.crlf source).span.start = crlfOffset source b.span.start
    rw [span_crlf, Span.start_crlf]

/-- The section of a moved block, if the sections inside it move as it does. -/
theorem place_crlf {limit : Nat} {later : List Block}
    (hchildren : assignRegions (crlfOffset source b.span.stop) (b.children.map (crlf source)) =
      (assignRegions b.span.stop b.children).map (crlf source)) :
    place (crlfOffset source limit) (b.crlf source) (later.map (crlf source)) =
      (place limit b later).crlf source := by
  unfold place
  rw [kind_crlf]
  split
  · rw [level_crlf, regionStop_crlf, crlf_eq, crlf_eq]
    rfl
  · rw [children_crlf, span_crlf, Span.stop_crlf, hchildren, crlf_eq, crlf_eq]
  · rfl

/-- Sections are assigned to the moved blocks as to the blocks. -/
theorem assignRegions_crlf (source : List Char) (limit : Nat) (blocks : List Block) :
    assignRegions (crlfOffset source limit) (blocks.map (crlf source)) =
      (assignRegions limit blocks).map (crlf source) := by
  fun_induction assignRegions limit blocks with
  | case1 limit => rw [List.map_nil, assignRegions_nil]
  | case2 limit b later placed hchildren hlater =>
    rw [List.map_cons, assignRegions_cons, place_crlf hchildren, hlater, List.map_cons]
    rfl

end Block

end ArticleAudit
