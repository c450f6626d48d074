import ArticleAudit.Proofs.Markdown.Mapping

/-!
# Builders that do not look at headings

Strictness changes what is known of a line in one point only: whether it is a heading. Fenced code,
alerts, tables and lists are built without looking at it. So they build the same blocks from lines
whose headings are forgotten, and leave the same lines.
-/

set_option autoImplicit false

namespace ArticleAudit.Markdown

open ArticleAudit.Text

variable {source : List Char}

/-- The facts about a line without its heading. -/
def LineFacts.unheaded (l : LineFacts) : LineFacts :=
  { l with heading := none }

/-- Strictness changes nothing but headings. -/
theorem LineFacts.unheaded_ofLine (strict strict' : Bool) (raw : Line) :
    (ofLine strict raw).unheaded = (ofLine strict' raw).unheaded :=
  rfl

/-- Lines without their headings. -/
def unheaded (lines : List LineFacts) : List LineFacts :=
  lines.map LineFacts.unheaded

/-- From lines without headings the same block is built, and the same lines are left. -/
structure Taken.Unheaded {lines : List LineFacts} (taken : Taken lines)
    (taken' : Taken (unheaded lines)) : Prop where
  block : taken'.block = taken.block
  rest : taken'.rest = unheaded taken.rest

/-! ## Runs of lines -/

theorem takeWhile_unheaded {p : LineFacts → Bool} (hp : ∀ l, p l.unheaded = p l)
    (lines : List LineFacts) : (unheaded lines).takeWhile p = unheaded (lines.takeWhile p) :=
  takeWhile_map_lines hp lines

theorem dropWhile_unheaded {p : LineFacts → Bool} (hp : ∀ l, p l.unheaded = p l)
    (lines : List LineFacts) : (unheaded lines).dropWhile p = unheaded (lines.dropWhile p) :=
  dropWhile_map_lines hp lines

theorem lastLine_unheaded (l : LineFacts) (lines : List LineFacts) :
    lastLine l.unheaded (unheaded lines) = (lastLine l lines).unheaded :=
  lastLine_map LineFacts.unheaded l lines

/-! ## Blocks that hold no other lines' blocks -/

theorem head?_unheaded (lines : List LineFacts) :
    (unheaded lines).head? = lines.head?.map LineFacts.unheaded := by
  rw [unheaded, List.head?_map]

theorem tail_unheaded (lines : List LineFacts) : (unheaded lines).tail = unheaded lines.tail := by
  rw [unheaded, unheaded, List.map_tail]

theorem unheaded_fenceBlock (l : LineFacts) (f : Fence) (lines : List LineFacts) :
    (fenceBlock source l f lines).Unheaded (fenceBlock source l.unheaded f (unheaded lines)) := by
  have hbody := takeWhile_unheaded (p := fun c => !f.isClosedBy c.fence) (fun _ => rfl) lines
  have hrest := dropWhile_unheaded (p := fun c => !f.isClosedBy c.fence) (fun _ => rfl) lines
  have hchildren : fenceChildren (languageOf f.info)
      (unheaded (lines.takeWhile fun c => !f.isClosedBy c.fence)) =
        fenceChildren (languageOf f.info) (lines.takeWhile fun c => !f.isClosedBy c.fence) := by
    unfold fenceChildren unheaded
    rw [List.flatMap_map]
    rfl
  constructor
  · simp only [fenceBlock, hbody, hrest, hchildren, head?_unheaded, lastLine_unheaded]
    cases (lines.dropWhile fun c => !f.isClosedBy c.fence).head? <;> rfl
  · simp only [fenceBlock, hrest, tail_unheaded]

theorem unheaded_noteBlock (l : LineFacts) (name : List Char) (lines : List LineFacts) :
    (noteBlock source l name lines).Unheaded
      (noteBlock source l.unheaded name (unheaded lines)) := by
  have hbody := takeWhile_unheaded (p := fun c => decide (c.quote.depth > 0)) (fun _ => rfl) lines
  have hrest := dropWhile_unheaded (p := fun c => decide (c.quote.depth > 0)) (fun _ => rfl) lines
  constructor
  · simp only [noteBlock, hbody, lastLine_unheaded]
    cases lines.takeWhile fun c => c.quote.depth > 0 with
    | nil => rfl
    | cons first rest =>
      simp only [unheaded, List.map_cons, List.flatMap_cons, List.flatMap_map]
      rfl
  · simp only [noteBlock, hrest]

theorem unheaded_tableBlock (l : LineFacts) (lines : List LineFacts) :
    (tableBlock source l lines).Unheaded (tableBlock source l.unheaded (unheaded lines)) := by
  have hbody := takeWhile_unheaded (p := LineFacts.isRow) (fun _ => rfl) lines
  have hrest := dropWhile_unheaded (p := LineFacts.isRow) (fun _ => rfl) lines
  constructor
  · simp only [tableBlock, hbody, lastLine_unheaded]
    simp only [unheaded, List.filterMap_map]
    rfl
  · simp only [tableBlock, hrest]

/-! ## Lists -/

theorem Taken.Unheaded.maps {lines : List LineFacts} {taken : Taken lines}
    {taken' : Taken (unheaded lines)} (h : taken.Unheaded taken') :
    taken.Maps LineFacts.unheaded id taken' :=
  ⟨h.block, h.rest⟩

theorem Taken.Maps.unheaded {lines : List LineFacts} {taken : Taken lines}
    {taken' : Taken (unheaded lines)} (h : taken.Maps LineFacts.unheaded id taken') :
    taken.Unheaded taken' :=
  ⟨h.block, h.rest⟩

/-- Lists do not look at headings. -/
theorem mapsLists_unheaded (source : List Char) :
    MapsLists source source (fun _ => True) LineFacts.unheaded id where
  isBlank _ := rfl
  indent _ := rfl
  marker _ := rfl
  fence _ := rfl
  row _ _ := rfl
  item _ _ _ inner _ := by
    rw [List.map_id]
    rfl
  list _ _ _ items _ := by
    rw [List.map_id]
    rfl
  code l f lines _ _ := (unheaded_fenceBlock l f lines).maps

/-- A list is built from lines without headings as from the lines. -/
theorem unheaded_takeList (depth : Nat) (marker : ListMarker) (l : LineFacts)
    (lines : List LineFacts) :
    (takeList source depth marker l lines).Unheaded
      (takeList source depth marker l.unheaded (unheaded lines)) := by
  have hlists := (mapsLists_unheaded source).maps_take.1 depth marker l lines
  exact (hlists trivial fun _ _ => trivial).unheaded

end ArticleAudit.Markdown
