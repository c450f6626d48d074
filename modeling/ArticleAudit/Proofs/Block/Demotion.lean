import ArticleAudit.Proofs.Block.Sections

/-!
# Forests of a strict and of a lenient reading

`Demotes` compares the forests of two readings of one text, of which the first one recognizes fewer
headings and tables. It is preserved by what builds forests (`Demotes.append`, `Demotes.zone`), a
heading or a table may stand on the lenient side alone (`Demotes.cons_lenient`), and sections do not
disturb it (`Demotes.assignRegions`).
-/

set_option autoImplicit false

namespace ArticleAudit.Block

open ArticleAudit.Text

/-- Front matter, fenced code, an alert or a list: strictness does not touch these. -/
def isSettled (b : Block) : Bool :=
  b.kind == .metadata || b.kind == .codeFence || b.kind == .note || b.kind == .bulletedList ||
    b.kind == .numberedList

/-- A heading or a tab. -/
def isTitle (b : Block) : Bool :=
  b.kind == .header || b.kind == .conceptualTab

/-- A zone. -/
def isZone (b : Block) : Bool :=
  b.kind == .zonePivot

/-- The block without its section. -/
def withoutRegion (b : Block) : Block :=
  { b with region := none }

/-- The block without its children. -/
def withoutChildren (b : Block) : Block :=
  b.withChildren []

/-- Siblings of a strict and of a lenient reading. Only a heading, the front of a table or a whole
table can turn into text of a paragraph. -/
structure DemotesHere (strict lenient : List Block) : Prop where
  settled : strict.filter isSettled = lenient.filter isSettled
  titles : ((strict.filter isTitle).map withoutRegion).Sublist
    ((lenient.filter isTitle).map withoutRegion)
  zones : (strict.filter isZone).map withoutChildren = (lenient.filter isZone).map withoutChildren
  tables : ∀ t ∈ strict, t.kind = .table →
    ∃ t' ∈ lenient, t'.kind = .table ∧ t'.span.contains t.span = true ∧ t.span.stop = t'.span.stop
  paragraphs : ∀ p ∈ lenient, p.kind = .paragraph →
    ∃ p' ∈ strict, p'.kind = .paragraph ∧ p'.span.contains p.span = true

/-- The forests of a strict and of a lenient reading: the zones correspond one to one, and what is
inside them compares as the forests do. -/
inductive Demotes : List Block → List Block → Prop
  | intro {strict lenient : List Block} :
    DemotesHere strict lenient →
    (∀ pair ∈ (strict.filter isZone).zip (lenient.filter isZone),
      Demotes pair.1.children pair.2.children) →
    Demotes strict lenient

/-! ## Siblings -/

namespace DemotesHere

theorem nil : DemotesHere [] [] :=
  ⟨rfl, List.Sublist.refl _, rfl, nofun, nofun⟩

theorem append {a a' b b' : List Block} (ha : DemotesHere a a') (hb : DemotesHere b b') :
    DemotesHere (a ++ b) (a' ++ b') := by
  constructor
  · rw [List.filter_append, List.filter_append, ha.settled, hb.settled]
  · rw [List.filter_append, List.filter_append, List.map_append, List.map_append]
    exact ha.titles.append hb.titles
  · rw [List.filter_append, List.filter_append, List.map_append, List.map_append, ha.zones,
      hb.zones]
  · intro t ht hkind
    rcases List.mem_append.mp ht with ht | ht
    · obtain ⟨t', ht', h⟩ := ha.tables t ht hkind
      exact ⟨t', List.mem_append_left _ ht', h⟩
    · obtain ⟨t', ht', h⟩ := hb.tables t ht hkind
      exact ⟨t', List.mem_append_right _ ht', h⟩
  · intro p hp hkind
    rcases List.mem_append.mp hp with hp | hp
    · obtain ⟨p', hp', h⟩ := ha.paragraphs p hp hkind
      exact ⟨p', List.mem_append_left _ hp', h⟩
    · obtain ⟨p', hp', h⟩ := hb.paragraphs p hp hkind
      exact ⟨p', List.mem_append_right _ hp', h⟩

theorem length_zones {a a' : List Block} (h : DemotesHere a a') :
    (a.filter isZone).length = (a'.filter isZone).length := by
  simpa using congrArg List.length h.zones

/-- The same block on both sides. -/
theorem same (b : Block) : DemotesHere [b] [b] := by
  refine ⟨rfl, List.Sublist.refl _, rfl, ?_, ?_⟩
  · intro t ht hkind
    exact ⟨t, ht, hkind, t.span.contains_self, rfl⟩
  · intro p hp hkind
    exact ⟨p, hp, hkind, p.span.contains_self⟩

end DemotesHere

/-! ## Forests -/

namespace Demotes

theorem here {a a' : List Block} (h : Demotes a a') : DemotesHere a a' := by
  cases h with
  | intro here _ => exact here

theorem inside {a a' : List Block} (h : Demotes a a') :
    ∀ pair ∈ (a.filter isZone).zip (a'.filter isZone),
      Demotes pair.1.children pair.2.children := by
  cases h with
  | intro _ inside => exact inside

theorem nil : Demotes [] [] :=
  .intro .nil nofun

theorem append {a a' b b' : List Block} (ha : Demotes a a') (hb : Demotes b b') :
    Demotes (a ++ b) (a' ++ b') := by
  refine .intro (ha.here.append hb.here) ?_
  rw [List.filter_append, List.filter_append, List.zip_append ha.here.length_zones]
  intro pair hpair
  rcases List.mem_append.mp hpair with hpair | hpair
  · exact ha.inside pair hpair
  · exact hb.inside pair hpair

theorem cons {a a' : List Block} {b b' : Block} (hb : Demotes [b] [b']) (h : Demotes a a') :
    Demotes (b :: a) (b' :: a') :=
  hb.append h

/-- A block that is no zone on both sides. -/
theorem same {b : Block} (hb : b.isZone = false) : Demotes [b] [b] := by
  refine .intro (.same b) ?_
  rw [List.filter_cons_of_neg (by simp [hb])]
  exact nofun

/-- A zone on both sides. -/
theorem zone {z z' : Block} (hz : z.kind = .zonePivot)
    (hsame : z.withoutChildren = z'.withoutChildren) (hinside : Demotes z.children z'.children) :
    Demotes [z] [z'] := by
  have hz' : z'.kind = .zonePivot := (congrArg Block.kind hsame).symm.trans hz
  have hzone : [z].filter isZone = [z] := List.filter_cons_of_pos (by simp [isZone, hz])
  have hzone' : [z'].filter isZone = [z'] := List.filter_cons_of_pos (by simp [isZone, hz'])
  refine .intro ⟨?_, ?_, ?_, ?_, ?_⟩ ?_
  · simp [isSettled, hz, hz']
  · simp [isTitle, hz]
  · rw [hzone, hzone', List.map_singleton, List.map_singleton, hsame]
  · intro t ht hkind
    simp [List.mem_singleton.mp ht, hz] at hkind
  · intro p hp hkind
    simp [List.mem_singleton.mp hp, hz'] at hkind
  · intro pair hpair
    rw [hzone, hzone'] at hpair
    obtain rfl : pair = (z, z') := by simpa using hpair
    exact hinside

/-- A table that starts later for the strict reading. -/
theorem table {t t' : Block} (ht : t.kind = .table) (ht' : t'.kind = .table)
    (hcontains : t'.span.contains t.span = true) (hstop : t.span.stop = t'.span.stop) :
    Demotes [t] [t'] := by
  refine .intro ⟨?_, ?_, ?_, ?_, ?_⟩ ?_
  · simp [isSettled, ht, ht']
  · simp [isTitle, ht]
  · simp [isZone, ht, ht']
  · intro u hu _
    rw [List.mem_singleton.mp hu]
    exact ⟨t', List.mem_singleton_self t', ht', hcontains, hstop⟩
  · intro p hp hkind
    simp [List.mem_singleton.mp hp, ht'] at hkind
  · simp [isZone, ht]

/-- A paragraph that is longer for the strict reading. -/
theorem paragraph {p p' : Block} (hp : p.kind = .paragraph) (hp' : p'.kind = .paragraph)
    (hcontains : p.span.contains p'.span = true) : Demotes [p] [p'] := by
  refine .intro ⟨?_, ?_, ?_, ?_, ?_⟩ ?_
  · simp [isSettled, hp, hp']
  · simp [isTitle, hp]
  · simp [isZone, hp, hp']
  · intro t ht hkind
    simp [List.mem_singleton.mp ht, hp] at hkind
  · intro q hq _
    rw [List.mem_singleton.mp hq]
    exact ⟨p, List.mem_singleton_self p, hp, hcontains⟩
  · simp [isZone, hp]

/-- A paragraph for the strict reading alone. -/
theorem paragraph_strict {p : Block} (hp : p.kind = .paragraph) : Demotes [p] [] := by
  refine .intro ⟨?_, ?_, ?_, ?_, nofun⟩ ?_
  · simp [isSettled, hp]
  · simp [isTitle, hp]
  · simp [isZone, hp]
  · intro t ht hkind
    simp [List.mem_singleton.mp ht, hp] at hkind
  · simp [isZone, hp]

/-- A block in front for the lenient reading alone; a paragraph must lie in one of the strict
reading. -/
theorem cons_lenient {a a' : List Block} {b : Block} (h : Demotes a a')
    (hsettled : b.isSettled = false) (hzone : b.isZone = false)
    (hparagraph : b.kind = .paragraph →
      ∃ p ∈ a, p.kind = .paragraph ∧ p.span.contains b.span = true) :
    Demotes a (b :: a') := by
  have hzones : (b :: a').filter isZone = a'.filter isZone :=
    List.filter_cons_of_neg (by simp [hzone])
  refine .intro ⟨?_, ?_, ?_, ?_, ?_⟩ ?_
  · rw [List.filter_cons_of_neg (by simp [hsettled])]
    exact h.here.settled
  · exact h.here.titles.trans (((List.sublist_cons_self b a').filter _).map _)
  · rw [hzones]
    exact h.here.zones
  · intro t ht hkind
    obtain ⟨t', ht', htable⟩ := h.here.tables t ht hkind
    exact ⟨t', List.mem_cons_of_mem b ht', htable⟩
  · intro p hp hkind
    rcases List.mem_cons.mp hp with rfl | hp
    · exact hparagraph hkind
    · exact h.here.paragraphs p hp hkind
  · rw [hzones]
    exact h.inside

end Demotes

/-! ## Sections -/

/-- A zone with sections inside it. -/
def zoneWithRegions (z : Block) : Block :=
  z.withChildren (assignRegions z.span.stop z.children)

theorem place_of_isSettled {b : Block} (hb : b.isSettled = true) (limit : Nat)
    (later : List Block) : place limit b later = b := by
  unfold place
  split
  · next hkind => simp [isSettled, hkind] at hb
  · next hkind => simp [isSettled, hkind] at hb
  · rfl

theorem withoutRegion_place {b : Block} (hb : b.isTitle = true) (limit : Nat)
    (later : List Block) : (place limit b later).withoutRegion = b.withoutRegion := by
  unfold place
  split
  · rfl
  · next hkind => simp [isTitle, hkind] at hb
  · rfl

theorem place_of_isZone {b : Block} (hb : b.isZone = true) (limit : Nat) (later : List Block) :
    place limit b later = b.zoneWithRegions := by
  have hkind : b.kind = .zonePivot := by simpa [isZone] using hb
  simp [place, hkind, zoneWithRegions, withChildren]

/-- What sections change of the siblings of some kinds is what they change of each of them. -/
theorem map_filter_assignRegions {α : Type} {p : Block → Bool} {f g : Block → α}
    (hp : ∀ b b', b.kind = b'.kind → p b = p b')
    (hf : ∀ b, p b = true → ∀ limit later, f (place limit b later) = g b) (limit : Nat)
    (blocks : List Block) :
    ((assignRegions limit blocks).filter p).map f = (blocks.filter p).map g := by
  induction blocks with
  | nil =>
    rw [assignRegions_nil]
    rfl
  | cons b later ih =>
    have hplace := hp _ _ (kind_place limit b later)
    rw [assignRegions_cons]
    cases hb : p b with
    | true =>
      rw [List.filter_cons_of_pos (hplace.trans hb), List.filter_cons_of_pos hb, List.map_cons,
        List.map_cons, hf b hb, ih]
    | false =>
      rw [List.filter_cons_of_neg (by simp [hplace, hb]),
        List.filter_cons_of_neg (by simp [hb]), ih]

theorem filter_isSettled_assignRegions (limit : Nat) (blocks : List Block) :
    (assignRegions limit blocks).filter isSettled = blocks.filter isSettled := by
  have h := map_filter_assignRegions (p := isSettled) (f := id) (g := id)
    (fun _ _ hkind => by simp [isSettled, hkind]) (fun _ => place_of_isSettled) limit blocks
  simpa using h

theorem filter_isTitle_assignRegions (limit : Nat) (blocks : List Block) :
    ((assignRegions limit blocks).filter isTitle).map withoutRegion =
      (blocks.filter isTitle).map withoutRegion :=
  map_filter_assignRegions (fun _ _ hkind => by simp [isTitle, hkind])
    (fun _ => withoutRegion_place) limit blocks

theorem filter_isZone_assignRegions (limit : Nat) (blocks : List Block) :
    (assignRegions limit blocks).filter isZone = (blocks.filter isZone).map zoneWithRegions := by
  have h := map_filter_assignRegions (p := isZone) (f := id) (g := zoneWithRegions)
    (fun _ _ hkind => by simp [isZone, hkind]) (fun _ => place_of_isZone) limit blocks
  simpa using h

theorem DemotesHere.assignRegions {a a' : List Block} (h : DemotesHere a a') (limit limit' : Nat) :
    DemotesHere (assignRegions limit a) (assignRegions limit' a') := by
  constructor
  · rw [filter_isSettled_assignRegions, filter_isSettled_assignRegions, h.settled]
  · rw [filter_isTitle_assignRegions, filter_isTitle_assignRegions]
    exact h.titles
  · rw [filter_isZone_assignRegions, filter_isZone_assignRegions, List.map_map, List.map_map]
    exact h.zones
  · intro t ht hkind
    obtain ⟨u, hu, husite⟩ := exists_mem_of_mem_assignRegions ht
    obtain ⟨hukind, huspan⟩ := Prod.mk.inj husite
    obtain ⟨u', hu', hkind', hcontains, hstop⟩ := h.tables u hu (hukind.trans hkind)
    obtain ⟨t', ht', htsite⟩ := exists_mem_assignRegions limit' hu'
    obtain ⟨htkind, htspan⟩ := Prod.mk.inj htsite
    refine ⟨t', ht', htkind.trans hkind', ?_, ?_⟩
    · rw [htspan, ← huspan]
      exact hcontains
    · rw [htspan, ← huspan]
      exact hstop
  · intro p hp hkind
    obtain ⟨q, hq, hqsite⟩ := exists_mem_of_mem_assignRegions hp
    obtain ⟨hqkind, hqspan⟩ := Prod.mk.inj hqsite
    obtain ⟨q', hq', hkind', hcontains⟩ := h.paragraphs q hq (hqkind.trans hkind)
    obtain ⟨p', hp', hpsite⟩ := exists_mem_assignRegions limit hq'
    obtain ⟨hpkind, hpspan⟩ := Prod.mk.inj hpsite
    refine ⟨p', hp', hpkind.trans hkind', ?_⟩
    rw [hpspan, ← hqspan]
    exact hcontains

/-- Sections do not disturb the comparison, at any depth. -/
theorem Demotes.assignRegions {a a' : List Block} (h : Demotes a a') (limit limit' : Nat) :
    Demotes (assignRegions limit a) (assignRegions limit' a') := by
  induction h generalizing limit limit' with
  | intro here _ ih =>
    refine .intro (here.assignRegions limit limit') ?_
    rw [filter_isZone_assignRegions, filter_isZone_assignRegions, List.zip_map]
    intro pair hpair
    obtain ⟨zones, hzones, rfl⟩ := List.mem_map.mp hpair
    exact ih zones hzones _ _

end ArticleAudit.Block
