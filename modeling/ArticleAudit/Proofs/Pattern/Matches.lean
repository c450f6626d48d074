import ArticleAudit.Pattern.Search
import ArticleAudit.Proofs.Text.Standing

/-!
# Where matches lie

A thread keeps the offset where it started, so a search only ever answers starts at which it put a
thread: `settle_started` says so for one place of the text. Places that are reached character by
character are character boundaries (`Cut.On`). By induction over the rest of the text a match starts
and stops on boundaries, in this order and not before the search (`Hit.Fits`), whatever the program.
The matches in a text are therefore in order, disjoint and cut out of the text (`findAll_fits`), so
that the threaded engine has the law that rules rely on (`Engine.findsInText_threaded`).
-/

set_option autoImplicit false

namespace ArticleAudit.Pattern

open ArticleAudit.Text

variable {p : Program} {cs : List Char}

/-- The place is one of the text: the rest of the text stands there. -/
def Cut.On (cs : List Char) (place : Cut) : Prop :=
  ∃ read, cs = read ++ place.rest ∧ byteSize read = place.offset

/-- A match in a text from an offset on: it starts at or after the offset, on a boundary, and stops
at a place of the text that is not before its start. -/
structure Hit.Fits (cs : List Char) (lo : Nat) (hit : Hit) : Prop where
  from_le : lo ≤ hit.start
  start : Boundary cs hit.start
  start_le_stop : hit.start ≤ hit.stop.offset
  stop : hit.stop.On cs

namespace Cut

variable {place next : Cut}

theorem on_ofText (cs : List Char) : (ofText cs).On cs :=
  ⟨[], rfl, rfl⟩

theorem On.boundary (h : place.On cs) : Boundary cs place.offset := by
  obtain ⟨read, rfl, hsize⟩ := h
  exact ⟨read, place.rest, by simp, hsize⟩

/-- Past a character there is a place of the text again. -/
theorem On.cons {offset : Nat} {before : Option Char} {c : Char} {rest : List Char}
    (h : On cs ⟨offset, before, c :: rest⟩) : On cs ⟨offset + c.utf8Size, some c, rest⟩ := by
  obtain ⟨read, rfl, hsize⟩ := h
  refine ⟨read ++ [c], by simp, ?_⟩
  simp only [byteSize_append, byteSize_cons, byteSize_nil, Nat.add_zero]
  rw [hsize]

theorem On.advance (h : place.On cs) (hnext : place.advance = some next) :
    next.On cs ∧ place.offset ≤ next.offset := by
  obtain ⟨offset, before, rest⟩ := place
  cases rest with
  | nil => cases hnext
  | cons c rest =>
    obtain rfl := Option.some.inj hnext
    exact ⟨h.cons, Nat.le_add_right _ _⟩

end Cut

namespace Program

variable {P : Nat → Prop} {threads : List Thread}

/-- All threads started at offsets with a property. -/
def Started (P : Nat → Prop) (threads : List Thread) : Prop :=
  ∀ t ∈ threads, P t.start

theorem started_cons {t : Thread} : Started P (t :: threads) ↔ P t.start ∧ Started P threads :=
  List.forall_mem_cons

/-! ## One place -/

/-- Following steps that take no character keeps the starts of the threads. -/
theorem settle_started (p : Program) (before after : Option Char) (fuel : Nat)
    (seen : Array Bool) (h : Started P threads) :
    Started P (p.settle before after fuel threads seen).1 ∧
      ∀ start ∈ (p.settle before after fuel threads seen).2, P start := by
  fun_induction settle p before after fuel threads seen with
  | case1 => exact ⟨nofun, nofun⟩
  | case2 => exact ⟨nofun, nofun⟩
  | case3 fuel t rest seen hseen ih => exact ih (started_cons.mp h).2
  | case4 fuel t rest seen hseen seen' hstep ih => exact ih (started_cons.mp h).2
  | case5 fuel t rest seen hseen hstep =>
    -- The thread succeeds and ends those behind it.
    refine ⟨nofun, ?_⟩
    intro start hstart
    obtain rfl := Option.some.inj hstart
    exact (started_cons.mp h).1
  | case6 fuel t rest seen hseen seen' set next hstep waiting success hsettle ih =>
    obtain ⟨ht, hrest⟩ := started_cons.mp h
    obtain ⟨hwaiting, hsuccess⟩ := ih hrest
    rw [hsettle] at hwaiting hsuccess
    exact ⟨started_cons.mpr ⟨ht, hwaiting⟩, hsuccess⟩
  | case7 fuel t rest seen hseen seen' place next hstep hplace ih =>
    obtain ⟨ht, hrest⟩ := started_cons.mp h
    exact ih (started_cons.mpr ⟨ht, hrest⟩)
  | case8 fuel t rest seen hseen seen' place next hstep hplace ih =>
    exact ih (started_cons.mp h).2
  | case9 fuel t rest seen hseen seen' preferred other hstep ih =>
    obtain ⟨ht, hrest⟩ := started_cons.mp h
    exact ih (started_cons.mpr ⟨ht, started_cons.mpr ⟨ht, hrest⟩⟩)

/-- A thread that takes a character keeps its start. -/
theorem start_of_take? {c : Char} {t next : Thread} (h : p.take? c t = some next) :
    next.start = t.start := by
  unfold take? at h
  split at h
  · split at h
    · obtain rfl := Option.some.inj h
      rfl
    · cases h
  · cases h

theorem started_take? (h : Started P threads) (c : Char) :
    Started P (threads.filterMap (p.take? c)) := by
  intro next hnext
  obtain ⟨t, ht, htake⟩ := List.mem_filterMap.mp hnext
  rw [start_of_take? htake]
  exact h t ht

/-! ## A search -/

/-- The offset is a boundary of the text from `lo` up to `hi`. -/
def StartBetween (cs : List Char) (lo hi n : Nat) : Prop :=
  lo ≤ n ∧ n ≤ hi ∧ Boundary cs n

theorem Started.raise {lo hi hi' : Nat} (h : Started (StartBetween cs lo hi) threads)
    (hle : hi ≤ hi') : Started (StartBetween cs lo hi') threads := by
  intro t ht
  obtain ⟨hlo, hhi, hboundary⟩ := h t ht
  exact ⟨hlo, Nat.le_trans hhi hle, hboundary⟩

/-- At one place a thread may start, and the others go on: the ones that wait started by now, and a
match that is found here fits. -/
theorem place_fits {lo fuel offset : Nat} {before : Option Char} {rest : List Char}
    {best : Option Hit} {seen : Array Bool} {waiting : List Thread} {success : Option Nat}
    (hplace : Cut.On cs ⟨offset, before, rest⟩) (hlo : lo ≤ offset)
    (hthreads : Started (StartBetween cs lo offset) threads)
    (hbest : ∀ hit ∈ best, hit.Fits cs lo)
    (hsettle : p.settle before rest.head? fuel
      (if best.isNone then threads ++ [Thread.mk p.entry offset] else threads) seen =
        (waiting, success)) :
    Started (StartBetween cs lo offset) waiting ∧
      ∀ hit ∈ (match success with
        | some start => some (Hit.mk start ⟨offset, before, rest⟩)
        | none => best), hit.Fits cs lo := by
  have hentered : Started (StartBetween cs lo offset)
      (if best.isNone then threads ++ [Thread.mk p.entry offset] else threads) := by
    split
    · intro t ht
      rcases List.mem_append.mp ht with ht | ht
      · exact hthreads t ht
      · rw [List.mem_singleton.mp ht]
        exact ⟨hlo, Nat.le_refl offset, hplace.boundary⟩
    · exact hthreads
  obtain ⟨hwaiting, hsuccess⟩ := settle_started p before rest.head? fuel seen hentered
  rw [hsettle] at hwaiting hsuccess
  refine ⟨hwaiting, ?_⟩
  cases success with
  | none => exact hbest
  | some start =>
    intro hit hhit
    obtain rfl := Option.some.inj hhit
    obtain ⟨hfrom, hle, hboundary⟩ := hsuccess start rfl
    exact ⟨hfrom, hboundary, hle, hplace⟩

/-- A run of threads that started by now answers a match that fits, if the best one so far does. -/
theorem run_fits (p : Program) {lo offset : Nat} {before : Option Char} {best : Option Hit}
    {rest : List Char} (hplace : Cut.On cs ⟨offset, before, rest⟩) (hlo : lo ≤ offset)
    (hthreads : Started (StartBetween cs lo offset) threads)
    (hbest : ∀ hit ∈ best, hit.Fits cs lo) :
    ∀ hit ∈ p.run offset before threads best rest, hit.Fits cs lo := by
  -- The induction is on the rest of the text; what the threads and the best match so far satisfy is
  -- carried from one place to the next.
  fun_induction run p offset before threads best rest with
  | case1 offset before threads best entered fuel waiting success hsettle best' =>
    exact (place_fits hplace hlo hthreads hbest hsettle).2
  | case2 offset before threads best entered fuel waiting success c rest threads' hsettle best'
      hdone =>
    exact (place_fits hplace hlo hthreads hbest hsettle).2
  | case3 offset before threads best entered fuel waiting success c rest threads' hsettle best'
      hgoes ih =>
    -- The threads that wait take the character and stand at the next place.
    obtain ⟨hwaiting, hbest'⟩ := place_fits hplace hlo hthreads hbest hsettle
    have hnext : offset ≤ offset + c.utf8Size := Nat.le_add_right _ _
    exact ih hplace.cons (Nat.le_trans hlo hnext)
      (started_take? (hwaiting.raise hnext) c) hbest'

/-- A match that a search finds fits the text, from the place of the search on. -/
theorem search_fits {place : Cut} {hit : Hit} (hplace : place.On cs)
    (h : p.search place = some hit) : hit.Fits cs place.offset :=
  run_fits p hplace (Nat.le_refl _) (List.forall_mem_nil _) (by simp) hit h

/-! ## All matches -/

/-- The spans from an offset on that a text is searched for: cut out of the text, in order and
disjoint. -/
structure MatchesFit (cs : List Char) (lo : Nat) (spans : List Span) : Prop where
  inText : ∀ s ∈ spans, ∃ matched, slice? cs s = some matched
  from_le : ∀ s ∈ spans, lo ≤ s.start
  inOrder : spans.Pairwise fun a b => a.stop ≤ b.start

theorem matchesFit_nil (cs : List Char) (lo : Nat) : MatchesFit cs lo [] :=
  ⟨nofun, nofun, .nil⟩

theorem MatchesFit.weaken {lo lo' : Nat} {spans : List Span} (h : MatchesFit cs lo spans)
    (hle : lo' ≤ lo) : MatchesFit cs lo' spans :=
  ⟨h.inText, fun s hs => Nat.le_trans hle (h.from_le s hs), h.inOrder⟩

/-- A match, then the ones from its end on. -/
theorem MatchesFit.cons {lo : Nat} {hit : Hit} {spans : List Span} (hhit : hit.Fits cs lo)
    (h : MatchesFit cs hit.stop.offset spans) : MatchesFit cs lo (hit.span :: spans) := by
  refine ⟨?_, ?_, List.pairwise_cons.mpr ⟨h.from_le, h.inOrder⟩⟩
  · refine List.forall_mem_cons.mpr ⟨?_, h.inText⟩
    exact ⟨_, hhit.start.slice?_eq hhit.stop.boundary hhit.start_le_stop⟩
  · refine List.forall_mem_cons.mpr ⟨hhit.from_le, ?_⟩
    intro s hs
    exact Nat.le_trans (Nat.le_trans hhit.from_le hhit.start_le_stop) (h.from_le s hs)

theorem searchAll_fits (p : Program) (fuel : Nat) (adjacent : Bool) {place : Cut}
    (hplace : place.On cs) : MatchesFit cs place.offset (p.searchAll fuel adjacent place) := by
  fun_induction searchAll p fuel adjacent place with
  | case1 => exact matchesFit_nil cs _
  | case2 => exact matchesFit_nil cs _
  | case3 fuel adjacent place hit hsearch hempty next hnext ih =>
    -- An empty match right after another one does not count, and the search goes on behind it.
    obtain ⟨hon, hle⟩ := hplace.advance hnext
    exact (ih hon).weaken hle
  | case4 => exact matchesFit_nil cs _
  | case5 fuel adjacent place hit hsearch hproper ih =>
    have hhit := search_fits hplace hsearch
    exact .cons hhit (ih hhit.stop)

/-- The matches in a text are cut out of the text, in order and disjoint. -/
theorem findAll_fits (p : Program) (cs : List Char) : MatchesFit cs 0 (p.findAll cs) :=
  searchAll_fits p _ false (Cut.on_ofText cs)

theorem findsInText_finder (p : Program) : p.finder.FindsInText :=
  fun cs => (p.findAll_fits cs).inText

end Program

/-- All that the threaded engine compiles finds its matches in the text that is searched. -/
theorem Engine.findsInText_threaded : Engine.threaded.FindsInText := by
  intro ignoreCase text f hf
  obtain ⟨p, -, rfl⟩ := Option.map_eq_some_iff.mp hf
  exact p.findsInText_finder

end ArticleAudit.Pattern
