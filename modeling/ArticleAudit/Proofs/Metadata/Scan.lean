import ArticleAudit.Metadata.Scan
import ArticleAudit.Proofs.Metadata.Operations
import ArticleAudit.Proofs.Text.WrittenLines

/-!
# Metadata found by scanning

Scanning goes over the lines of a text once and never back. It takes the fields outside of fenced
code that stand before the first heading, and of several fields with one key the first one that has
a value (`Gives`). What is found in lines is found in the same order when more lines follow, and
nothing is added behind a heading (`scanLines_append`). `scan_first_fields` says both of a text.
-/

set_option autoImplicit false

namespace ArticleAudit.Metadata

open ArticleAudit.Text ArticleAudit.Markdown

variable {raw value inner : List Char} {before inside lines rest : List (List Char)}
  {l first last : List Char} {f : Fence} {opened : Option Fence} {i : Nat} {pair : String × String}

/-! ## Values in quotes -/

/-- A mark that may stand around a value. -/
def IsQuote (c : Char) : Prop :=
  c = '"' ∨ c = '\''

/-- What counts of a value: what stands between two equal quotes, or all of it. -/
inductive Unquotes : List Char → List Char → Prop
  | quoted {q : Char} (value : List Char) (hq : IsQuote q) : Unquotes (q :: value ++ [q]) value
  | plain {value : List Char} (h : ∀ q inner, IsQuote q → value ≠ q :: inner ++ [q]) :
    Unquotes value value

theorem inner?_eq_some_iff {q : Char} :
    unquote.inner? raw q = some inner ↔ raw = q :: inner ++ [q] := by
  unfold unquote.inner?
  constructor
  · intro h
    split at h
    · next first second rest =>
      rw [Option.ite_none_right_eq_some, Bool.and_eq_true, beq_iff_eq, beq_iff_eq] at h
      obtain ⟨⟨rfl, hlast⟩, hinner⟩ := h
      obtain ⟨front, hfront⟩ := List.getLast?_eq_some_iff.mp hlast
      rw [hfront, List.dropLast_concat] at hinner
      rw [hfront, Option.some.inj hinner, List.cons_append]
    · cases h
  · rintro rfl
    obtain ⟨second, rest, hrest⟩ := List.exists_cons_of_ne_nil (List.concat_ne_nil q inner)
    rw [List.cons_append, hrest]
    simp [← hrest]

theorem inner?_eq_none {q : Char} (hq : IsQuote q)
    (h : ∀ q inner, IsQuote q → raw ≠ q :: inner ++ [q]) : unquote.inner? raw q = none :=
  Option.eq_none_iff_forall_ne_some.mpr fun inner hinner =>
    h q inner hq (inner?_eq_some_iff.mp hinner)

theorem unquotes_unquote (raw : List Char) : Unquotes raw (unquote raw) := by
  unfold unquote
  cases hdouble : unquote.inner? raw '"' with
  | some inner =>
    rw [inner?_eq_some_iff.mp hdouble]
    exact .quoted inner (.inl rfl)
  | none =>
    cases hsingle : unquote.inner? raw '\'' with
    | some inner =>
      rw [inner?_eq_some_iff.mp hsingle]
      exact .quoted inner (.inr rfl)
    | none =>
      refine .plain fun q inner hq hraw => ?_
      have hinner := inner?_eq_some_iff.mpr hraw
      rcases hq with rfl | rfl
      · rw [hdouble] at hinner
        cases hinner
      · rw [hsingle] at hinner
        cases hinner

theorem Unquotes.unquote_eq (h : Unquotes raw value) : unquote raw = value := by
  unfold unquote
  cases h with
  | quoted value hq =>
    rcases hq with rfl | rfl
    · rw [inner?_eq_some_iff.mpr rfl]
      rfl
    · have hdouble : unquote.inner? ('\'' :: value ++ ['\'']) '"' = none := by
        refine Option.eq_none_iff_forall_ne_some.mpr fun inner hinner => ?_
        cases inner?_eq_some_iff.mp hinner
      rw [hdouble, inner?_eq_some_iff.mpr rfl]
      rfl
  | plain hall =>
    rw [inner?_eq_none (.inl rfl) hall, inner?_eq_none (.inr rfl) hall]
    rfl

/-! ## Lines outside of code -/

/-- Lines that close all the code that they open. -/
inductive Unfenced : List (List Char) → Prop
  | nil : Unfenced []
  | line {before : List (List Char)} {l : List Char} (h : Unfenced before)
    (hl : Fence.ofLine? l = none) : Unfenced (before ++ [l])
  | code {before inside : List (List Char)} {first last : List Char} {f : Fence}
    (h : Unfenced before) (hfirst : Fence.ofLine? first = some f)
    (hinside : ∀ l ∈ inside, f.isClosedBy (Fence.ofLine? l) = false)
    (hlast : f.isClosedBy (Fence.ofLine? last) = true) :
    Unfenced (before ++ first :: (inside ++ [last]))

/-- The line at a position stands outside of code, and opens none. -/
structure OutsideCode (lines : List (List Char)) (i : Nat) (l : List Char) : Prop where
  get : lines[i]? = some l
  unfenced : Unfenced (lines.take i)
  plain : Fence.ofLine? l = none

/-- The line at a position is a heading outside of code. -/
def HeadingAt (lines : List (List Char)) (i : Nat) : Prop :=
  ∃ l, OutsideCode lines i l ∧ (Heading.ofLine? true l).isSome = true

/-- The line at a position gives a key a value: it is a field outside of code, no line up to it is a
heading, and the value is not empty. -/
def Gives (lines : List (List Char)) (i : Nat) (key value : String) : Prop :=
  ∃ l field, OutsideCode lines i l ∧ (∀ j ≤ i, ¬ HeadingAt lines j) ∧
    Field.ofLine? l = some field ∧ key = String.ofList field.key ∧
    Unquotes (trim field.value) value.toList ∧ value ≠ ""

/-- The fence that is open after a line. -/
def fenceAfter (opened : Option Fence) (l : List Char) : Option Fence :=
  match opened with
  | some opening => if opening.isClosedBy (Fence.ofLine? l) then none else some opening
  | none => Fence.ofLine? l

/-- Lines that do not close a fence leave it open. -/
theorem foldl_fenceAfter_some (h : ∀ l ∈ lines, f.isClosedBy (Fence.ofLine? l) = false) :
    lines.foldl fenceAfter (some f) = some f := by
  induction lines with
  | nil => rfl
  | cons l lines ih =>
    obtain ⟨hl, hlines⟩ := List.forall_mem_cons.mp h
    rw [List.foldl_cons, fenceAfter, hl, if_neg (by decide), ih hlines]

/-- After lines no fence is open, or one that no line behind it closes. -/
theorem unfenced_or_open (lines : List (List Char)) :
    (Unfenced lines ∧ lines.foldl fenceAfter none = none) ∨
      ∃ before first inside f, lines = before ++ first :: inside ∧ Unfenced before ∧
        Fence.ofLine? first = some f ∧
        (∀ l ∈ inside, f.isClosedBy (Fence.ofLine? l) = false) ∧
        lines.foldl fenceAfter none = some f := by
  -- The last line decides, so the induction goes from the end.
  induction lines using List.reverseRecOn with
  | nil => exact .inl ⟨.nil, rfl⟩
  | append_singleton lines l ih =>
    rw [List.foldl_append, List.foldl_cons, List.foldl_nil]
    rcases ih with
      ⟨hlines, hopen⟩ | ⟨before, first, inside, f, rfl, hbefore, hfirst, hinside, hopen⟩
    · rw [hopen, fenceAfter]
      cases hl : Fence.ofLine? l with
      | none => exact .inl ⟨hlines.line hl, rfl⟩
      | some f => exact .inr ⟨lines, l, [], f, rfl, hlines, hl, nofun, rfl⟩
    · rw [hopen, fenceAfter]
      cases hl : f.isClosedBy (Fence.ofLine? l) with
      | true =>
        refine .inl ⟨?_, rfl⟩
        rw [List.append_assoc, List.cons_append]
        exact hbefore.code hfirst hinside hl
      | false =>
        refine .inr ⟨before, first, inside ++ [l], f, by simp, hbefore, hfirst, ?_, rfl⟩
        simpa [or_imp, forall_and] using ⟨hinside, hl⟩

theorem Unfenced.foldl_eq_none (h : Unfenced lines) : lines.foldl fenceAfter none = none := by
  induction h with
  | nil => rfl
  | line _ hl ih => rw [List.foldl_append, ih, List.foldl_cons, List.foldl_nil, fenceAfter, hl]
  | code _ hfirst hinside hlast ih =>
    rw [List.foldl_append, ih, List.foldl_cons, fenceAfter, hfirst, List.foldl_append,
      foldl_fenceAfter_some hinside, List.foldl_cons, List.foldl_nil, fenceAfter, hlast, if_pos rfl]

/-- Lines close all the code that they open exactly when no fence is open after them. -/
theorem unfenced_iff : Unfenced lines ↔ lines.foldl fenceAfter none = none := by
  refine ⟨Unfenced.foldl_eq_none, fun hnone => ?_⟩
  rcases unfenced_or_open lines with ⟨h, -⟩ | ⟨_, _, _, _, _, _, _, _, hsome⟩
  · exact h
  · rw [hnone] at hsome
    cases hsome

/-! ## What lines offer -/

/-- The line at a position is no part of code and opens none, if a given fence is open before the
first line. -/
structure Outside (opened : Option Fence) (lines : List (List Char)) (i : Nat) (l : List Char) :
    Prop where
  get : lines[i]? = some l
  closed : (lines.take i).foldl fenceAfter opened = none
  plain : Fence.ofLine? l = none

theorem outside_none_iff : Outside none lines i l ↔ OutsideCode lines i l :=
  ⟨fun h => ⟨h.get, unfenced_iff.mpr h.closed, h.plain⟩,
    fun h => ⟨h.get, unfenced_iff.mp h.unfenced, h.plain⟩⟩

theorem outside_zero_iff {u : List Char} :
    Outside opened (l :: rest) 0 u ↔ u = l ∧ opened = none ∧ Fence.ofLine? l = none := by
  constructor
  · rintro ⟨hget, hclosed, hplain⟩
    obtain rfl := Option.some.inj hget
    exact ⟨rfl, hclosed, hplain⟩
  · rintro ⟨rfl, hclosed, hplain⟩
    exact ⟨rfl, hclosed, hplain⟩

theorem outside_succ_iff {u : List Char} :
    Outside opened (l :: rest) (i + 1) u ↔ Outside (fenceAfter opened l) rest i u :=
  ⟨fun h => ⟨h.get, h.closed, h.plain⟩, fun h => ⟨h.get, h.closed, h.plain⟩⟩

/-- The line at a position is a heading outside of code. -/
def HeadingIn (opened : Option Fence) (lines : List (List Char)) (i : Nat) : Prop :=
  ∃ l, Outside opened lines i l ∧ (Heading.ofLine? true l).isSome = true

theorem headingIn_zero_iff : HeadingIn opened (l :: rest) 0 ↔
    (opened = none ∧ Fence.ofLine? l = none) ∧ (Heading.ofLine? true l).isSome = true := by
  simp [HeadingIn, outside_zero_iff, and_assoc]

theorem headingIn_succ_iff :
    HeadingIn opened (l :: rest) (i + 1) ↔ HeadingIn (fenceAfter opened l) rest i := by
  simp [HeadingIn, outside_succ_iff]

/-- The line at a position has a field that scanning takes: it is outside of code, and no line up to
it is a heading. -/
def Offers (opened : Option Fence) (lines : List (List Char)) (i : Nat) (pair : String × String) :
    Prop :=
  (∀ j ≤ i, ¬ HeadingIn opened lines j) ∧ ∃ l, Outside opened lines i l ∧ fieldOf? l = some pair

theorem offers_zero_iff : Offers opened (l :: rest) 0 pair ↔
    (opened = none ∧ Fence.ofLine? l = none) ∧ ¬ (Heading.ofLine? true l).isSome = true ∧
      fieldOf? l = some pair := by
  constructor
  · rintro ⟨hnone, u, hu, hfield⟩
    obtain ⟨rfl, hout⟩ := outside_zero_iff.mp hu
    exact ⟨hout, fun hheading => hnone 0 le_rfl (headingIn_zero_iff.mpr ⟨hout, hheading⟩), hfield⟩
  · rintro ⟨hout, hheading, hfield⟩
    refine ⟨fun j hj hj' => ?_, l, outside_zero_iff.mpr ⟨rfl, hout⟩, hfield⟩
    rw [Nat.le_zero.mp hj] at hj'
    exact hheading (headingIn_zero_iff.mp hj').2

theorem offers_succ_iff : Offers opened (l :: rest) (i + 1) pair ↔
    ¬ HeadingIn opened (l :: rest) 0 ∧ Offers (fenceAfter opened l) rest i pair := by
  constructor
  · rintro ⟨hnone, u, hu, hfield⟩
    refine ⟨hnone 0 (Nat.zero_le _), fun j hj hj' => ?_, u, outside_succ_iff.mp hu, hfield⟩
    exact hnone (j + 1) (Nat.succ_le_succ hj) (headingIn_succ_iff.mpr hj')
  · rintro ⟨hzero, hnone, u, hu, hfield⟩
    refine ⟨fun j hj hj' => ?_, u, outside_succ_iff.mpr hu, hfield⟩
    cases j with
    | zero => exact hzero hj'
    | succ j => exact hnone j (Nat.le_of_succ_le_succ hj) (headingIn_succ_iff.mp hj')

/-- A line that belongs to code or opens it is passed over. -/
theorem scanLines_cons (opened : Option Fence) (l : List Char) (rest : List (List Char)) :
    scanLines opened (l :: rest) =
      if opened = none ∧ Fence.ofLine? l = none then
        if (Heading.ofLine? true l).isSome then []
        else (fieldOf? l).toList ++ scanLines (fenceAfter opened l) rest
      else scanLines (fenceAfter opened l) rest := by
  cases opened with
  | some opening => rfl
  | none =>
    rw [scanLines, fenceAfter]
    cases hl : Fence.ofLine? l with
    | some f => rfl
    | none => rfl

/-! ## Fields with the positions of their lines -/

/-- The same fields when a further line stands before the first one. -/
def later (found : List (Nat × String × String)) : List (Nat × String × String) :=
  found.map fun x => (x.1 + 1, x.2)

theorem map_snd_later (found : List (Nat × String × String)) :
    (later found).map Prod.snd = found.map Prod.snd := by
  rw [later, List.map_map]
  rfl

theorem succ_mem_later_iff {found : List (Nat × String × String)} :
    (i + 1, pair) ∈ later found ↔ (i, pair) ∈ found := by
  constructor
  · intro h
    obtain ⟨x, hx, heq⟩ := List.mem_map.mp h
    cases heq
    exact hx
  · exact fun h => List.mem_map.mpr ⟨(i, pair), h, rfl⟩

theorem pos_of_mem_later {found : List (Nat × String × String)} {x : Nat × String × String}
    (hx : x ∈ later found) : 0 < x.1 := by
  obtain ⟨y, -, rfl⟩ := List.mem_map.mp hx
  exact Nat.succ_pos y.1

theorem pairwise_later {found : List (Nat × String × String)}
    (h : found.Pairwise fun x y => x.1 < y.1) : (later found).Pairwise fun x y => x.1 < y.1 :=
  List.pairwise_map.mpr (h.imp Nat.succ_lt_succ)

/-- These are the fields that scanning takes from lines, in order, each with the position of its
line. -/
structure Takes (opened : Option Fence) (lines : List (List Char))
    (found : List (Nat × String × String)) : Prop where
  sorted : found.Pairwise fun x y => x.1 < y.1
  scan : scanLines opened lines = found.map Prod.snd
  mem_iff : ∀ i pair, (i, pair) ∈ found ↔ Offers opened lines i pair

namespace Takes

variable {found : List (Nat × String × String)}

theorem nil (opened : Option Fence) : Takes opened [] [] where
  sorted := .nil
  scan := by
    cases opened <;> rfl
  mem_iff := by
    refine fun i pair => iff_of_false List.not_mem_nil ?_
    rintro ⟨-, l, hl, -⟩
    cases hl.get

/-- Nothing is taken behind a heading. -/
theorem heading (hout : opened = none ∧ Fence.ofLine? l = none)
    (hheading : (Heading.ofLine? true l).isSome = true) : Takes opened (l :: rest) [] where
  sorted := .nil
  scan := by rw [scanLines_cons, if_pos hout, if_pos hheading, List.map_nil]
  mem_iff := by
    refine fun i pair => iff_of_false List.not_mem_nil fun h => ?_
    exact h.1 0 (Nat.zero_le i) (headingIn_zero_iff.mpr ⟨hout, hheading⟩)

/-- Nothing is taken from a line of code. -/
theorem code (h : Takes (fenceAfter opened l) rest found)
    (hcode : ¬ (opened = none ∧ Fence.ofLine? l = none)) :
    Takes opened (l :: rest) (later found) where
  sorted := pairwise_later h.sorted
  scan := by rw [scanLines_cons, if_neg hcode, h.scan, map_snd_later]
  mem_iff := by
    intro i pair
    cases i with
    | zero =>
      refine iff_of_false (fun hmem => Nat.lt_irrefl 0 (pos_of_mem_later hmem)) fun hoffer => ?_
      exact hcode (offers_zero_iff.mp hoffer).1
    | succ i =>
      have hzero : ¬ HeadingIn opened (l :: rest) 0 := fun hzero =>
        hcode (headingIn_zero_iff.mp hzero).1
      rw [succ_mem_later_iff, h.mem_iff, offers_succ_iff, and_iff_right hzero]

/-- The field of a line outside of code comes before those of the lines behind it. -/
theorem line (h : Takes (fenceAfter opened l) rest found)
    (hout : opened = none ∧ Fence.ofLine? l = none)
    (hheading : ¬ (Heading.ofLine? true l).isSome = true) :
    Takes opened (l :: rest) ((fieldOf? l).toList.map (fun pair => (0, pair)) ++ later found) where
  sorted := by
    refine List.pairwise_append.mpr ⟨?_, pairwise_later h.sorted, fun x hx y hy => ?_⟩
    · cases fieldOf? l with
      | none => exact .nil
      | some pair => exact List.pairwise_singleton _ _
    · obtain ⟨pair, -, rfl⟩ := List.mem_map.mp hx
      exact pos_of_mem_later hy
  scan := by
    rw [scanLines_cons, if_pos hout, if_neg hheading, h.scan, List.map_append, map_snd_later,
      List.map_map]
    exact congrArg (· ++ _) (List.map_id _).symm
  mem_iff := by
    intro i pair
    rw [List.mem_append]
    cases i with
    | zero =>
      have hlater : ¬ (0, pair) ∈ later found := fun hmem => Nat.lt_irrefl 0 (pos_of_mem_later hmem)
      rw [or_iff_left hlater, offers_zero_iff, and_iff_right hout, and_iff_right hheading]
      simp
    | succ i =>
      have hzero : ¬ HeadingIn opened (l :: rest) 0 := fun hzero =>
        hheading (headingIn_zero_iff.mp hzero).2
      rw [succ_mem_later_iff, h.mem_iff, offers_succ_iff, and_iff_right hzero]
      simp

end Takes

theorem exists_takes (opened : Option Fence) (lines : List (List Char)) :
    ∃ found, Takes opened lines found := by
  -- The fence that is open before the first line is another one for the rest.
  induction lines generalizing opened with
  | nil => exact ⟨[], .nil opened⟩
  | cons l rest ih =>
    obtain ⟨found, hfound⟩ := ih (fenceAfter opened l)
    by_cases hout : opened = none ∧ Fence.ofLine? l = none
    · by_cases hheading : (Heading.ofLine? true l).isSome = true
      · exact ⟨[], .heading hout hheading⟩
      · exact ⟨_, hfound.line hout hheading⟩
    · exact ⟨_, hfound.code hout⟩

/-! ## More lines -/

/-- More lines add fields behind those that were found, and none behind a heading. -/
theorem scanLines_append (opened : Option Fence) (lines rest : List (List Char)) :
    ∃ more, scanLines opened (lines ++ rest) = scanLines opened lines ++ more ∧
      ((∃ i, HeadingIn opened lines i) → more = []) := by
  induction lines generalizing opened with
  | nil =>
    refine ⟨scanLines opened rest, ?_, ?_⟩
    · cases opened <;> rfl
    · rintro ⟨i, l, hl, -⟩
      cases hl.get
  | cons l lines ih =>
    obtain ⟨more, hmore, hnone⟩ := ih (fenceAfter opened l)
    rw [List.cons_append, scanLines_cons, scanLines_cons, hmore]
    by_cases hout : opened = none ∧ Fence.ofLine? l = none
    · by_cases hheading : (Heading.ofLine? true l).isSome = true
      · rw [if_pos hout, if_pos hheading, if_pos hout, if_pos hheading]
        exact ⟨[], rfl, fun _ => rfl⟩
      · rw [if_pos hout, if_neg hheading, if_pos hout, if_neg hheading]
        refine ⟨more, (List.append_assoc _ _ _).symm, ?_⟩
        rintro ⟨i, hi⟩
        cases i with
        | zero => exact absurd (headingIn_zero_iff.mp hi).2 hheading
        | succ i => exact hnone ⟨i, headingIn_succ_iff.mp hi⟩
    · rw [if_neg hout, if_neg hout]
      refine ⟨more, rfl, ?_⟩
      rintro ⟨i, hi⟩
      cases i with
      | zero => exact absurd (headingIn_zero_iff.mp hi).1 hout
      | succ i => exact hnone ⟨i, headingIn_succ_iff.mp hi⟩

/-! ## The first value of every key -/

/-- Metadata of pairs of which the first one of a key counts. -/
def firstOf (pairs : List (String × String)) : Metadata :=
  pairs.foldl (fun m (key, value) => m.insertIfAbsent key value) empty

theorem records_firstOf (pairs : List (String × String)) :
    (firstOf pairs).Records (normalKeys pairs) :=
  Records.empty.foldl (fun m pair => keys_insertIfAbsent m pair.1 pair.2) pairs

theorem firstOf_concat (pairs : List (String × String)) (pair : String × String) :
    firstOf (pairs ++ [pair]) = (firstOf pairs).insertIfAbsent pair.1 pair.2 := by
  rw [firstOf, List.foldl_append]
  rfl

/-- Filling in a value leaves the entries that are there. -/
theorem entries_isPrefix_insertIfAbsent (m : Metadata) (key value : String) :
    m.entries <+: (m.insertIfAbsent key value).entries := by
  by_cases hkey : normalizeKey key ∈ m.keys
  · exact ⟨[], by rw [insertIfAbsent_of_mem hkey, List.append_nil]⟩
  · rw [insertIfAbsent_of_not_mem hkey, entries_insert_of_not_mem hkey]
    exact List.prefix_append _ _

theorem entries_firstOf_isPrefix (pairs more : List (String × String)) :
    (firstOf pairs).entries <+: (firstOf (pairs ++ more)).entries := by
  induction more using List.reverseRecOn with
  | nil => exact ⟨[], by rw [List.append_nil, List.append_nil]⟩
  | append_singleton more pair ih =>
    rw [← List.append_assoc, firstOf_concat]
    exact ih.trans (entries_isPrefix_insertIfAbsent _ _ _)

section Firsts

variable {found firsts : List (Nat × String × String)} {x final : Nat × String × String}

/-- No field at a lower position has the same key. -/
def IsFirst (found : List (Nat × String × String)) (x : Nat × String × String) : Prop :=
  ∀ y ∈ found, y.1 < x.1 → normalizeKey y.2.1 ≠ normalizeKey x.2.1

/-- Of fields with positions the first one of each key becomes an entry. -/
structure Firsts (found firsts : List (Nat × String × String)) : Prop where
  sublist : firsts.Sublist found
  entries : (firstOf (found.map Prod.snd)).entries =
    firsts.map fun x => (normalizeKey x.2.1, x.2.2)
  mem_iff : ∀ x ∈ found, x ∈ firsts ↔ IsFirst found x

theorem Firsts.mem_iff_and (h : Firsts found firsts) : x ∈ firsts ↔ x ∈ found ∧ IsFirst found x :=
  ⟨fun hx => ⟨h.sublist.subset hx, (h.mem_iff x (h.sublist.subset hx)).mp hx⟩,
    fun ⟨hx, hfirst⟩ => (h.mem_iff x hx).mpr hfirst⟩

theorem mem_keys_firstOf_iff {k : String} :
    k ∈ (firstOf (found.map Prod.snd)).keys ↔ ∃ y ∈ found, normalizeKey y.2.1 = k := by
  rw [records_firstOf, List.mem_eraseDups, normalKeys, List.map_map, List.mem_map]
  rfl

theorem isFirst_concat_iff (hx : x.1 < final.1) :
    IsFirst (found ++ [final]) x ↔ IsFirst found x := by
  have hnot : ¬ final.1 < x.1 := Nat.not_lt.mpr (Nat.le_of_lt hx)
  simp [IsFirst, or_imp, forall_and, hnot]

/-- The last field is the first one of its key when the key is new. -/
theorem isFirst_final_iff (hfinal : ∀ x ∈ found, x.1 < final.1) :
    IsFirst (found ++ [final]) final ↔
      normalizeKey final.2.1 ∉ (firstOf (found.map Prod.snd)).keys := by
  rw [mem_keys_firstOf_iff]
  constructor
  · rintro h ⟨y, hy, hkey⟩
    exact h y (List.mem_append_left _ hy) (hfinal y hy) hkey
  · intro h y hy hlt hkey
    rcases List.mem_append.mp hy with hy | hy
    · exact h ⟨y, hy, hkey⟩
    · rw [List.mem_singleton.mp hy] at hlt
      exact Nat.lt_irrefl _ hlt

theorem Firsts.concat (h : Firsts found firsts) (hfinal : ∀ x ∈ found, x.1 < final.1) :
    ∃ firsts, Firsts (found ++ [final]) firsts := by
  have hself : final ∉ found := fun hmem => Nat.lt_irrefl _ (hfinal final hmem)
  have hpairs : firstOf ((found ++ [final]).map Prod.snd) =
      (firstOf (found.map Prod.snd)).insertIfAbsent final.2.1 final.2.2 := by
    rw [List.map_append]
    exact firstOf_concat _ _
  by_cases hkey : normalizeKey final.2.1 ∈ (firstOf (found.map Prod.snd)).keys
  · -- The key has a value already.
    refine ⟨firsts, h.sublist.trans (List.sublist_append_left _ _), ?_, fun x hx => ?_⟩
    · rw [hpairs, insertIfAbsent_of_mem hkey, h.entries]
    · rcases List.mem_append.mp hx with hx | hx
      · rw [h.mem_iff x hx, isFirst_concat_iff (hfinal x hx)]
      · obtain rfl := List.mem_singleton.mp hx
        refine iff_of_false (fun hmem => hself (h.sublist.subset hmem)) fun hfirst => ?_
        exact (isFirst_final_iff hfinal).mp hfirst hkey
  · refine ⟨firsts ++ [final], h.sublist.append_right _, ?_, fun x hx => ?_⟩
    · rw [hpairs, insertIfAbsent_of_not_mem hkey, entries_insert_of_not_mem hkey, h.entries,
        List.map_append, List.map_singleton]
    · rcases List.mem_append.mp hx with hx | hx
      · have hne : x ≠ final := fun heq => hself (heq ▸ hx)
        rw [isFirst_concat_iff (hfinal x hx), ← h.mem_iff x hx]
        simp [hne]
      · obtain rfl := List.mem_singleton.mp hx
        exact iff_of_true (by simp) ((isFirst_final_iff hfinal).mpr hkey)

theorem exists_firsts (hsorted : found.Pairwise fun x y => x.1 < y.1) :
    ∃ firsts, Firsts found firsts := by
  induction found using List.reverseRecOn with
  | nil => exact ⟨[], .slnil, rfl, nofun⟩
  | append_singleton found final ih =>
    obtain ⟨hfound, -, hfinal⟩ := List.pairwise_append.mp hsorted
    obtain ⟨firsts, hfirsts⟩ := ih hfound
    exact hfirsts.concat fun x hx => hfinal x hx final (List.mem_singleton_self final)

end Firsts

/-! ## The scan of a text -/

/-- The lines that are scanned: those of the text without a byte order mark, without their
terminators. -/
def scannedLines (source : List Char) : List (List Char) :=
  (splitLines (dropByteOrderMark source)).map dropTerminator

theorem scan_eq (source : List Char) :
    scan source = firstOf (scanLines none (scannedLines source)) :=
  rfl

theorem headingIn_none_iff : HeadingIn none lines i ↔ HeadingAt lines i := by
  simp only [HeadingIn, HeadingAt, outside_none_iff]

theorem fieldOf?_eq_some_iff {key value : String} : fieldOf? l = some (key, value) ↔
    ∃ field, Field.ofLine? l = some field ∧ key = String.ofList field.key ∧
      Unquotes (trim field.value) value.toList ∧ value ≠ "" := by
  unfold fieldOf?
  rw [Option.bind_eq_some_iff]
  refine exists_congr fun field => and_congr_right fun _ => ?_
  simp only [Option.ite_none_left_eq_some, Option.some.injEq, Prod.mk.injEq, List.isEmpty_iff]
  constructor
  · rintro ⟨hne, rfl, rfl⟩
    refine ⟨rfl, ?_, fun hempty => hne ?_⟩
    · rw [String.toList_ofList]
      exact unquotes_unquote _
    · exact String.ofList_eq_empty_iff.mp hempty
  · rintro ⟨rfl, hvalue, hne⟩
    rw [hvalue.unquote_eq]
    refine ⟨fun hnil => hne ?_, rfl, String.ofList_toList⟩
    exact String.toList_eq_nil_iff.mp hnil

theorem gives_iff {key value : String} :
    Gives lines i key value ↔ Offers none lines i (key, value) := by
  simp only [Gives, Offers, headingIn_none_iff, outside_none_iff, fieldOf?_eq_some_iff]
  constructor
  · rintro ⟨l, field, hl, hnone, hfield⟩
    exact ⟨hnone, l, hl, field, hfield⟩
  · rintro ⟨hnone, l, hl, field, hfield⟩
    exact ⟨l, field, hl, hnone, hfield⟩

/-- The lines of a text that is not empty and ends with a line are scanned before those behind
it. -/
theorem scannedLines_append {c : Char} {a : List Char} (ha : ∀ d ∈ (c :: a).getLast?, d = '\n')
    (b : List Char) :
    scannedLines (c :: a ++ b) = scannedLines (c :: a) ++ (splitLines b).map dropTerminator := by
  -- A byte order mark of the second text is none in both: the first text has a character before it.
  unfold scannedLines dropByteOrderMark
  rw [List.cons_append, ← List.map_append]
  by_cases hc : (c == byteOrderMark) = true
  · simp only [if_pos hc]
    have hrest : ∀ d ∈ a.getLast?, d = '\n' := by
      intro d hd
      refine ha d ?_
      rw [List.getLast?_cons, Option.mem_def.mp hd]
      rfl
    rw [splitLines_append hrest]
  · simp only [if_neg hc]
    rw [← List.cons_append, splitLines_append ha]

/-- The scan of a text never looks back: what is found in a text that is cut where a line ends comes
first, and is all if there is a heading. The entries are the values that the lines give to keys, in
the order of the lines, without those that an earlier line gives to the same key. -/
theorem scan_first_fields (source : List Char) :
    (∀ a b, source = a ++ b → (∀ c ∈ a.getLast?, c = '\n') →
      (scan a).entries <+: (scan source).entries ∧
        ((∃ i, HeadingAt (scannedLines a) i) → (scan a).entries = (scan source).entries)) ∧
    ∃ found : List (Nat × String × String), found.Pairwise (fun x y => x.1 < y.1) ∧
      (scan source).entries = found.map (fun x => (normalizeKey x.2.1, x.2.2)) ∧
      ∀ i key value, (i, key, value) ∈ found ↔
        Gives (scannedLines source) i key value ∧
          ∀ j < i, ∀ otherKey otherValue, Gives (scannedLines source) j otherKey otherValue →
            normalizeKey otherKey ≠ normalizeKey key := by
  constructor
  · rintro a b rfl ha
    -- Nothing is before the cut, or its first character decides on a byte order mark for both.
    cases a with
    | nil =>
      refine ⟨List.nil_prefix, ?_⟩
      rintro ⟨i, l, hl, -⟩
      cases hl.get
    | cons c a =>
      obtain ⟨more, hmore, hnone⟩ := scanLines_append none (scannedLines (c :: a))
        ((splitLines b).map dropTerminator)
      rw [← scannedLines_append ha] at hmore
      rw [scan_eq, scan_eq, hmore]
      refine ⟨entries_firstOf_isPrefix _ _, ?_⟩
      rintro ⟨i, hi⟩
      rw [hnone ⟨i, headingIn_none_iff.mpr hi⟩, List.append_nil]
  · -- First all fields with a value, whatever their keys, then the first of each key.
    obtain ⟨found, hfound⟩ := exists_takes none (scannedLines source)
    obtain ⟨firsts, hfirsts⟩ := exists_firsts hfound.sorted
    refine ⟨firsts, hfound.sorted.sublist hfirsts.sublist, ?_, fun i key value => ?_⟩
    · rw [scan_eq, hfound.scan, hfirsts.entries]
    · have hmem : ∀ j otherKey otherValue, (j, otherKey, otherValue) ∈ found ↔
          Gives (scannedLines source) j otherKey otherValue := fun j otherKey otherValue => by
        rw [gives_iff, hfound.mem_iff]
      rw [hfirsts.mem_iff_and, hmem]
      refine and_congr_right fun _ => ?_
      simp only [IsFirst, Prod.forall, hmem]
      exact forall_congr' fun j =>
        ⟨fun h hj k v hgives => h k v hgives hj, fun h k v hgives hj => h hj k v hgives⟩

/-- A cut behind a heading, which hides another spelling of a key and a further field. -/
theorem scan_first_fields_heading :
    HeadingAt (scannedLines "ms.date: 'May'\n# T\n".toList) 1 ∧
      (scan "ms.date: 'May'\n# T\n".toList).entries =
        (scan ("ms.date: 'May'\n# T\n".toList ++ "MS_Date: Jun\nauthor: me\n".toList)).entries := by
  have hheading : HeadingAt (scannedLines "ms.date: 'May'\n# T\n".toList) 1 :=
    ⟨"# T".toList, ⟨by decide, unfenced_iff.mpr (by decide), by decide⟩, by decide⟩
  have hlast : "ms.date: 'May'\n# T\n".toList.getLast? = some '\n' := by decide
  have hended : ∀ c ∈ "ms.date: 'May'\n# T\n".toList.getLast?, c = '\n' := by
    rw [hlast]
    exact fun c hc => (Option.some.inj hc).symm
  have hcut := (scan_first_fields _).1 "ms.date: 'May'\n# T\n".toList
    "MS_Date: Jun\nauthor: me\n".toList rfl hended
  exact ⟨hheading, hcut.2 ⟨1, hheading⟩⟩

end ArticleAudit.Metadata
