import ArticleAudit.Metadata.SiteDefaults
import ArticleAudit.Proofs.Json.Reordering
import Mathlib.Data.List.Basic

/-!
# The text of an array

The text of an array in a site's configuration joins the texts of its items, and an item that is an
array itself is joined before. So the text is that of all its parts at every depth
(`siteText?_eq_joined?`): the scalars, and a blank for each array that has no parts. A blank that
stands beside other parts leaves a comma that the scalars alone would not have
(`intercalate_parts_eq_iff`).
-/

set_option autoImplicit false

namespace ArticleAudit.Metadata

open ArticleAudit.Json

/-! ## Parts of a value -/

/-- The texts of the scalars of a value, at every depth of its arrays. -/
def scalars : Tree → List String
  | .array items => scalarsAll items
  | t => (siteText? t).toList
where
  scalarsAll : List Tree → List String
    | [] => []
    | item :: rest => scalars item ++ scalarsAll rest

/-- A blank where there are no texts. -/
def orBlank : List String → List String
  | [] => [""]
  | text :: rest => text :: rest

/-- The texts of the scalars of a value, and a blank for each array that has no parts. -/
def parts : Tree → List String
  | .array items => orBlank (partsAll items)
  | t => (siteText? t).toList
where
  partsAll : List Tree → List String
    | [] => []
    | item :: rest => parts item ++ partsAll rest

/-- What holds of values that are no arrays, and of an array when it holds of its items, holds of
every value. -/
theorem array_induction {motive : Tree → Prop}
    (other : ∀ t, (∀ items, t ≠ .array items) → motive t)
    (array : ∀ items, (∀ t ∈ items, motive t) → motive (.array items)) (t : Tree) : motive t := by
  apply siteText?.induct (fun items => ∀ t ∈ items, motive t) motive
  case case1 => exact other _ nofun
  case case2 => exact fun members => other _ nofun
  case case3 => exact fun b => other _ nofun
  case case4 => exact fun number => other _ nofun
  case case5 => exact fun s => other _ nofun
  case case6 => exact array
  case case7 => exact nofun
  case case8 =>
    intro item rest hitem hrest
    exact List.forall_mem_cons.mpr ⟨hitem, hrest⟩

section Equations

variable (items : List Tree)

theorem siteTexts_eq : siteText?.siteTexts items = items.filterMap siteText? := by
  induction items with
  | nil => rfl
  | cons item rest ih =>
    rw [siteText?.siteTexts, ih]
    cases h : siteText? item <;> simp [h]

theorem siteText?_array :
    siteText? (.array items) = some (", ".intercalate (items.filterMap siteText?)) := by
  rw [siteText?, siteTexts_eq]

theorem scalars_array : scalars (.array items) = items.flatMap scalars := by
  rw [scalars]
  induction items with
  | nil => rfl
  | cons item rest ih => rw [scalars.scalarsAll, ih, List.flatMap_cons]

theorem parts_array : parts (.array items) = orBlank (items.flatMap parts) := by
  rw [parts]
  congr 1
  induction items with
  | nil => rfl
  | cons item rest ih => rw [parts.partsAll, ih, List.flatMap_cons]

theorem scalars_of_not_array {t : Tree} (h : ∀ items, t ≠ .array items) :
    scalars t = (siteText? t).toList := by
  cases t with
  | array items => exact absurd rfl (h items)
  | _ => rfl

theorem parts_of_not_array {t : Tree} (h : ∀ items, t ≠ .array items) :
    parts t = (siteText? t).toList := by
  cases t with
  | array items => exact absurd rfl (h items)
  | _ => rfl

end Equations

/-! ## The text is that of the parts -/

/-- Texts with commas between them; no text where there are none. -/
def joined? (texts : List String) : Option String :=
  if texts = [] then none else some (", ".intercalate texts)

theorem joined?_orBlank (texts : List String) :
    joined? (orBlank texts) = some (", ".intercalate texts) := by
  cases texts with
  | nil => rfl
  | cons text rest => rw [orBlank, joined?, if_neg (List.cons_ne_nil _ _)]

/-- Texts that are joined from texts can be joined as these. -/
theorem intercalate_filterMap_joined? {α : Type} (f : α → List String) (items : List α) :
    ", ".intercalate (items.filterMap fun item => joined? (f item)) =
      ", ".intercalate (items.flatMap f) := by
  induction items with
  | nil => rfl
  | cons item rest ih =>
    rw [List.flatMap_cons]
    by_cases hitem : f item = []
    · have hnone : joined? (f item) = none := by rw [joined?, if_pos hitem]
      rw [List.filterMap_cons, hnone, hitem, List.nil_append]
      exact ih
    · have hsome : joined? (f item) = some (", ".intercalate (f item)) := by
        rw [joined?, if_neg hitem]
      rw [List.filterMap_cons, hsome]
      dsimp only
      by_cases hrest : rest.flatMap f = []
      · have hnone : (rest.filterMap fun item => joined? (f item)) = [] := by
          rw [List.filterMap_eq_nil_iff]
          intro later hlater
          rw [joined?, if_pos (List.flatMap_eq_nil_iff.mp hrest later hlater)]
        rw [hnone, hrest, List.append_nil, String.intercalate_singleton]
      · have hmore : (rest.filterMap fun item => joined? (f item)) ≠ [] := by
          intro hnil
          apply hrest
          rw [List.flatMap_eq_nil_iff]
          intro later hlater
          by_contra hne
          have := List.filterMap_eq_nil_iff.mp hnil later hlater
          rw [joined?, if_neg hne] at this
          cases this
        rw [String.intercalate_append_of_ne_nil hitem hrest, ← ih, ← List.singleton_append,
          String.intercalate_append_of_ne_nil (List.cons_ne_nil _ _) hmore,
          String.intercalate_singleton]

/-- The text of a value joins its parts. -/
theorem siteText?_eq_joined? (t : Tree) : siteText? t = joined? (parts t) := by
  induction t using array_induction with
  | other t ht =>
    rw [parts_of_not_array ht]
    cases siteText? t with
    | none => rfl
    | some s => rfl
  | array items ih =>
    rw [siteText?_array, parts_array, joined?_orBlank, List.filterMap_congr ih,
      intercalate_filterMap_joined?]

/-- The text of an array joins its parts. -/
theorem siteText?_array_eq_parts (items : List Tree) :
    siteText? (.array items) = some (", ".intercalate (parts (.array items))) := by
  rw [siteText?_eq_joined?, joined?, if_neg]
  rw [parts_array]
  cases items.flatMap parts <;> exact List.cons_ne_nil _ _

/-! ## Where blanks make a difference -/

theorem scalars_sublist_parts (t : Tree) : (scalars t).Sublist (parts t) := by
  induction t using array_induction with
  | other t ht => rw [scalars_of_not_array ht, parts_of_not_array ht]
  | array items ih =>
    rw [scalars_array, parts_array]
    have hitems : (items.flatMap scalars).Sublist (items.flatMap parts) := by
      induction items with
      | nil => exact List.Sublist.refl _
      | cons item rest ihrest =>
        obtain ⟨hitem, hrest⟩ := List.forall_mem_cons.mp ih
        rw [List.flatMap_cons, List.flatMap_cons]
        exact hitem.append (ihrest hrest)
    cases hparts : items.flatMap parts with
    | nil =>
      rw [hparts, List.sublist_nil] at hitems
      rw [hitems]
      exact List.nil_sublist _
    | cons text rest =>
      rw [hparts] at hitems
      exact hitems

/-- The characters of texts. -/
def chars (texts : List String) : List Char :=
  texts.flatMap String.toList

theorem chars_append (a b : List String) : chars (a ++ b) = chars a ++ chars b :=
  List.flatMap_append

/-- Blanks have no characters. -/
theorem chars_parts (t : Tree) : chars (parts t) = chars (scalars t) := by
  induction t using array_induction with
  | other t ht => rw [scalars_of_not_array ht, parts_of_not_array ht]
  | array items ih =>
    have hblank : ∀ texts, chars (orBlank texts) = chars texts := by
      intro texts
      cases texts <;> rfl
    rw [scalars_array, parts_array, hblank]
    induction items with
    | nil => rfl
    | cons item rest ihrest =>
      obtain ⟨hitem, hrest⟩ := List.forall_mem_cons.mp ih
      rw [List.flatMap_cons, List.flatMap_cons, chars_append, chars_append, hitem, ihrest hrest]

/-- Every text but the first adds a comma and a space. -/
theorem length_intercalate (texts : List String) :
    (", ".intercalate texts).toList.length = (chars texts).length + 2 * (texts.length - 1) := by
  induction texts with
  | nil => rfl
  | cons text rest ih =>
    cases rest with
    | nil => simp [chars]
    | cons next later =>
      rw [String.intercalate_cons_cons, String.toList_append, String.toList_append,
        List.length_append, List.length_append, ih, ← List.singleton_append, chars_append]
      simp [chars]
      omega

/-- The parts of an array make the text that its scalars make exactly when there are as many of
them, or only one where there are no scalars. -/
theorem intercalate_parts_eq_iff (items : List Tree) :
    ", ".intercalate (parts (.array items)) = ", ".intercalate (scalars (.array items)) ↔
      (parts (.array items)).length = max 1 (scalars (.array items)).length := by
  have hsublist := scalars_sublist_parts (.array items)
  have hchars := chars_parts (.array items)
  have hpos : 0 < (parts (.array items)).length := by
    rw [parts_array]
    cases items.flatMap parts <;> exact Nat.succ_pos _
  have hle := hsublist.length_le
  generalize parts (.array items) = texts at *
  generalize scalars (.array items) = found at *
  constructor
  · intro heq
    have hlength := congrArg (fun s => s.toList.length) heq
    simp only [length_intercalate, hchars] at hlength
    omega
  · intro hlength
    cases found with
    | nil =>
      -- A single part without characters is a blank.
      obtain ⟨text, rfl⟩ := List.length_eq_one_iff.mp (show texts.length = 1 by simpa using hlength)
      have htext : text = "" := String.toList_eq_nil_iff.mp (by simpa [chars] using hchars)
      rw [htext]
      rfl
    | cons first rest =>
      have hsame := hsublist.eq_of_length (by simp only [List.length_cons] at hlength ⊢; omega)
      rw [hsame]

/-! ## Skipped values -/

/-- Of the values that can be read, nulls and objects are skipped, and no others. -/
theorem siteText?_eq_none_iff {t : Tree} {levels : Nat} (h : t.isSound levels = true) :
    siteText? t = none ↔ t = .null ∨ ∃ members, t = .object members := by
  cases t with
  | null => simp [siteText?]
  | bool b => simp [siteText?]
  | number n =>
    have hnumber : n.number?.isSome = true := by
      cases levels <;> simpa [Tree.isSound] using h
    obtain ⟨number, hnumber⟩ := Option.isSome_iff_exists.mp hnumber
    simp [siteText?, hnumber]
  | text s =>
    have htext : s.isSome = true := by
      cases levels <;> simpa [Tree.isSound] using h
    obtain ⟨s, rfl⟩ := Option.isSome_iff_exists.mp htext
    simp [siteText?]
  | array items => simp [siteText?_array]
  | object members => simp [siteText?]

/-- The text of a value does not depend on the order of members within it. -/
theorem siteText?_eq_of_reordered {t u : Tree} (h : t.Reordered u) :
    siteText? t = siteText? u := by
  induction h with
  | same t => rfl
  | trans _ _ iht ihu => rw [iht, ihu]
  | members => rfl
  | value => rfl
  | item before after _ ih =>
    rw [siteText?_array, siteText?_array, List.filterMap_append, List.filterMap_append,
      List.filterMap_cons, List.filterMap_cons, ih]

end ArticleAudit.Metadata
