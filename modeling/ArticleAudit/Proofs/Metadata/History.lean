import ArticleAudit.Metadata.History
import ArticleAudit.Proofs.Metadata.Operations

/-!
# Metadata are a map in insertion order

Metadata behave as a function from normalized keys to values that is updated point by point
(`Values`). Every change answers what the same change of the function answers, and leads to
metadata that look up what the function then gives (`Refines.change`). The keys are those that were
ever written, each at the place of its first writing (`Records.change`), so no key is removed or
moved. Both hold along every history (`changeAll_refines`).
-/

set_option autoImplicit false

namespace ArticleAudit.Metadata

/-! ## The map -/

/-- A value, or none, for every normalized key. -/
abbrev Values := String → Option String

namespace Values

/-- No values. -/
def none : Values :=
  fun _ => Option.none

/-- Sets one value. -/
def set (values : Values) (k value : String) : Values :=
  Function.update values k (some value)

/-- Sets one value if there is none. -/
def offer (values : Values) (k value : String) : Values :=
  if (values k).isSome then values else values.set k value

/-- Sets values one after the other, at the normal forms of their keys. -/
def setAll (values : Values) (pairs : List (String × String)) : Values :=
  pairs.foldl (fun values (key, value) => values.set (normalizeKey key) value) values

/-- Sets values that are not there yet, one after the other, at the normal forms of their keys. -/
def offerAll (values : Values) (pairs : List (String × String)) : Values :=
  pairs.foldl (fun values (key, value) => values.offer (normalizeKey key) value) values

/-- A change of the map, and what it answers. -/
def change (values : Values) : Change → Answer × Values
  | .insert key value =>
    (.previous (values (normalizeKey key)), values.set (normalizeKey key) value)
  | .insertIfAbsent key value =>
    (.absent (values (normalizeKey key)).isNone, values.offer (normalizeKey key) value)
  | .insertAll pairs => (.nothing, values.setAll pairs)
  | .fillFrom defaults => (.nothing, values.offerAll defaults.entries)

/-- Changes of the map in order. -/
def changeAll (values : Values) : List Change → List Answer × Values
  | [] => ([], values)
  | c :: rest =>
    ((values.change c).1 :: ((values.change c).2.changeAll rest).1,
      ((values.change c).2.changeAll rest).2)

end Values

/-! ## Metadata refine the map -/

theorem change_insert (m : Metadata) (key value : String) :
    m.change (.insert key value) = (.previous (m.get? key), m.insert key value) := by
  rw [← fst_replace m key value, change, insert]

theorem change_insertIfAbsent (m : Metadata) (key value : String) :
    m.change (.insertIfAbsent key value) =
      (.absent (m.get? key).isNone, m.insertIfAbsent key value) := by
  rw [← fst_offer m key value, change, insertIfAbsent]

/-- A key looks up the value of its normal form. -/
def Refines (m : Metadata) (values : Values) : Prop :=
  ∀ key, m.get? key = values (normalizeKey key)

namespace Refines

variable {m : Metadata} {values : Values}

theorem empty : Metadata.empty.Refines .none :=
  fun _ => rfl

theorem insert (h : m.Refines values) (key value : String) :
    (m.insert key value).Refines (values.set (normalizeKey key) value) := by
  intro k
  rw [get?_insert, Values.set, Function.update_apply, h]

theorem insertIfAbsent (h : m.Refines values) (key value : String) :
    (m.insertIfAbsent key value).Refines (values.offer (normalizeKey key) value) := by
  intro k
  rw [get?_insertIfAbsent, Values.offer, h k]
  by_cases hk : normalizeKey k = normalizeKey key
  · rw [if_pos hk, ← hk]
    cases hvalue : values (normalizeKey k) with
    | none =>
      rw [Option.none_or, if_neg (by simp), Values.set, Function.update_self]
    | some v => rw [Option.some_or, if_pos Option.isSome_some, hvalue]
  · rw [if_neg hk, Option.or_none]
    split
    · rfl
    · rw [Values.set, Function.update_of_ne hk]

theorem insertAll (h : m.Refines values) (pairs : List (String × String)) :
    (m.insertAll pairs).Refines (values.setAll pairs) := by
  unfold Metadata.insertAll Values.setAll
  induction pairs generalizing m values with
  | nil => exact h
  | cons pair rest ih =>
    obtain ⟨key, value⟩ := pair
    rw [List.foldl_cons, List.foldl_cons]
    exact ih (h.insert key value)

theorem fillFrom (h : m.Refines values) (defaults : Metadata) :
    (m.fillFrom defaults).Refines (values.offerAll defaults.entries) := by
  unfold Metadata.fillFrom Values.offerAll
  induction defaults.entries generalizing m values with
  | nil => exact h
  | cons pair rest ih =>
    obtain ⟨key, value⟩ := pair
    rw [List.foldl_cons, List.foldl_cons]
    exact ih (h.insertIfAbsent key value)

theorem ofList (pairs : List (String × String)) :
    (ofList pairs).Refines (Values.none.setAll pairs) :=
  empty.insertAll pairs

theorem contains_eq (h : m.Refines values) (key : String) :
    m.contains key = (values (normalizeKey key)).isSome := by
  rw [contains, h]

/-- One change of metadata and the same change of the map answer the same, and the metadata after it
refine the map after it. -/
theorem change (h : m.Refines values) (c : Change) :
    (m.change c).1 = (values.change c).1 ∧ (m.change c).2.Refines (values.change c).2 := by
  cases c with
  | insert key value =>
    rw [change_insert, h key, Values.change]
    dsimp only
    exact ⟨rfl, h.insert key value⟩
  | insertIfAbsent key value =>
    rw [change_insertIfAbsent, h key, Values.change]
    dsimp only
    exact ⟨rfl, h.insertIfAbsent key value⟩
  | insertAll pairs => exact ⟨rfl, h.insertAll pairs⟩
  | fillFrom defaults => exact ⟨rfl, h.fillFrom defaults⟩

/-- Along a history the answers are those of the map. -/
theorem changeAll (h : m.Refines values) (changes : List Change) :
    (m.changeAll changes).1 = (values.changeAll changes).1 ∧
      (m.changeAll changes).2.Refines (values.changeAll changes).2 := by
  induction changes generalizing m values with
  | nil => exact ⟨rfl, h⟩
  | cons c rest ih =>
    obtain ⟨hanswer, hnext⟩ := h.change c
    obtain ⟨hanswers, hlast⟩ := ih hnext
    exact ⟨congrArg₂ List.cons hanswer hanswers, hlast⟩

end Refines

/-! ## Keys stay in insertion order -/

/-- The pairs that a change writes. -/
def Change.pairs : Change → List (String × String)
  | .insert key value => [(key, value)]
  | .insertIfAbsent key value => [(key, value)]
  | .insertAll pairs => pairs
  | .fillFrom defaults => defaults.entries

theorem normalKeys_singleton (key value : String) :
    normalKeys [(key, value)] = [normalizeKey key] :=
  List.map_singleton

theorem normalKeys_append (a b : List (String × String)) :
    normalKeys (a ++ b) = normalKeys a ++ normalKeys b :=
  List.map_append

namespace Records

variable {m : Metadata} {pairs : List (String × String)}

/-- One change records the keys that it writes. -/
theorem change (h : m.Records (normalKeys pairs)) (c : Change) :
    (m.change c).2.Records (normalKeys (pairs ++ c.pairs)) := by
  rw [normalKeys_append]
  cases c with
  | insert key value =>
    rw [change_insert, Change.pairs, normalKeys_singleton]
    dsimp only
    exact h.note (keys_insert m key value)
  | insertIfAbsent key value =>
    rw [change_insertIfAbsent, Change.pairs, normalKeys_singleton]
    dsimp only
    exact h.note (keys_insertIfAbsent m key value)
  | insertAll more => exact h.insertAll more
  | fillFrom defaults => exact h.fillFrom defaults

theorem changeAll (h : m.Records (normalKeys pairs)) (changes : List Change) :
    (m.changeAll changes).2.Records (normalKeys (pairs ++ changes.flatMap Change.pairs)) := by
  induction changes generalizing m pairs with
  | nil => rwa [List.flatMap_nil, List.append_nil]
  | cons c rest ih =>
    rw [List.flatMap_cons, ← List.append_assoc]
    exact ih (h.change c)

/-- What is written later does not touch the keys before. -/
theorem keys_isPrefix {m' : Metadata} {more : List (String × String)}
    (h : m.Records (normalKeys pairs)) (h' : m'.Records (normalKeys (pairs ++ more))) :
    m.keys <+: m'.keys := by
  rw [h, h', normalKeys_append, List.eraseDups_append]
  exact List.prefix_append _ _

end Records

/-- Metadata are a map over normalized keys in insertion order. Normalizing is idempotent. Along
every history from collected pairs, the changes answer what the map answers; the keys are distinct
and in normal form, and stand in the order in which they were first written; every key looks up the
value that the map has for its normal form; and no later change removes or moves a key. -/
theorem changeAll_refines (start : List (String × String)) (changes : List Change) :
    (∀ key, normalizeKey (normalizeKey key) = normalizeKey key) ∧
      ((ofList start).changeAll changes).1 = ((Values.none.setAll start).changeAll changes).1 ∧
      ((ofList start).changeAll changes).2.IsNormal ∧
      ((ofList start).changeAll changes).2.keys =
        (normalKeys (start ++ changes.flatMap Change.pairs)).eraseDups ∧
      (∀ key, ((ofList start).changeAll changes).2.get? key =
          ((Values.none.setAll start).changeAll changes).2 (normalizeKey key) ∧
        ((ofList start).changeAll changes).2.contains key =
          (((Values.none.setAll start).changeAll changes).2 (normalizeKey key)).isSome) ∧
      ∀ later, ((ofList start).changeAll changes).2.keys <+:
        ((ofList start).changeAll (changes ++ later)).2.keys := by
  obtain ⟨hanswers, hrefines⟩ := (Refines.ofList start).changeAll changes
  have hrecords := (Records.ofList start).changeAll changes
  refine ⟨normalizeKey_normalizeKey, hanswers, hrecords.isNormal, hrecords,
    fun key => ⟨hrefines key, hrefines.contains_eq key⟩, ?_⟩
  intro later
  have hlater := (Records.ofList start).changeAll (changes ++ later)
  rw [List.flatMap_append, ← List.append_assoc] at hlater
  exact hrecords.keys_isPrefix hlater

end ArticleAudit.Metadata
