import ArticleAudit.Metadata.Basic

/-!
# Histories of metadata

Metadata are collected from pairs and then changed, one change after the other. A change answers
what its operation answers: the value before, or whether the key was new.
-/

set_option autoImplicit false

namespace ArticleAudit.Metadata

/-- A change of metadata. -/
inductive Change
  /-- Sets the value of a key. -/
  | insert (key value : String)
  /-- Sets the value of a key that has none. -/
  | insertIfAbsent (key value : String)
  /-- Sets values one after the other. -/
  | insertAll (pairs : List (String × String))
  /-- Fills in the values of other metadata where there are none. -/
  | fillFrom (defaults : Metadata)
  deriving DecidableEq, Repr

/-- What a change answers. -/
inductive Answer
  /-- The value that the key had. -/
  | previous (value : Option String)
  /-- Whether the key had no value. -/
  | absent (wasAbsent : Bool)
  /-- Nothing. -/
  | nothing
  deriving DecidableEq, Repr

/-- Makes a change. -/
def change (m : Metadata) : Change → Answer × Metadata
  | .insert key value =>
    let (old, m) := m.replace key value
    (.previous old, m)
  | .insertIfAbsent key value =>
    let (wasAbsent, m) := m.offer key value
    (.absent wasAbsent, m)
  | .insertAll pairs => (.nothing, m.insertAll pairs)
  | .fillFrom defaults => (.nothing, m.fillFrom defaults)

/-- Makes changes in order; answers their answers and the metadata after the last one. -/
def changeAll (m : Metadata) : List Change → List Answer × Metadata
  | [] => ([], m)
  | c :: rest =>
    let (answer, m) := m.change c
    let (answers, m) := m.changeAll rest
    (answer :: answers, m)

end ArticleAudit.Metadata
