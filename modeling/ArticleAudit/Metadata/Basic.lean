import ArticleAudit.Text.Blank
import ArticleAudit.Text.Case

/-!
# Metadata

Metadata are the keyed values of a document, in the order in which their keys were first set. Keys
are compared and stored in one form, trimmed, in small letters and with underscores for points, so
every way to write a key finds the same value.
-/

set_option autoImplicit false

namespace ArticleAudit

/-- Keyed values in insertion order. -/
structure Metadata where
  entries : List (String × String)
  deriving DecidableEq, Repr, Inhabited

namespace Metadata

open ArticleAudit.Text

/-- The normal form of a key. -/
def normalizeKey (key : String) : String :=
  String.ofList ((lowercase (trim key.toList)).map fun c => if c == '.' then '_' else c)

/-- No values. -/
def empty : Metadata :=
  ⟨[]⟩

/-- The normalized keys, in order. -/
def keys (m : Metadata) : List String :=
  m.entries.map (·.1)

/-- The number of values. -/
def size (m : Metadata) : Nat :=
  m.entries.length

/-- There are no values. -/
def isEmpty (m : Metadata) : Bool :=
  m.entries.isEmpty

/-- The value of a key. -/
def get? (m : Metadata) (key : String) : Option String :=
  m.entries.lookup (normalizeKey key)

/-- The key has a value. -/
def contains (m : Metadata) (key : String) : Bool :=
  (m.get? key).isSome

/-- Sets the value of a key that is in normal form: in place, or at the end for a new one. Answers
the value that the key had. -/
def replaceEntry (key value : String) :
    List (String × String) → Option String × List (String × String)
  | [] => (none, [(key, value)])
  | (k, v) :: rest =>
    if k == key then (some v, (k, value) :: rest)
    else
      let (old, rest) := replaceEntry key value rest
      (old, (k, v) :: rest)

/-- Sets the value of a key and answers the one it had; a key that has one keeps its place. -/
def replace (m : Metadata) (key value : String) : Option String × Metadata :=
  let (old, entries) := replaceEntry (normalizeKey key) value m.entries
  (old, ⟨entries⟩)

/-- Sets the value of a key. -/
def insert (m : Metadata) (key value : String) : Metadata :=
  (m.replace key value).2

/-- Sets the value of a key that has none and answers whether it had none. -/
def offer (m : Metadata) (key value : String) : Bool × Metadata :=
  if m.contains key then (false, m) else (true, m.insert key value)

/-- Sets the value of a key that has none. -/
def insertIfAbsent (m : Metadata) (key value : String) : Metadata :=
  (m.offer key value).2

/-- Sets values one after the other; later ones win. -/
def insertAll (m : Metadata) (pairs : List (String × String)) : Metadata :=
  pairs.foldl (fun m (key, value) => m.insert key value) m

/-- The values of a list of pairs. -/
def ofList (pairs : List (String × String)) : Metadata :=
  empty.insertAll pairs

/-- Fills in the values of other metadata where there are none. -/
def fillFrom (m defaults : Metadata) : Metadata :=
  defaults.entries.foldl (fun m (key, value) => m.insertIfAbsent key value) m

/-- The key of a document's topic. -/
def topicKey : String := "ms_topic"

/-- The topic, trimmed; a blank one is none. -/
def topic? (m : Metadata) : Option String :=
  ((m.get? topicKey).map trimString).filter fun t => !t.isEmpty

end Metadata

end ArticleAudit
