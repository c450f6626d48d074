import ArticleAudit.Json.Number

/-!
# JSON texts

A tree is a JSON text taken apart, before anything is demanded of its values. Where values are read,
a tree must be sound (`Tree.isSound`): its numbers are finite, its texts consist of characters, and
its nesting is limited. Parts that nobody reads need not be.
-/

set_option autoImplicit false

namespace ArticleAudit.Json

/-- A JSON text. A text or key is `none` when an escape in it is half a character. -/
inductive Tree
  | null
  | bool (b : Bool)
  | number (t : NumberText)
  | text (s : Option String)
  | array (items : List Tree)
  | object (members : List (Option String × Tree))
  deriving Repr, Inhabited

namespace Tree

/-- A text. -/
def ofString (s : String) : Tree :=
  .text (some s)

/-- A natural number. -/
def ofNat (n : Nat) : Tree :=
  .number (.ofNat n)

/-- An optional part, null when it is absent. -/
def ofOption {α : Type} (f : α → Tree) : Option α → Tree
  | none => .null
  | some a => f a

/-- An object whose keys are all texts. -/
def ofMembers (members : List (String × Tree)) : Tree :=
  .object (members.map fun (k, v) => (some k, v))

/-- Arrays and objects nest at most this deep. -/
def maxDepth : Nat := 127

/-- All values can be read, with at most `levels` further levels of arrays and objects. -/
def isSound : Nat → Tree → Bool
  | _, .null | _, .bool _ => true
  | _, .number t => t.number?.isSome
  | _, .text s => s.isSome
  | 0, .array _ | 0, .object _ => false
  | levels + 1, .array items => items.all (isSound levels)
  | levels + 1, .object members => members.all fun (k, v) => k.isSome && isSound levels v

/-! ## Reading parts -/

/-- The text. -/
def text? : Tree → Option String
  | .text s => s
  | _ => none

/-- The natural number below a bound. -/
def natBelow? (bound : Nat) : Tree → Option Nat
  | .number t => t.natBelow? bound
  | _ => none

/-- The texts of an array. -/
def texts? : Tree → Option (List String)
  | .array items => items.mapM text?
  | _ => none

/-- A part that may be null. -/
def optional? {α : Type} (read : Tree → Option α) : Tree → Option (Option α)
  | .null => some none
  | t => (read t).map some

/-- The keys of an object; all must be texts. -/
def keys? (members : List (Option String × Tree)) : Option (List String) :=
  members.mapM (·.1)

/-- The fields of a record in the order of their names, each at most once. An object may hold other
members too; an array has the fields in order, and may lack the last ones. -/
def fields? (names : List String) : Tree → Option (List (Option Tree))
  | .array items =>
    if items.length ≤ names.length then
      some (items.map some ++ List.replicate (names.length - items.length) none)
    else none
  | .object members =>
    (keys? members).bind fun keys =>
      if names.all fun name => keys.count name ≤ 1 then
        some (names.map fun name => members.lookup (some name))
      else none
  | _ => none

/-- A field that must be there. -/
def required? {α : Type} (read : Tree → Option α) (field : Option Tree) : Option α :=
  field.bind read

/-- A field that has a value of its own where it is left out. -/
def defaulted? {α : Type} (default : α) (read : Tree → Option α) : Option Tree → Option α
  | none => some default
  | some t => read t

end Tree

end ArticleAudit.Json
