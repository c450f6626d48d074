/-!
# TOML values

A table remembers how it came to be, because that decides who may still add to it: a header opens a
table that was only implied, dotted keys go on with tables of dotted keys, and an inline table is
complete. An array of tables grows by headers, and its last table is the one that is open.
-/

set_option autoImplicit false

namespace ArticleAudit.Toml

/-- How a table came to be. -/
inductive Origin
  /-- The root, or a table with a header. -/
  | header
  /-- A table on the way to one with a header. -/
  | implied
  /-- A table on the way of a dotted key. -/
  | dotted
  /-- A table between braces. -/
  | inline
  deriving DecidableEq, Repr, Inhabited

/-- A value. Dates and times stay as they are written. -/
inductive Value
  | string (s : String)
  | integer (n : Int)
  | float (x : Float)
  | boolean (b : Bool)
  | moment (s : String)
  | array (items : List Value)
  | tables (items : List Value)
  | table (origin : Origin) (members : List (String × Value))
  deriving Repr, Inhabited

/-- A key with the keys before its points. -/
structure KeyPath where
  above : List String
  last : String
  deriving DecidableEq, Repr, Inhabited

/-- All keys of a path. -/
def KeyPath.keys (k : KeyPath) : List String :=
  k.above ++ [k.last]

namespace Value

/-- The string. -/
def string? : Value → Option String
  | .string s => some s
  | _ => none

/-- The truth value. -/
def boolean? : Value → Option Bool
  | .boolean b => some b
  | _ => none

/-- Sets the value of a key: in its place, or at the end. -/
def setMember (key : String) (value : Value) : List (String × Value) → List (String × Value)
  | [] => [(key, value)]
  | (k, v) :: rest => if k = key then (k, value) :: rest else (k, v) :: setMember key value rest

/-- Changes the last item of an array of tables. -/
def changeLast? (change : Value → Option Value) : List Value → Option (List Value)
  | [] => none
  | [item] => (change item).map ([·])
  | item :: rest => (changeLast? change rest).map (item :: ·)

/-! ## Headers -/

/-- Changes the table that a header leads to. Tables on the way that are missing are implied. -/
def alongHeader? (change : Value → Option Value) : List String → Value → Option Value
  | [], t => change t
  | key :: rest, .table origin members => do
    let value ← match members.lookup key with
      | none => alongHeader? change rest (.table .implied [])
      | some (.table .inline _) => none
      | some (.table o ms) => alongHeader? change rest (.table o ms)
      | some (.tables items) => (changeLast? (alongHeader? change rest) items).map .tables
      | some _ => none
    return .table origin (setMember key value members)
  | _ :: _, _ => none

/-- Opens the table of a header in the table above it: a new one, or one that was implied. -/
def openTable? (key : String) : Value → Option Value
  | .table origin members =>
    match members.lookup key with
    | none => some (.table origin (members ++ [(key, .table .header [])]))
    | some (.table .implied ms) =>
      some (.table origin (setMember key (.table .header ms) members))
    | some _ => none
  | _ => none

/-- Adds a table to the array of tables with a header. -/
def openItem? (key : String) : Value → Option Value
  | .table origin members =>
    match members.lookup key with
    | none => some (.table origin (members ++ [(key, .tables [.table .header []])]))
    | some (.tables items) =>
      some (.table origin (setMember key (.tables (items ++ [.table .header []])) members))
    | some _ => none
  | _ => none

/-! ## Keys -/

/-- Adds a member to a table that has none of that key. Behind points the table must be one of
dotted keys, and elsewhere it must not. -/
def addMember? (isDotted : Bool) (key : String) (value : Value) : Value → Option Value
  | .table origin members =>
    if isDotted == (origin == .dotted) && (members.lookup key).isNone then
      some (.table origin (members ++ [(key, value)]))
    else none
  | _ => none

/-- Adds a member to the table that the keys before it lead to. -/
def addAlong? (value : Value) (last : String) : Bool → List String → Value → Option Value
  | isDotted, [], t => addMember? isDotted last value t
  | _, key :: rest, .table origin members => do
    let v ← match members.lookup key with
      | none => addAlong? value last true rest (.table .dotted [])
      | some (.table .implied ms) => addAlong? value last true rest (.table .implied ms)
      | some (.table .dotted ms) => addAlong? value last true rest (.table .dotted ms)
      | some (.tables items) => (changeLast? (addAlong? value last true rest) items).map .tables
      | some _ => none
    return .table origin (setMember key v members)
  | _, _ :: _, _ => none

/-- Adds a member to a table. -/
def add? (key : KeyPath) (value : Value) (t : Value) : Option Value :=
  addAlong? value key.last false key.above t

/-- Adds members one after the other. -/
def addAll? (t : Value) (members : List (KeyPath × Value)) : Option Value :=
  members.foldlM (fun t (key, value) => add? key value t) t

end Value

end ArticleAudit.Toml
