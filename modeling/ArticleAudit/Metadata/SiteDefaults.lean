import ArticleAudit.Json.Reader
import ArticleAudit.Metadata.Basic

/-!
# Defaults of a site

A site's `docfx.json` gives metadata to all its documents, as the object `globalMetadata` of the
object `build`. Its members count in the order of their keys; a key that is repeated has its last
value. Nulls and objects are skipped, and an array becomes the list of its values.
-/

set_option autoImplicit false

namespace ArticleAudit.Metadata

open ArticleAudit.Json

/-- The text of a value, unless it is null or an object. -/
def siteText? : Tree → Option String
  | .null | .object _ => none
  | .bool b => some (toString b)
  | .number t => t.number?.map Number.text
  | .text s => s
  | .array items => some (", ".intercalate (siteTexts items))
where
  siteTexts : List Tree → List String
    | [] => []
    | item :: rest => (siteText? item).toList ++ siteTexts rest

/-- Sets the value of a key in a list that is sorted by key. -/
def setSorted {α : Type} (key : String) (value : α) : List (String × α) → List (String × α)
  | [] => [(key, value)]
  | (k, v) :: rest =>
    if key < k then (key, value) :: (k, v) :: rest
    else if key = k then (key, value) :: rest
    else (k, v) :: setSorted key value rest

/-- Members sorted by key, the last one of each. -/
def sortMembers {α : Type} (members : List (String × α)) : List (String × α) :=
  members.foldl (fun sorted (k, v) => setSorted k v sorted) []

/-- The metadata of the members of `globalMetadata`. -/
def ofSiteMembers (members : List (String × Tree)) : Metadata :=
  ofList ((sortMembers members).filterMap fun (k, v) => (siteText? v).map fun s => (k, s))

/-- The members of an object whose values are sound where they stand. -/
def soundMembers? (levels : Nat) : Tree → Option (List (String × Tree))
  | .object members =>
    if Tree.isSound levels (.object members) then
      members.mapM fun (k, v) => k.map fun k => (k, v)
    else none
  | _ => none

/-- The levels of objects around the members of `globalMetadata`. -/
def siteDepth : Nat := 2

/-- The defaults in a site's tree. Objects that are left out are empty. -/
def ofSiteTree? (t : Tree) : Option Metadata :=
  match t.fields? ["build"] with
  | some [none] => some empty
  | some [some build] =>
    match build.fields? ["globalMetadata"] with
    | some [none] => some empty
    | some [some members] =>
      (soundMembers? (Tree.maxDepth - siteDepth) members).map ofSiteMembers
    | _ => none
  | _ => none

/-- The defaults in the text of a site's configuration. -/
def ofSiteText? (text : List Char) : Option Metadata :=
  (Tree.ofChars? text).bind ofSiteTree?

end ArticleAudit.Metadata
