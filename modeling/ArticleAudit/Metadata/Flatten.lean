import ArticleAudit.Metadata.Basic
import ArticleAudit.Yaml.Printer

/-!
# Metadata from YAML

A YAML mapping is read as metadata leaf by leaf: the keys on the way to a leaf are joined with
underscores, and the leaf becomes a text. Leaves of one key follow each other, the last one wins.
-/

set_option autoImplicit false

namespace ArticleAudit.Metadata

open ArticleAudit.Text

/-- Why a text holds no metadata. -/
inductive ReadError
  | yaml (fault : Yaml.Fault)
  | notAMapping
  deriving DecidableEq, Repr, Inhabited

/-- The message of an error that has one of its own. -/
def ReadError.message? : ReadError → Option String
  | .yaml _ => none
  | .notAMapping => some "metadata is not a key/value mapping"

/-- A value as one text. The items of a sequence that are not empty are separated by commas, and a
mapping is written in YAML. -/
def valueText : Yaml.Value → String
  | .null => ""
  | .bool b => toString b
  | .int n => toString n
  | .float x => Yaml.floatFormat.write x
  | .text s => s
  | .sequence items => ", ".intercalate (itemTexts items)
  | .mapping members => trimString (Yaml.writeMembers members)
  | .tagged _ v => valueText v
where
  itemTexts : List Yaml.Value → List String
    | [] => []
    | item :: rest =>
      let text := valueText item
      if text.isEmpty then itemTexts rest else text :: itemTexts rest

/-- A key below the keys before it; nothing is joined to an empty one. -/
def joinKey (before key : String) : String :=
  if before.isEmpty then key else before ++ "_" ++ key

/-- The leaves of a value with their joined keys, in document order. -/
def leaves (before : String) : Yaml.Value → List (String × String)
  | .mapping members => memberLeaves before members
  | leaf => [(before, valueText leaf)]
where
  memberLeaves (before : String) : List (Yaml.Value × Yaml.Value) → List (String × String)
    | [] => []
    | (key, value) :: rest =>
      leaves (joinKey before (valueText key)) value ++ memberLeaves before rest

/-- The metadata of a YAML value; null holds none. -/
def ofYaml? : Yaml.Value → Except ReadError Metadata
  | .null => .ok empty
  | .mapping members => .ok (ofList (leaves "" (.mapping members)))
  | _ => .error .notAMapping

/-- Reads the text of metadata; a blank one holds none. -/
def read (text : List Char) : Except ReadError Metadata :=
  if (trim text).isEmpty then .ok empty
  else
    match Yaml.Value.ofChars? text with
    | .ok v => ofYaml? v
    | .error fault => .error (.yaml fault)

end ArticleAudit.Metadata
