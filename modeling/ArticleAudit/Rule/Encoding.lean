import ArticleAudit.Json.Reader
import ArticleAudit.Json.Writer
import ArticleAudit.Rule.Check

/-!
# Rules in JSON

A rule is an object of its fields, and its check an object whose member `kind` names what is asked.
Fields that have a value of their own may be left out, others are skipped, and an array may hold the
fields in their order.
-/

set_option autoImplicit false

namespace ArticleAudit

open ArticleAudit.Json

/-! ## Numbers -/

/-- An unsigned number of eight bits. -/
def readByte? (t : Tree) : Option UInt8 :=
  (t.natBelow? UInt8.size).map UInt8.ofNat

/-- An unsigned number of 32 bits. -/
def readWord32? (t : Tree) : Option UInt32 :=
  (t.natBelow? UInt32.size).map UInt32.ofNat

/-- An unsigned number of 64 bits. -/
def readWord64? (t : Tree) : Option UInt64 :=
  (t.natBelow? UInt64.size).map UInt64.ofNat

/-! ## Checks -/

namespace Check

/-- The name of what a check asks. -/
def kindName : Check → String
  | .requireBlock .. => "requireBlock"
  | .maxBlocks .. => "maxBlocks"
  | .requireMetadata .. => "requireMetadata"
  | .metadataMatches .. => "metadataMatches"
  | .requireSection .. => "requireSection"
  | .headingHierarchy => "headingHierarchy"
  | .forbidPattern .. => "forbidPattern"
  | .linkTargets .. => "linkTargets"

/-- The fields of a check beside its kind. -/
def fieldTrees : Check → List (String × Tree)
  | .requireBlock block level min =>
    [("block", .ofString block), ("level", .ofOption (fun n => .ofNat n.toNat) level),
      ("min", .ofNat min.toNat)]
  | .maxBlocks block level max =>
    [("block", .ofString block), ("level", .ofOption (fun n => .ofNat n.toNat) level),
      ("max", .ofNat max.toNat)]
  | .requireMetadata keys => [("keys", .array (keys.map .ofString))]
  | .metadataMatches key pattern => [("key", .ofString key), ("pattern", .ofString pattern)]
  | .requireSection heading level =>
    [("heading", .ofString heading), ("level", .ofOption (fun n => .ofNat n.toNat) level)]
  | .headingHierarchy => []
  | .forbidPattern pattern blocks =>
    [("pattern", .ofString pattern), ("blocks", .array (blocks.map .ofString))]
  | .linkTargets forbid => [("forbid", .ofString forbid)]

/-- A check as an object. -/
def toTree (c : Check) : Tree :=
  .ofMembers (("kind", .ofString c.kindName) :: c.fieldTrees)

/-- A level that may be left out or null. -/
def readLevel? : Option Tree → Option (Option UInt8) :=
  Tree.defaulted? none (Tree.optional? readByte?)

/-- The number of blocks that are required where no other is given. -/
def defaultMin : UInt64 := 1

/-- The check of a kind, with the tree of its other fields. -/
def ofFields? (kind : String) (fields : Tree) : Option Check :=
  match kind with
  | "requireBlock" => do
    let [block, level, min] ← fields.fields? ["block", "level", "min"] | none
    return .requireBlock (← Tree.required? Tree.text? block) (← readLevel? level)
      (← Tree.defaulted? defaultMin readWord64? min)
  | "maxBlocks" => do
    let [block, level, max] ← fields.fields? ["block", "level", "max"] | none
    return .maxBlocks (← Tree.required? Tree.text? block) (← readLevel? level)
      (← Tree.required? readWord64? max)
  | "requireMetadata" => do
    let [keys] ← fields.fields? ["keys"] | none
    return .requireMetadata (← Tree.required? Tree.texts? keys)
  | "metadataMatches" => do
    let [key, pattern] ← fields.fields? ["key", "pattern"] | none
    return .metadataMatches (← Tree.required? Tree.text? key)
      (← Tree.required? Tree.text? pattern)
  | "requireSection" => do
    let [heading, level] ← fields.fields? ["heading", "level"] | none
    return .requireSection (← Tree.required? Tree.text? heading) (← readLevel? level)
  | "headingHierarchy" => do
    let [] ← fields.fields? [] | none
    return .headingHierarchy
  | "forbidPattern" => do
    let [pattern, blocks] ← fields.fields? ["pattern", "blocks"] | none
    return .forbidPattern (← Tree.required? Tree.text? pattern)
      (← Tree.defaulted? [] Tree.texts? blocks)
  | "linkTargets" => do
    let [forbid] ← fields.fields? ["forbid"] | none
    return .linkTargets (← Tree.required? Tree.text? forbid)
  | _ => none

/-- Splits off the kind: the one member of that name, or the first item of an array. -/
def splitKind? : Tree → Option (String × Tree)
  | .object members =>
    match members.filter fun m => m.1 == some "kind" with
    | [(_, .text (some kind))] =>
      some (kind, .object (members.filter fun m => m.1 != some "kind"))
    | _ => none
  | .array (.text (some kind) :: items) => some (kind, .array items)
  | _ => none

/-- Reads a check that stands below `depth` arrays and objects. All of it must be sound. -/
def ofTree? (depth : Nat) (t : Tree) : Option Check := do
  let (kind, fields) ← splitKind? t
  if t.isSound (Tree.maxDepth - depth) then ofFields? kind fields else none

/-- Reads the text of a check. -/
def ofText? (text : List Char) : Option Check :=
  (Tree.ofChars? text).bind (ofTree? 0)

end Check

/-! ## Rules -/

namespace RuleDescriptor

/-- A rule as an object. -/
def toTree (d : RuleDescriptor) : Tree :=
  .ofMembers [("ruleNum", .ofNat d.ruleNum.toNat), ("ruleSet", .ofString d.ruleSet),
    ("ruleGroup", .ofString d.ruleGroup),
    ("dependsOn", .ofOption (fun n => .ofNat n.toNat) d.dependsOn),
    ("title", .ofString d.title), ("check", d.check.toTree)]

/-- The fields of a rule in their order. -/
def fieldNames : List String :=
  ["ruleNum", "ruleSet", "ruleGroup", "dependsOn", "title", "check"]

/-- The arrays and objects around the check of a rule in a list. -/
def checkDepth : Nat := 2

/-- Reads a rule of a list. -/
def ofTree? (t : Tree) : Option RuleDescriptor := do
  let [ruleNum, ruleSet, ruleGroup, dependsOn, title, check] ← t.fields? fieldNames | none
  return ⟨← Tree.required? readWord32? ruleNum, ← Tree.required? Tree.text? ruleSet,
    ← Tree.required? Tree.text? ruleGroup,
    ← Tree.defaulted? none (Tree.optional? readWord32?) dependsOn,
    ← Tree.required? Tree.text? title,
    ← Tree.required? (Check.ofTree? checkDepth) check⟩

/-- A list of rules. -/
def listToTree (ds : List RuleDescriptor) : Tree :=
  .array (ds.map toTree)

/-- The text of a list of rules. -/
def listToText (ds : List RuleDescriptor) : List Char :=
  (listToTree ds).write

/-- Reads a list of rules. -/
def listOfTree? : Tree → Option (List RuleDescriptor)
  | .array items => items.mapM ofTree?
  | _ => none

/-- Reads the text of a list of rules. -/
def listOfText? (text : List Char) : Option (List RuleDescriptor) :=
  (Tree.ofChars? text).bind listOfTree?

end RuleDescriptor

end ArticleAudit
