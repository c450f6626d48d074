/-!
# Checks and rules as they are declared

A check says what a document must or must not have. A rule declares a check for the documents of one
topic, in one set of rules.
-/

set_option autoImplicit false

namespace ArticleAudit

/-- What a rule asks of a document. -/
inductive Check
  /-- At least `min` blocks of a kind, of one level if one is given. -/
  | requireBlock (block : String) (level : Option UInt8) (min : UInt64)
  /-- At most `max` blocks of a kind, of one level if one is given. -/
  | maxBlocks (block : String) (level : Option UInt8) (max : UInt64)
  /-- Every key has a value that is not blank. -/
  | requireMetadata (keys : List String)
  /-- The value of a key fits a pattern. -/
  | metadataMatches (key pattern : String)
  /-- A heading fits a pattern, whatever its case. -/
  | requireSection (heading : String) (level : Option UInt8)
  /-- No heading is more than one level deeper than the one before it. -/
  | headingHierarchy
  /-- A pattern fits nowhere in the text, or in no block of the given kinds. -/
  | forbidPattern (pattern : String) (blocks : List String)
  /-- No target of a link fits a pattern. -/
  | linkTargets (forbid : String)
  deriving DecidableEq, Repr, Inhabited

/-- A rule as it is declared. -/
structure RuleDescriptor where
  ruleNum : UInt32
  ruleSet : String
  ruleGroup : String
  dependsOn : Option UInt32
  title : String
  check : Check
  deriving DecidableEq, Repr, Inhabited

end ArticleAudit
