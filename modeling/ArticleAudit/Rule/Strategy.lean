import ArticleAudit.Pattern.Search
import ArticleAudit.Rule.Basic
import ArticleAudit.Rule.Check

/-!
# Checks as strategies

Compiling a check looks up its block kinds and has an engine compile its patterns, so that a
strategy of a check never fails. Programs run with the threaded engine; no strategy depends on which
one it is.
-/

set_option autoImplicit false

namespace ArticleAudit

open ArticleAudit.Text ArticleAudit.Pattern

/-- Why rules could not be loaded. -/
inductive LoadError
  | unreadable
  | json
  | unknownBlockKind (ruleNum : UInt32) (name : String)
  | pattern (ruleNum : UInt32)
  deriving DecidableEq, Repr, Inhabited

/-- The message of an error that has one of its own; `\x60` is a backtick. -/
def LoadError.message? : LoadError → Option String
  | .unknownBlockKind n name =>
    some ("rule " ++ toString n.toNat ++ ": unknown block kind \x60" ++ name ++ "\x60")
  | _ => none

namespace AuditContext

/-- The span of the first field of the front matter that has a key in normal form. -/
def fieldSpan? (ctx : AuditContext) (key : String) : Option Span :=
  ((ctx.blocksOf .metadataField none).find? fun b => b.tag == some key).map (·.span)

/-- The spans of the fields of keys, those that have one. -/
def fieldSpans (ctx : AuditContext) (keys : List String) : List Span :=
  keys.filterMap ctx.fieldSpan?

end AuditContext

namespace Check

/-! ## Outcomes -/

/-- Passes unless there is a violation. -/
def failIfAny (violations : List Span) : Outcome :=
  if violations.isEmpty then .pass [] else .fail violations

/-- At least `min` blocks of a kind. -/
def requireBlockOutcome (kind : BlockKind) (level : Option UInt8) (min : Nat)
    (ctx : AuditContext) : Outcome :=
  let found := (ctx.blocksOf kind level).map (·.span)
  if min ≤ found.length then .pass found else .fail []

/-- At most `max` blocks of a kind; those beyond are the violations. -/
def maxBlocksOutcome (kind : BlockKind) (level : Option UInt8) (max : Nat)
    (ctx : AuditContext) : Outcome :=
  let found := (ctx.blocksOf kind level).map (·.span)
  if found.length ≤ max then .pass found else .fail (found.drop max)

/-- The value of a key is missing or blank. -/
def lacks (m : Metadata) (key : String) : Bool :=
  (m.get? key).all fun v => (trim v.toList).isEmpty

/-- Every key has a value. A missing one is missing at the start of the document. -/
def requireMetadataOutcome (keys : List String) (ctx : AuditContext) : Outcome :=
  let missing := (keys.filter (lacks ctx.metadata)).length
  if missing > 0 then .fail (List.replicate missing (.point 0)) else .pass (ctx.fieldSpans keys)

/-- The value of a key fits a pattern. -/
def metadataMatchesOutcome (key : String) (pattern : Finder) (ctx : AuditContext) : Outcome :=
  let spans := ctx.fieldSpans [key]
  if (ctx.metadata.get? key).any fun v => pattern.isIn v.toList then .pass spans else .fail spans

/-- The headings whose text fits a pattern. -/
def requireSectionOutcome (heading : Finder) (level : Option UInt8) (ctx : AuditContext) :
    Outcome :=
  let found := (ctx.blocksOf .header level).filter fun b => heading.isIn b.contentText.toList
  if found.isEmpty then .fail [] else .pass (found.map (·.span))

/-- The headings that are more than one level deeper than the one before them. -/
def jumps (current : Nat) : List Block → List Span
  | [] => []
  | header :: rest =>
    (if header.level > current + 1 then [header.span] else []) ++ jumps header.level rest

/-- No heading skips a level on the way down. -/
def headingHierarchyOutcome (ctx : AuditContext) : Outcome :=
  failIfAny (jumps 0 (ctx.blocksOf .header none))

/-- Where a pattern fits in a block, counted in the document. -/
def hitsIn (pattern : Finder) (b : Block) : List Span :=
  (pattern.findAll b.text.toList).map fun s => s.shift b.span.start

/-- The order of spans, with equal ones on either side. -/
def spanLe (a b : Span) : Bool :=
  !b.precedes a

/-- Sorted spans, each once. -/
def distinctSpans (spans : List Span) : List Span :=
  ((spans.mergeSort spanLe).splitBy (· == ·)).filterMap List.head?

/-- Where a pattern fits: in the whole text, or in blocks of the given kinds. A match in a block and
in a block around it counts once. -/
def forbidPatternOutcome (pattern : Finder) (kinds : List BlockKind) (ctx : AuditContext) :
    Outcome :=
  let hits := if kinds.isEmpty then pattern.findAll ctx.source
    else (ctx.allBlocks.filter fun b => kinds.contains b.kind).flatMap (hitsIn pattern)
  failIfAny (distinctSpans hits)

/-- The target of a link or of an entry's file, when it fits a pattern. -/
def badTarget? (forbid : Finder) (b : Block) : Option Span :=
  if b.kind == .link || b.kind == .fileName then
    match b.target, b.targetText? with
    | some span, some text => if forbid.isIn text.toList then some span else none
    | _, _ => none
  else none

/-- The targets that fit a pattern. -/
def linkTargetsOutcome (forbid : Finder) (ctx : AuditContext) : Outcome :=
  failIfAny (ctx.allBlocks.filterMap (badTarget? forbid))

/-! ## Compiling -/

/-- The block kind with a name. -/
def kindOf (ruleNum : UInt32) (name : String) : Except LoadError BlockKind :=
  match BlockKind.ofName? name with
  | some kind => .ok kind
  | none => .error (.unknownBlockKind ruleNum name)

/-- What a pattern finds, if the engine compiles it. -/
def patternOf (engine : Engine) (ruleNum : UInt32) (ignoreCase : Bool) (text : String) :
    Except LoadError Finder :=
  match engine.compile? ignoreCase text with
  | some p => .ok p
  | none => .error (.pattern ruleNum)

/-- A strategy that always has an outcome. -/
def always (outcome : AuditContext → Outcome) : Strategy :=
  fun ctx => .ok (outcome ctx)

/-- The strategy of a check. -/
def compile (ruleNum : UInt32) (check : Check) (engine : Engine := .threaded) :
    Except LoadError Strategy :=
  match check with
  | .requireBlock block level min => do
    let kind ← kindOf ruleNum block
    return always (requireBlockOutcome kind level min.toNat)
  | .maxBlocks block level max => do
    let kind ← kindOf ruleNum block
    return always (maxBlocksOutcome kind level max.toNat)
  | .requireMetadata keys => .ok (always (requireMetadataOutcome (keys.map Metadata.normalizeKey)))
  | .metadataMatches key pattern => do
    let pattern ← patternOf engine ruleNum false pattern
    return always (metadataMatchesOutcome (Metadata.normalizeKey key) pattern)
  | .requireSection heading level => do
    let heading ← patternOf engine ruleNum true heading
    return always (requireSectionOutcome heading level)
  | .headingHierarchy => .ok (always headingHierarchyOutcome)
  | .forbidPattern pattern blocks => do
    let pattern ← patternOf engine ruleNum false pattern
    let kinds ← blocks.mapM (kindOf ruleNum)
    return always (forbidPatternOutcome pattern kinds)
  | .linkTargets forbid => do
    let forbid ← patternOf engine ruleNum false forbid
    return always (linkTargetsOutcome forbid)

end Check

/-- The rule of a descriptor. -/
def Rule.ofDescriptor (engine : Engine) (d : RuleDescriptor) : Except LoadError Rule := do
  let strategy ← d.check.compile d.ruleNum engine
  return ⟨d.ruleNum, d.ruleSet, d.ruleGroup, d.dependsOn, d.title, strategy⟩

end ArticleAudit
