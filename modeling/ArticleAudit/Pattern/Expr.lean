import ArticleAudit.Pattern.CharSet
import ArticleAudit.Pattern.Syntax

/-!
# What patterns mean

Under the flags of its place every item becomes a set of characters, a place between characters, or
a combination of such. Without the Unicode flag a set may hold ASCII characters alone, since
anything else could cut a character in two.
-/

set_option autoImplicit false

namespace ArticleAudit.Pattern

open ArticleAudit.Unicode

/-- A place between two characters. -/
inductive Look
  | textStart
  | textEnd
  | lineStart (carriageReturn : Bool)
  | lineEnd (carriageReturn : Bool)
  | wordBoundary (unicode : Bool)
  | notWordBoundary (unicode : Bool)
  | wordStart (unicode : Bool)
  | wordEnd (unicode : Bool)
  | wordStartHalf (unicode : Bool)
  | wordEndHalf (unicode : Bool)
  deriving DecidableEq, Repr, Inhabited

namespace Look

/-- A character of a word, among all characters or among ASCII ones; outside the text is none. -/
def isWordChar (unicode : Bool) (c? : Option Char) : Bool :=
  c?.any fun c => if unicode then isWord c else c.isAlphanum || c == '_'

/-- The place between two neighbours, of which either may be missing, is of this kind. -/
def holds (before after : Option Char) : Look → Bool
  | .textStart => before.isNone
  | .textEnd => after.isNone
  | .lineStart false => before.all (· == '\n')
  | .lineStart true => before.all fun c => c == '\n' || (c == '\r' && after != some '\n')
  | .lineEnd false => after.all (· == '\n')
  | .lineEnd true => after.all fun c => c == '\r' || (c == '\n' && before != some '\r')
  | .wordBoundary u => isWordChar u before != isWordChar u after
  | .notWordBoundary u => isWordChar u before == isWordChar u after
  | .wordStart u => !isWordChar u before && isWordChar u after
  | .wordEnd u => isWordChar u before && !isWordChar u after
  | .wordStartHalf u => !isWordChar u before
  | .wordEndHalf u => !isWordChar u after

end Look

/-- A pattern without flags. Of two alternatives the first counts, and a repetition takes as many or
as few turns as it can. -/
inductive Expr
  | empty
  | chars (set : CharSet)
  | look (place : Look)
  | seq (first second : Expr)
  | alt (first second : Expr)
  | repetition (least : Nat) (most : Option Nat) (greedy : Bool) (item : Expr)
  deriving Repr, Inhabited

namespace Expr

/-- The pattern can fit without a character. -/
def canBeEmpty : Expr → Bool
  | .empty | .look _ => true
  | .chars _ => false
  | .seq a b => a.canBeEmpty && b.canBeEmpty
  | .alt a b => a.canBeEmpty || b.canBeEmpty
  | .repetition least _ _ item => least == 0 || item.canBeEmpty

/-- The pattern fits without a character only. -/
def isEmptyOnly : Expr → Bool
  | .empty | .look _ => true
  | .chars _ => false
  | .seq a b | .alt a b => a.isEmptyOnly && b.isEmptyOnly
  | .repetition _ most _ item => most == some 0 || item.isEmptyOnly

/-- A repetition; one turn is enough for an item that never takes a character. -/
def repeated (least : Nat) (most : Option Nat) (greedy : Bool) (item : Expr) : Expr :=
  let (least, most) := if item.isEmptyOnly then (min least 1, some (min (most.getD 1) 1))
    else (least, most)
  if most == some 0 then .empty
  else if least == 1 && most == some 1 then item
  else .repetition least most greedy item

/-- Items one after the other. -/
def seqAll : List Expr → Expr
  | [] => .empty
  | [e] => e
  | e :: rest => .seq e (seqAll rest)

/-- The first of several alternatives that fits. -/
def altAll : List Expr → Expr
  | [] => .chars .never
  | [e] => e
  | e :: rest => .alt e (altAll rest)

end Expr

/-! ## Flags in effect -/

/-- The flags in effect. -/
structure Flags where
  ignoreCase : Bool
  multiLine : Bool
  dotMatchesAll : Bool
  swapGreed : Bool
  unicode : Bool
  carriageReturn : Bool
  deriving DecidableEq, Repr, Inhabited

namespace Flags

/-- The flags at the start of a pattern. -/
def initial (ignoreCase : Bool) : Flags :=
  ⟨ignoreCase, false, false, false, true, false⟩

/-- Switches a flag. Ignoring spaces has done its work when a pattern has been read. -/
def set (f : Flags) : Flag × Bool → Flags
  | (.ignoreCase, on) => { f with ignoreCase := on }
  | (.multiLine, on) => { f with multiLine := on }
  | (.dotMatchesAll, on) => { f with dotMatchesAll := on }
  | (.swapGreed, on) => { f with swapGreed := on }
  | (.unicode, on) => { f with unicode := on }
  | (.carriageReturn, on) => { f with carriageReturn := on }
  | (.ignoreSpace, _) => f

/-- Applies settings. -/
def apply (f : Flags) (settings : Settings) : Flags :=
  settings.foldl Flags.set f

/-! ## Sets -/

/-- Closes a set under case variants, if case is ignored. -/
def fold (f : Flags) (set : CharSet) : CharSet :=
  if !f.ignoreCase then set else if f.unicode then .folded set else .foldedAscii set

/-- A set or its complement; complements need the Unicode flag. -/
def negate? (f : Flags) (negated : Bool) (set : CharSet) : Option CharSet :=
  if !negated then some set else if f.unicode then some (.complement set) else none

/-- The character of a literal; an octet beyond ASCII needs the Unicode flag. -/
def char? (f : Flags) (l : Literal) : Option Char :=
  if !f.unicode && l.isOctet && l.char.toNat ≥ 0x80 then none else some l.char

/-- A literal in brackets; without the Unicode flag it must be ASCII. -/
def setChar? (f : Flags) (l : Literal) : Option Char :=
  if !f.unicode && l.char.toNat ≥ 0x80 then none else some l.char

/-- A class with a letter. -/
def letterSet? (f : Flags) (kind : LetterClass) (negated : Bool) : Option CharSet :=
  let set : Option CharSet :=
    if f.unicode then
      match kind with
      | .digit => some .digit
      | .space => some .space
      | .word => some .word
    else
      match kind with
      | .digit => asciiClass? "digit"
      | .space => asciiClass? "space"
      | .word => asciiClass? "word"
  set.bind (f.negate? negated)

/-- A Unicode class. -/
def unicodeSet? (f : Flags) (name : ClassName) (negated : Bool) : Option CharSet :=
  if !f.unicode then none
  else
    let set := match name with
      | .name n => classOfName? n
      | .value property value => classOfValue? property value
    set.bind fun set => f.negate? negated (f.fold set)

/-- The set that stands in brackets. -/
def set? (f : Flags) : SetSyntax → Option CharSet
  | .literal l => (f.setChar? l).map .single
  | .range first last => do
    return .range (← f.setChar? first) (← f.setChar? last)
  | .ascii name negated => (asciiClass? name).bind fun set => f.negate? negated (f.fold set)
  | .letter kind negated => f.letterSet? kind negated
  | .unicode name negated => f.unicodeSet? name negated
  | .bracketed negated content => (f.set? content).bind fun set => f.negate? negated (f.fold set)
  | .union items => unionOf? items
  | .operation kind left right => do
    let a := f.fold (← f.set? left)
    let b := f.fold (← f.set? right)
    match kind with
    | .intersection => return .inter a b
    | .difference => return .diff a b
    | .symmetricDifference => return .symmetricDiff a b
where
  unionOf? : List SetSyntax → Option CharSet
    | [] => some .never
    | item :: rest => do
      return .union (← f.set? item) (← unionOf? rest)

/-! ## Items -/

/-- A literal outside brackets, with its case variants if case is ignored. -/
def literal? (f : Flags) (l : Literal) : Option Expr :=
  (f.char? l).map fun c =>
    if !f.ignoreCase then .chars (.single c)
    else if f.unicode then .chars (.ofList (variants c))
    else .chars (.ofList (asciiVariants c))

/-- The set of the dot: every character, or every one that ends no line. -/
def dot? (f : Flags) : Option Expr :=
  if !f.unicode then none
  else if f.dotMatchesAll then some (.chars .all)
  else if f.carriageReturn then some (.chars (.complement (.ofList ['\n', '\r'])))
  else some (.chars (.complement (.single '\n')))

/-- The place that an assertion asks for. -/
def look (f : Flags) : Assertion → Look
  | .lineStart => if f.multiLine then .lineStart f.carriageReturn else .textStart
  | .lineEnd => if f.multiLine then .lineEnd f.carriageReturn else .textEnd
  | .textStart => .textStart
  | .textEnd => .textEnd
  | .wordBoundary => .wordBoundary f.unicode
  | .notWordBoundary => .notWordBoundary f.unicode
  | .wordStart => .wordStart f.unicode
  | .wordEnd => .wordEnd f.unicode
  | .wordStartHalf => .wordStartHalf f.unicode
  | .wordEndHalf => .wordEndHalf f.unicode

/-- The meaning of an item, with the flags in effect after it. -/
def expr? (f : Flags) : Syntax → Option (Expr × Flags)
  | .empty => some (.empty, f)
  | .flags settings => some (.empty, f.apply settings)
  | .literal l => (f.literal? l).map (·, f)
  | .dot => f.dot?.map (·, f)
  | .assertion a => some (.look (f.look a), f)
  | .letter kind negated => (f.letterSet? kind negated).map fun set => (.chars set, f)
  | .unicode name negated => (f.unicodeSet? name negated).map fun set => (.chars set, f)
  | .bracketed negated content =>
    ((f.set? content).bind fun set => f.negate? negated (f.fold set)).map fun set =>
      (.chars set, f)
  | .repetition least most greedy item => do
    let (e, f) ← f.expr? item
    return (.repeated least most (greedy != f.swapGreed) e, f)
  | .group settings content => do
    let (e, _) ← (f.apply settings).expr? content
    return (e, f)
  | .alternation branches => do
    let (es, f) ← exprs? f branches
    return (.altAll es, f)
  | .concat items => do
    let (es, f) ← exprs? f items
    return (.seqAll es, f)
where
  exprs? (f : Flags) : List Syntax → Option (List Expr × Flags)
    | [] => some ([], f)
    | item :: rest => do
      let (e, f) ← f.expr? item
      let (es, f) ← exprs? f rest
      return (e :: es, f)

end Flags

end ArticleAudit.Pattern
