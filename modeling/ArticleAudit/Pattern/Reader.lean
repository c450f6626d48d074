import ArticleAudit.Pattern.Syntax
import ArticleAudit.Text.Blank
import ArticleAudit.Unicode.Property
import ArticleAudit.Unicode.Ranges
import ArticleAudit.Unicode.Word

/-!
# Reading patterns

The reader takes a pattern text apart, or answers nothing where it is malformed: groups and classes
must be closed, repetitions need something to repeat, and there are neither references back nor
assertions about what stands around. Where spaces are ignored, so are comments to the line's end.
-/

set_option autoImplicit false

namespace ArticleAudit.Pattern

open ArticleAudit.Text ArticleAudit.Unicode

/-- The reader: the rest of the text, the group names seen, and whether spaces are ignored. -/
structure PatternReader where
  rest : List Char
  names : List (List Char)
  ignoresSpace : Bool
  deriving Repr, Inhabited

/-- A step of reading. -/
abbrev ReadPattern := StateT PatternReader Option

namespace ReadPattern

/-! ## Characters -/

/-- The characters ahead. -/
def ahead : ReadPattern (List Char) := do
  return (← get).rest

/-- The next character; there must be one. -/
def current : ReadPattern Char := do
  match (← get).rest with
  | [] => failure
  | c :: _ => return c

/-- The text ends here. -/
def atEnd : ReadPattern Bool := do
  return (← get).rest.isEmpty

/-- Continues with the given text. -/
def goto (rest : List Char) : ReadPattern Unit :=
  modify fun r => { r with rest }

/-- Passes the next character. -/
def bump : ReadPattern Unit :=
  modify fun r => { r with rest := r.rest.tail }

/-- What follows spaces and comments; `fuel` bounds their number. -/
def dropIgnored : Nat → List Char → List Char
  | 0, cs => cs
  | _, [] => []
  | fuel + 1, c :: rest =>
    if isBlank c then dropIgnored fuel rest
    else if c == '#' then dropIgnored fuel ((rest.dropWhile (· != '\n')).drop 1)
    else c :: rest

/-- What follows the ignored characters ahead. -/
def afterIgnored (r : PatternReader) (cs : List Char) : List Char :=
  if r.ignoresSpace then dropIgnored cs.length cs else cs

/-- Passes ignored characters. -/
def skipIgnored : ReadPattern Unit :=
  modify fun r => { r with rest := afterIgnored r r.rest }

/-- Passes the next character and ignored ones after it. -/
def bumpAndSkip : ReadPattern Unit := do
  bump
  skipIgnored

/-- Passes the given characters if they stand here. -/
def accept (word : String) : ReadPattern Bool := do
  match word.toList.isPrefixOf? (← get).rest with
  | some rest => goto rest; return true
  | none => return false

/-- Fails unless the condition holds. -/
def demand (condition : Bool) : ReadPattern Unit :=
  if condition then return else failure

/-- Passes the given character, which must stand here. -/
def expect (c : Char) : ReadPattern Unit := do
  demand ((← current) == c)
  bump

/-! ## Numbers and names -/

/-- Reads digits in a base, as many as there are. -/
def digits (isDigit : Char → Bool) : Nat → ReadPattern (List Char)
  | 0 => return []
  | fuel + 1 => do
    match (← get).rest with
    | c :: _ =>
      if isDigit c then
        bumpAndSkip
        return c :: (← digits isDigit fuel)
      else return []
    | [] => return []

/-- Reads a decimal number of 32 bits between white space. -/
def decimal : ReadPattern Nat := do
  modify fun r => { r with rest := r.rest.dropWhile isBlank }
  let cs ← digits Char.isDigit (← get).rest.length
  demand (!cs.isEmpty)
  modify fun r => { r with rest := afterIgnored r (r.rest.dropWhile isBlank) }
  let n := cs.foldl (fun n c => 10 * n + (c.toNat - '0'.toNat)) 0
  demand (n < UInt32.size)
  return n

/-- The character with a code point, if there is one. -/
def charOf (n : Nat) : ReadPattern Char :=
  if _h : n.isValidChar then return Char.ofNat n else failure

/-- Reads `count` hexadecimal digits. -/
def fixedDigits : Nat → ReadPattern (List Char)
  | 0 => return []
  | count + 1 => do
    let c ← current
    demand (hexDigit? c).isSome
    bumpAndSkip
    return c :: (← fixedDigits count)

/-- Reads a code point in braces, or one of `count` digits, after its letter. -/
def hexChar (count : Nat) : ReadPattern Literal := do
  bumpAndSkip
  if (← current) == '\x7b' then
    bumpAndSkip
    let cs ← digits (fun c => (hexDigit? c).isSome) (← get).rest.length
    demand (!cs.isEmpty)
    expect '\x7d'
    return ⟨← charOf (hexValue cs), false⟩
  else
    let cs ← fixedDigits count
    return ⟨← charOf (hexValue cs), count == 2⟩

/-- The characters of a group's name. -/
def isNameChar (isFirst : Bool) (c : Char) : Bool :=
  let n := c.toNat
  let isLetter := c == '_' || alphabetic.contains n
  if isFirst then isLetter
  else isLetter || c == '.' || c == '[' || c == ']' ||
    (["nd", "nl", "no"].any fun name => (category name).contains n)

/-- Reads a group's name and the bracket that ends it; each name is used once. -/
def groupName : ReadPattern Unit := do
  let cs ← ahead
  let name := cs.takeWhile (· != '>')
  demand (match name with
    | [] => false
    | c :: rest => isNameChar true c && rest.all (isNameChar false))
  goto (cs.dropWhile (· != '>'))
  expect '>'
  demand (!(← get).names.contains name)
  modify fun r => { r with names := name :: r.names }

/-! ## Flags -/

/-- The flag with a letter. -/
def flag? : Char → Option Flag
  | 'i' => some .ignoreCase
  | 'm' => some .multiLine
  | 's' => some .dotMatchesAll
  | 'U' => some .swapGreed
  | 'u' => some .unicode
  | 'R' => some .carriageReturn
  | 'x' => some .ignoreSpace
  | _ => none

/-- The settings in a text of letters, those after a minus sign switched off. Each flag is named
once, and at least one after the sign. -/
def settingsOf? : Bool → Settings → List Char → Option Settings
  | _, before, [] => some before.reverse
  | true, before, '-' :: rest =>
    if rest.isEmpty then none else settingsOf? false before rest
  | on, before, c :: rest =>
    (flag? c).bind fun flag =>
      if before.any fun setting => setting.1 == flag then none
      else settingsOf? on ((flag, on) :: before) rest

/-- Reads flags up to a colon or a closing parenthesis. -/
def settings : ReadPattern Settings := do
  let cs ← ahead
  let isFlagText (c : Char) : Bool := c != ':' && c != ')'
  match settingsOf? true [] (cs.takeWhile isFlagText) with
  | some settings =>
    goto (cs.dropWhile isFlagText)
    return settings
  | none => failure

/-- Ignores spaces from here on, or no longer, if the settings say so. -/
def applySpace (settings : Settings) : ReadPattern Unit :=
  match settings.lookup .ignoreSpace with
  | some on => modify fun r => { r with ignoresSpace := on }
  | none => return

/-! ## Escapes -/

/-- Characters with a meaning of their own. -/
def isMeta (c : Char) : Bool :=
  "\\.+*?()|[]\x7b\x7d^$#&-~".toList.contains c

/-- Characters that stand for themselves after a backslash. -/
def isEscapable (c : Char) : Bool :=
  isMeta c || (c.toNat < 0x80 && !c.isAlphanum && c != '<' && c != '>')

/-- The control characters that have a letter. -/
def controlChar? (c : Char) : Option Char :=
  [('a', '\x07'), ('f', '\x0c'), ('t', '\t'), ('n', '\n'), ('r', '\r'), ('v', '\x0b')].lookup c

/-- The class with a letter, and whether it is negated. -/
def letterClass? : Char → Option (LetterClass × Bool)
  | 'd' => some (.digit, false)
  | 'D' => some (.digit, true)
  | 's' => some (.space, false)
  | 'S' => some (.space, true)
  | 'w' => some (.word, false)
  | 'W' => some (.word, true)
  | _ => none

/-- Splits a name at the first place where `mark` stands. -/
def splitAt? (mark : List Char) : List Char → Option (List Char × List Char)
  | [] => none
  | c :: rest =>
    match mark.isPrefixOf? (c :: rest) with
    | some after => some ([], after)
    | none => (splitAt? mark rest).map fun (before, after) => (c :: before, after)

/-- The class that a text in braces names, and whether an inequality negates it. -/
def classNameOf (text : List Char) : ClassName × Bool :=
  match splitAt? ['!', '='] text with
  | some (property, value) => (.value property value, true)
  | none =>
    match splitAt? [':'] text with
    | some (property, value) => (.value property value, false)
    | none =>
      match splitAt? ['='] text with
      | some (property, value) => (.value property value, false)
      | none => (.name text, false)

/-- Reads characters up to a closing brace. -/
def upToBrace : Nat → ReadPattern (List Char)
  | 0 => failure
  | fuel + 1 => do
    let c ← current
    bumpAndSkip
    if c == '\x7d' then return [] else return c :: (← upToBrace fuel)

/-- Reads the name of a Unicode class after its letter. -/
def className : ReadPattern (ClassName × Bool) := do
  bumpAndSkip
  let c ← current
  if c == '\x7b' then
    bumpAndSkip
    let cs ← ahead
    demand (cs.contains '\x7d')
    return classNameOf (← upToBrace (cs.length + 1))
  else
    demand (c != '\\')
    bumpAndSkip
    return (.name [c], false)

/-- The assertion that a word in braces after `\b` names. -/
def wordAssertion? (name : List Char) : Option Assertion :=
  [("start", Assertion.wordStart), ("end", .wordEnd), ("start-half", .wordStartHalf),
    ("end-half", .wordEndHalf)].lookup (String.ofList name)

/-- Reads the rest of an assertion about words: braces that hold a word name another one, and others
belong to a repetition. -/
def wordBoundary : ReadPattern Assertion := do
  let cs ← ahead
  match cs with
  | '\x7b' :: _ =>
    let isWordChar (c : Char) : Bool := c.isAlpha || c == '-'
    bumpAndSkip
    if isWordChar (← current) then
      let name ← digits isWordChar (← get).rest.length
      expect '\x7d'
      match wordAssertion? name with
      | some a => return a
      | none => failure
    else
      goto cs
      return .wordBoundary
  | _ => return .wordBoundary

/-- Reads an escape after its backslash. -/
def escape : ReadPattern Syntax := do
  bump
  let c ← current
  if c == 'x' then return .literal (← hexChar 2)
  else if c == 'u' then return .literal (← hexChar 4)
  else if c == 'U' then return .literal (← hexChar 8)
  else if c == 'p' || c == 'P' then
    let (name, differs) ← className
    return .unicode name ((c == 'P') != differs)
  else
    bump
    if isEscapable c then return .literal ⟨c, false⟩
    match letterClass? c, controlChar? c with
    | some (kind, negated), _ => return .letter kind negated
    | none, some control => return .literal ⟨control, false⟩
    | none, none =>
      match c with
      | 'A' => return .assertion .textStart
      | 'z' => return .assertion .textEnd
      | 'b' => return .assertion (← wordBoundary)
      | 'B' => return .assertion .notWordBoundary
      | '<' => return .assertion .wordStart
      | '>' => return .assertion .wordEnd
      | _ => failure

/-! ## Classes in brackets -/

/-- One item that may stand in brackets, or start a range there. -/
def setItem : ReadPattern Syntax := do
  let c ← current
  if c == '\\' then escape
  else
    bump
    return .literal ⟨c, false⟩

/-- An item as a set. -/
def asSet : Syntax → ReadPattern SetSyntax
  | .literal l => return .literal l
  | .letter kind negated => return .letter kind negated
  | .unicode name negated => return .unicode name negated
  | _ => failure

/-- An item as the end of a range. -/
def asLiteral : Syntax → ReadPattern Literal
  | .literal l => return l
  | _ => failure

/-- The character after the next one, past ignored ones. -/
def peekSkipping : ReadPattern (Option Char) := do
  let r ← get
  return (afterIgnored r r.rest.tail).head?

/-- Reads an item or a range. -/
def setRange : ReadPattern SetSyntax := do
  let first ← setItem
  skipIgnored
  let after ← peekSkipping
  if (← current) != '-' || after == some ']' || after == some '-' then asSet first
  else
    bumpAndSkip
    demand !(← atEnd)
    let last ← setItem
    let first ← asLiteral first
    let last ← asLiteral last
    demand (first.char ≤ last.char)
    return .range first last

/-- A named class of ASCII characters, in brackets and colons. -/
def asciiSet? (known : String → Bool) (cs : List Char) : Option (SetSyntax × List Char) :=
  match cs with
  | '[' :: ':' :: body =>
    let (negated, body) := match body with
      | '^' :: rest => (true, rest)
      | rest => (false, rest)
    let name := String.ofList (body.takeWhile (· != ':'))
    match body.dropWhile (· != ':') with
    | ':' :: ']' :: rest => if known name then some (.ascii name negated, rest) else none
    | _ => none
  | _ => none

/-- The names of the classes of ASCII characters. -/
def asciiNames : List String :=
  ["alnum", "alpha", "ascii", "blank", "cntrl", "digit", "graph", "lower", "print", "punct",
    "space", "upper", "word", "xdigit"]

/-- Reads minus signs that stand first in brackets. -/
def leadingDashes : Nat → ReadPattern (List SetSyntax)
  | 0 => return []
  | fuel + 1 => do
    if (← current) == '-' then
      bumpAndSkip
      return .literal ⟨'-', false⟩ :: (← leadingDashes fuel)
    else return []

/-- The items read, the latest first, as the right side of the operation before them. -/
def closeSet (left : Option (SetOperation × SetSyntax)) (items : List SetSyntax) : SetSyntax :=
  let right := SetSyntax.ofItems items.reverse
  match left with
  | some (kind, left) => .operation kind left right
  | none => right

mutual

/-- Reads a class from its bracket on. -/
def bracketed : Nat → ReadPattern (Bool × SetSyntax)
  | 0 => failure
  | fuel + 1 => do
    bumpAndSkip
    let negated := (← current) == '^'
    if negated then bumpAndSkip
    let dashes ← leadingDashes fuel
    if dashes.isEmpty && (← current) == ']' then
      bumpAndSkip
      discard current
      return (negated, ← setItems fuel none [.literal ⟨']', false⟩])
    else return (negated, ← setItems fuel none dashes.reverse)

/-- Reads the items of a class up to its end. -/
def setItems : Nat → Option (SetOperation × SetSyntax) → List SetSyntax → ReadPattern SetSyntax
  | 0, _, _ => failure
  | fuel + 1, left, items => do
    skipIgnored
    let cs ← ahead
    match cs with
    | [] => failure
    | '[' :: _ =>
      match asciiSet? asciiNames.contains cs with
      | some (item, rest) =>
        goto rest
        setItems fuel left (item :: items)
      | none =>
        let (negated, content) ← bracketed fuel
        setItems fuel left (.bracketed negated content :: items)
    | ']' :: rest =>
      goto rest
      return closeSet left items
    | '&' :: '&' :: rest =>
      goto rest
      setItems fuel (some (.intersection, closeSet left items)) []
    | '-' :: '-' :: rest =>
      goto rest
      setItems fuel (some (.difference, closeSet left items)) []
    | '~' :: '~' :: rest =>
      goto rest
      setItems fuel (some (.symmetricDifference, closeSet left items)) []
    | _ => setItems fuel left ((← setRange) :: items)

end

/-! ## Repetitions -/

/-- The last item may be repeated. -/
def isRepeatable : Syntax → Bool
  | .empty | .flags _ => false
  | _ => true

/-- Passes a question mark after a repetition and says whether there was none. -/
def greed : ReadPattern Bool := do
  return !(← accept "?")

/-- Reads the counts of a repetition after the opening brace. -/
def counts : ReadPattern (Nat × Option Nat) := do
  bumpAndSkip
  let least ← decimal
  if (← current) == ',' then
    bumpAndSkip
    if (← current) == '\x7d' then return (least, none)
    else
      let most ← decimal
      demand (least ≤ most)
      return (least, some most)
  else return (least, some least)

/-- Applies a repetition to the latest item. -/
def repeatLast (items : List Syntax) (least : Nat) (most : Option Nat) (greedy : Bool) :
    ReadPattern (List Syntax) :=
  match items with
  | item :: before =>
    if isRepeatable item then return .repetition least most greedy item :: before else failure
  | [] => failure

/-! ## Patterns -/

/-- The start of an assertion about what stands around. -/
def isLookAround (cs : List Char) : Bool :=
  ["?=", "?!", "?<=", "?<!"].any fun mark => mark.toList.isPrefixOf cs

mutual

/-- Reads branches up to a closing parenthesis or the end. -/
def branches : Nat → List Syntax → ReadPattern Syntax
  | 0, _ => failure
  | fuel + 1, before => do
    let items ← sequence fuel []
    let branch := Syntax.ofItems items.reverse
    match ← ahead with
    | '|' :: rest =>
      goto rest
      branches fuel (branch :: before)
    | _ => return .ofBranches (branch :: before).reverse

/-- Reads the items of a branch, the latest first. -/
def sequence : Nat → List Syntax → ReadPattern (List Syntax)
  | 0, _ => failure
  | fuel + 1, items => do
    skipIgnored
    match ← ahead with
    | [] | '|' :: _ | ')' :: _ => return items
    | '(' :: _ => sequence fuel ((← group fuel) :: items)
    | '[' :: cs =>
      let (negated, content) ← bracketed (2 * cs.length + 4)
      sequence fuel (.bracketed negated content :: items)
    | '?' :: rest =>
      goto rest
      sequence fuel (← repeatLast items 0 (some 1) (← greed))
    | '*' :: rest =>
      goto rest
      sequence fuel (← repeatLast items 0 none (← greed))
    | '+' :: rest =>
      goto rest
      sequence fuel (← repeatLast items 1 none (← greed))
    | '\x7b' :: _ =>
      let (least, most) ← counts
      demand ((← current) == '\x7d')
      bumpAndSkip
      sequence fuel (← repeatLast items least most (← greed))
    | '\\' :: _ => sequence fuel ((← escape) :: items)
    | '.' :: rest =>
      goto rest
      sequence fuel (.dot :: items)
    | '^' :: rest =>
      goto rest
      sequence fuel (.assertion .lineStart :: items)
    | '$' :: rest =>
      goto rest
      sequence fuel (.assertion .lineEnd :: items)
    | c :: rest =>
      goto rest
      sequence fuel (.literal ⟨c, false⟩ :: items)

/-- Reads a group, or flags for the rest of the group around them. -/
def group : Nat → ReadPattern Syntax
  | 0 => failure
  | fuel + 1 => do
    bumpAndSkip
    demand (!isLookAround (← ahead))
    if (← accept "?P<") || (← accept "?<") then
      groupName
      groupBody fuel []
    else if ← accept "?" then
      let flags ← settings
      let stop ← current
      bump
      if stop == ')' then
        demand (!flags.isEmpty)
        applySpace flags
        return .flags flags
      else groupBody fuel flags
    else groupBody fuel []

/-- Reads the content of a group and its closing parenthesis. -/
def groupBody : Nat → Settings → ReadPattern Syntax
  | 0, _ => failure
  | fuel + 1, flags => do
    let outside := (← get).ignoresSpace
    applySpace flags
    let content ← branches fuel []
    expect ')'
    modify fun r => { r with ignoresSpace := outside }
    return .group flags content

end

end ReadPattern

/-- Collections nest at most this deep. -/
def maxDepth : Nat := 250

/-- Reads a pattern text. -/
def Syntax.ofChars? (cs : List Char) : Option Syntax := do
  let (s, r) ← (ReadPattern.branches (4 * cs.length + 8) []).run ⟨cs, [], false⟩
  if r.rest.isEmpty && s.depth ≤ maxDepth then return s else none

end ArticleAudit.Pattern
