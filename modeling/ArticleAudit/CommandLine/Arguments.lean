import ArticleAudit.Settings.Basic

/-!
# Arguments of the command line

A run takes at most one document, and options before or after it. An option of one letter may share
its word with flags before it and with its value after it; a long one has its value behind an equals
sign or in the next word. Nothing may be given twice, and two hyphens end the options.
-/

set_option autoImplicit false

namespace ArticleAudit

/-- The arguments of a run. -/
structure Arguments where
  file? : Option String
  rules? : Option String
  ruleSet? : Option String
  strict : Bool
  verbose : Bool
  initConfig : Bool
  deriving DecidableEq, Repr, Inhabited

/-- An option of the command line. -/
inductive CommandOption
  | rules
  | ruleSet
  | strict
  | verbose
  | initConfig
  deriving DecidableEq, Repr, Inhabited

namespace CommandOption

/-- The option has a value. -/
def takesValue : CommandOption → Bool
  | .rules | .ruleSet => true
  | .strict | .verbose | .initConfig => false

/-- The word of an option. -/
def longName : CommandOption → String
  | .rules => "rules"
  | .ruleSet => "rule-set"
  | .strict => "strict"
  | .verbose => "verbose"
  | .initConfig => "init-config"

/-- The letter of an option. -/
def letter? : CommandOption → Option Char
  | .rules => some 'r'
  | .verbose => some 'v'
  | .ruleSet | .strict | .initConfig => none

/-- All options. -/
def all : List CommandOption :=
  [.rules, .ruleSet, .strict, .verbose, .initConfig]

/-- The option of a word. -/
def ofLongName? (name : String) : Option CommandOption :=
  all.find? fun option => option.longName == name

/-- The option of a letter. -/
def ofLetter? (c : Char) : Option CommandOption :=
  all.find? fun option => option.letter? == some c

end CommandOption

/-- What is given in words: an option without or with its value, or the document. -/
inductive Given
  | flag (option : CommandOption)
  | value (option : CommandOption) (text : String)
  | file (path : String)
  deriving DecidableEq, Repr, Inhabited

namespace Arguments

/-- Nothing is given. -/
def empty : Arguments :=
  ⟨none, none, none, false, false, false⟩

/-! ## Words -/

/-- Splits a word at its first equals sign. -/
def splitValue (cs : List Char) : List Char × Option (List Char) :=
  match cs.dropWhile (· != '=') with
  | [] => (cs, none)
  | _ :: value => (cs.takeWhile (· != '='), some value)

/-- A word that may be a value of its own: it does not start with a hyphen, or it is one. -/
def isPlain (word : String) : Bool :=
  word.toList.head? != some '-' || word == "-"

/-- Gives an option its value: the attached one, or the next word. -/
def giveValue (option : CommandOption) (attached : Option (List Char)) (rest : List String) :
    Option (Given × List String) :=
  match attached, rest with
  | some value, _ => some (.value option (String.ofList value), rest)
  | none, word :: rest => if isPlain word then some (.value option word, rest) else none
  | none, [] => none

/-- Reads a word after its two hyphens. -/
def readLong (cs : List Char) (rest : List String) : Option (Given × List String) := do
  let (name, attached) := splitValue cs
  let option ← CommandOption.ofLongName? (String.ofList name)
  if option.takesValue then giveValue option attached rest
  else if attached.isNone then some (.flag option, rest)
  else none

/-- The value that follows a letter in its word. -/
def attachedValue? : List Char → Option (List Char)
  | [] => none
  | '=' :: rest => some rest
  | cs => some cs

/-- Reads the letters of a word after its hyphen. -/
def readLetters : List Char → List String → Option (List Given × List String)
  | [], rest => some ([], rest)
  | c :: cs, rest => do
    let option ← CommandOption.ofLetter? c
    if option.takesValue then
      let (given, rest) ← giveValue option (attachedValue? cs) rest
      return ([given], rest)
    else
      let (givens, rest) ← readLetters cs rest
      return (.flag option :: givens, rest)

/-- Reads words up to the end of the options; `fuel` bounds their number. -/
def readWords : Nat → List String → Option (List Given)
  | 0, _ => none
  | _, [] => some []
  | fuel + 1, word :: rest =>
    match word.toList with
    | ['-', '-'] => some (rest.map .file)
    | '-' :: '-' :: cs => do
      let (given, rest) ← readLong cs rest
      return given :: (← readWords fuel rest)
    | '-' :: c :: cs => do
      let (givens, rest) ← readLetters (c :: cs) rest
      return givens ++ (← readWords fuel rest)
    | _ => do return .file word :: (← readWords fuel rest)

/-! ## Arguments -/

/-- Takes in what is given; nothing may be given twice, and a path is not empty. -/
def take? (a : Arguments) : Given → Option Arguments
  | .file path =>
    if a.file?.isNone && path != "" then some { a with file? := some path } else none
  | .value .rules path =>
    if a.rules?.isNone && path != "" then some { a with rules? := some path } else none
  | .value .ruleSet name =>
    if a.ruleSet?.isNone then some { a with ruleSet? := some name } else none
  | .flag .strict => if a.strict then none else some { a with strict := true }
  | .flag .verbose => if a.verbose then none else some { a with verbose := true }
  | .flag .initConfig => if a.initConfig then none else some { a with initConfig := true }
  | .value _ _ | .flag _ => none

/-- Reads the words of a command line; nothing where they are not used as they should be. -/
def ofWords? (words : List String) : Option Arguments := do
  (← readWords (words.length + 1) words).foldlM take? empty

/-- Lays the arguments over settings. -/
def settings (a : Arguments) (s : Settings) : Settings :=
  ⟨a.rules? <|> s.rulesPath?, a.ruleSet?.getD s.ruleSet, a.strict || s.strict,
    a.verbose || s.verbose⟩

end Arguments

end ArticleAudit
