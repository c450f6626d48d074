import ArticleAudit.Text.Blank
import ArticleAudit.Unicode.CaseTable
import ArticleAudit.Unicode.Script
import ArticleAudit.Unicode.Word

/-!
# Sets of characters

A class of a pattern is a set built from ranges and properties by the operations of sets. Membership
(`CharSet.contains`) is the meaning; the size of a set's list of ranges is only estimated.
-/

set_option autoImplicit false

namespace ArticleAudit.Pattern

open ArticleAudit.Unicode

/-- A set of characters. -/
inductive CharSet
  | range (first last : Char)
  | points (ranges : Ranges)
  | word
  | digit
  | space
  | never
  | union (a b : CharSet)
  | inter (a b : CharSet)
  | diff (a b : CharSet)
  | complement (a : CharSet)
  | folded (a : CharSet)
  | foldedAscii (a : CharSet)
  deriving Repr, Inhabited

namespace CharSet

/-- The character is in the set. -/
def contains : CharSet → Char → Bool
  | .range first last, c => first ≤ c && c ≤ last
  | .points ranges, c => ranges.contains c.toNat
  | .word, c => isWord c
  | .digit, c => isDecimalDigit c
  | .space, c => Text.isBlank c
  | .never, _ => false
  | .union a b, c => a.contains c || b.contains c
  | .inter a b, c => a.contains c && b.contains c
  | .diff a b, c => a.contains c && !b.contains c
  | .complement a, c => !a.contains c
  | .folded a, c => (variants c).any fun v => a.contains v
  | .foldedAscii a, c => (asciiVariants c).any fun v => a.contains v

/-- One character. -/
def single (c : Char) : CharSet :=
  .range c c

/-- Some characters. -/
def ofList (cs : List Char) : CharSet :=
  cs.foldl (fun set c => .union set (.single c)) .never

/-- The union of ranges. -/
def ofRanges (ranges : List (Char × Char)) : CharSet :=
  ranges.foldl (fun set (first, last) => .union set (.range first last)) .never

/-- The characters in one of two sets only. -/
def symmetricDiff (a b : CharSet) : CharSet :=
  .union (.diff a b) (.diff b a)

/-- All characters. -/
def all : CharSet :=
  .complement .never

/-- About how many ranges a set has. -/
def rangeCount : CharSet → Nat
  | .range .. => 1
  | .points ranges => ranges.bounds.size
  | .word => 770
  | .digit => 70
  | .space => 10
  | .never => 0
  | .union a b | .inter a b | .diff a b => a.rangeCount + b.rangeCount
  | .complement a => a.rangeCount + 1
  | .folded a | .foldedAscii a => 2 * a.rangeCount

/-- The set has ASCII characters alone, as far as its form shows. -/
def isAscii : CharSet → Bool
  | .range _ last => last.toNat < 0x80
  | .points _ | .word | .digit | .space | .complement _ | .folded _ => false
  | .never => true
  | .union a b => a.isAscii && b.isAscii
  | .inter a b => a.isAscii || b.isAscii
  | .diff a _ => a.isAscii
  | .foldedAscii a => a.isAscii

end CharSet

/-! ## ASCII classes -/

/-- The named classes of ASCII characters. -/
def asciiClasses : List (String × List (Char × Char)) :=
  [("alnum", [('0', '9'), ('A', 'Z'), ('a', 'z')]),
   ("alpha", [('A', 'Z'), ('a', 'z')]),
   ("ascii", [('\x00', '\x7f')]),
   ("blank", [('\t', '\t'), (' ', ' ')]),
   ("cntrl", [('\x00', '\x1f'), ('\x7f', '\x7f')]),
   ("digit", [('0', '9')]),
   ("graph", [('!', '~')]),
   ("lower", [('a', 'z')]),
   ("print", [(' ', '~')]),
   ("punct", [('!', '/'), (':', '@'), ('[', '\x60'), ('\x7b', '~')]),
   ("space", [('\t', '\r'), (' ', ' ')]),
   ("upper", [('A', 'Z')]),
   ("word", [('0', '9'), ('A', 'Z'), ('_', '_'), ('a', 'z')]),
   ("xdigit", [('0', '9'), ('A', 'F'), ('a', 'f')])]

/-- A named class of ASCII characters. -/
def asciiClass? (name : String) : Option CharSet :=
  (asciiClasses.lookup name).map CharSet.ofRanges

/-! ## Unicode classes -/

/-- The groups of general categories with their names. -/
def categoryGroups : List (List String × List String) :=
  [(["lc", "casedletter"], ["lu", "ll", "lt"]),
   (["l", "letter"], ["lu", "ll", "lt", "lm", "lo"]),
   (["m", "mark", "combiningmark"], ["mn", "mc", "me"]),
   (["n", "number"], ["nd", "nl", "no"]),
   (["p", "punct", "punctuation"], ["pc", "pd", "ps", "pe", "pi", "pf", "po"]),
   (["s", "symbol"], ["sm", "sc", "sk", "so"]),
   (["z", "separator"], ["zs", "zl", "zp"]),
   (["c", "other"], ["cc", "cf", "cs", "co", "cn"])]

/-- The union of the categories with the given names. -/
def categoryUnion (names : List String) : CharSet :=
  names.foldl (fun set name => .union set (.points (category name))) .never

/-- A general category or group of categories. -/
def categoryClass? (name : String) : Option CharSet :=
  match categoryGroups.find? fun row => row.1.contains name with
  | some row => some (categoryUnion row.2)
  | none =>
    if name == "any" then some .all
    else if name == "assigned" then some (.complement (.points (category "cn")))
    else if name == "ascii" then some (.range '\x00' '\x7f')
    else (categories.find? fun row => row.1.contains name).map fun row => .points row.2

/-- A script. -/
def scriptClass? (name : String) : Option CharSet :=
  (scripts.find? fun row => row.1.contains name).map fun row => .points row.2

/-- The properties with their names. -/
def properties : List (List String × CharSet) :=
  [(["alpha", "alphabetic"], .points alphabetic),
   (["lower", "lowercase"], .points lowercase),
   (["upper", "uppercase"], .points uppercase),
   (["cased"], .points cased),
   (["ci", "caseignorable"], .points caseIgnorable),
   (["grext", "graphemeextend"], .points graphemeExtend),
   (["joinc", "joincontrol"], .points joinControl),
   (["space", "wspace", "whitespace"], .space)]

/-- A property. -/
def propertyClass? (name : String) : Option CharSet :=
  (properties.find? fun row => row.1.contains name).map (·.2)

/-- A name without its separators and letter case, and without `is` before it. -/
def looseName (name : List Char) : String :=
  let (hasIs, body) := match name with
    | a :: b :: rest => if a.toLower == 'i' && b.toLower == 's' then (true, rest) else (false, name)
    | short => (false, short)
  let kept := body.filter fun c => c.toNat < 0x80 && !(c == ' ' || c == '_' || c == '-')
  let loose := String.ofList (kept.map Char.toLower)
  if hasIs && loose == "c" then "isc" else loose

/-- The class of a name: a property, a category or a script. -/
def classOfName? (name : List Char) : Option CharSet :=
  let loose := looseName name
  ((propertyClass? loose).orElse fun _ => categoryClass? loose).orElse fun _ => scriptClass? loose

/-- The class of a value of a property. -/
def classOfValue? (property value : List Char) : Option CharSet :=
  let property := looseName property
  let value := looseName value
  if ["gc", "generalcategory"].contains property then categoryClass? value
  else if ["sc", "script", "scx", "scriptextensions"].contains property then scriptClass? value
  else none

end ArticleAudit.Pattern
