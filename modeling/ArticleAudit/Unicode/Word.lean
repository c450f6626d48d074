import ArticleAudit.Unicode.Category
import ArticleAudit.Unicode.Property

/-!
# Word characters and digits

A word character is alphabetic, a mark, a decimal digit, connector punctuation or a join control.
The letters and numbers are the alphabetic characters and all numerals.
-/

set_option autoImplicit false

namespace ArticleAudit.Unicode

/-- The code points of the category with the given name. -/
def category (name : String) : Ranges :=
  match categories.find? fun row => row.1.contains name with
  | some row => row.2
  | none => ⟨#[]⟩

/-- The decimal digits of all scripts. -/
def decimalDigits : Ranges :=
  category "nd"

/-- The sets whose union holds the word characters. -/
def wordSets : List Ranges :=
  [alphabetic, category "mn", category "mc", category "me", decimalDigits, category "pc",
    joinControl]

/-- The character is a decimal digit of some script. -/
def isDecimalDigit (c : Char) : Bool :=
  decimalDigits.contains c.toNat

/-- The character can be part of a word. -/
def isWord (c : Char) : Bool :=
  if c.toNat < 0x80 then c.isAlphanum || c == '_' else wordSets.any (·.contains c.toNat)

/-- The sets whose union holds the letters and numbers. -/
def alphanumericSets : List Ranges :=
  [alphabetic, decimalDigits, category "nl", category "no"]

/-- The character is a letter or a number. -/
def isAlphanumeric (c : Char) : Bool :=
  if c.toNat < 0x80 then c.isAlphanum else alphanumericSets.any (·.contains c.toNat)

end ArticleAudit.Unicode
