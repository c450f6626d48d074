import ArticleAudit.Unicode.Category
import ArticleAudit.Unicode.Property

/-!
# Quoted text

Outlines and messages show a text between double quotes. The quote, the backslash and the controls
tab, line feed, carriage return and NUL have short escapes; combining marks and characters that
print nothing are written as `\u` with their code point in braces; all else stands as it is.
-/

set_option autoImplicit false

namespace ArticleAudit.Text

open ArticleAudit.Unicode

/-- The hexadecimal digit of a number below 16. -/
def hexDigitChar (n : Nat) : Char :=
  if n < 10 then Char.ofNat (48 + n) else Char.ofNat (87 + n)

/-- The hexadecimal digits of a number, small letters, no leading zeros. -/
def hexDigits (n : Nat) : List Char :=
  if n < 16 then [hexDigitChar n] else hexDigits (n / 16) ++ [hexDigitChar (n % 16)]
termination_by n

/-- The hexadecimal digits, with zeros in front up to `width`. -/
def hexPadded (width n : Nat) : List Char :=
  let digits := hexDigits n
  List.replicate (width - digits.length) '0' ++ digits

/-- The categories whose characters print nothing. -/
def unprintable : List String :=
  ["cc", "cf", "cs", "co", "cn", "zl", "zp", "zs"]

/-- The code points that print nothing, by category. -/
def unprintableSets : List Ranges :=
  (categories.filter fun row => row.1.any (unprintable.contains ·)).map (·.2)

/-- The character shows on paper; of the separators only the space does. -/
def isPrintable (c : Char) : Bool :=
  c == ' ' || !unprintableSets.any (·.contains c.toNat)

/-- One character of a quoted text. -/
def quoteChar (c : Char) : List Char :=
  if c == '"' then ['\\', '"']
  else if c == '\\' then ['\\', '\\']
  else if c == '\n' then ['\\', 'n']
  else if c == '\r' then ['\\', 'r']
  else if c == '\t' then ['\\', 't']
  else if c.toNat == 0 then ['\\', '0']
  else if graphemeExtend.contains c.toNat || !isPrintable c then
    ['\\', 'u', '\x7b'] ++ hexDigits c.toNat ++ ['\x7d']
  else [c]

/-- A text between double quotes, escaped where needed. -/
def quoted (cs : List Char) : List Char :=
  '"' :: cs.flatMap quoteChar ++ ['"']

/-- `quoted` on strings. -/
def quotedString (s : String) : String :=
  String.ofList (quoted s.toList)

end ArticleAudit.Text
