/-!
# White space

Lines, fields and cells are trimmed by one rule: a character is blank when it has the Unicode
property `White_Space` (25 characters). This module holds that class and the trimming functions
on lists of characters.
-/

set_option autoImplicit false

namespace ArticleAudit.Text

/-- The Unicode property `White_Space`. -/
def isBlank (c : Char) : Bool :=
  let n := c.toNat
  (9 ≤ n && n ≤ 13) || n == 0x20 || n == 0x85 || n == 0xA0 || n == 0x1680 ||
    (0x2000 ≤ n && n ≤ 0x200A) || n == 0x2028 || n == 0x2029 || n == 0x202F ||
    n == 0x205F || n == 0x3000

/-- Space and tab, the only characters that indent a line or separate a key from its value. -/
def isIndent (c : Char) : Bool :=
  c == ' ' || c == '\t'

/-- The characters that end a line. -/
def isLineEnd (c : Char) : Bool :=
  c == '\r' || c == '\n'

/-- Drops the longest final run of elements that satisfy `p`. -/
def dropEndWhile {α : Type} (p : α → Bool) (cs : List α) : List α :=
  (cs.reverse.dropWhile p).reverse

/-- Drops leading white space. -/
def trimStart (cs : List Char) : List Char :=
  cs.dropWhile isBlank

/-- Drops trailing white space. -/
def trimEnd (cs : List Char) : List Char :=
  dropEndWhile isBlank cs

/-- Drops white space on both sides. -/
def trim (cs : List Char) : List Char :=
  trimEnd (trimStart cs)

/-- `trim` on strings. -/
def trimString (s : String) : String :=
  String.ofList (trim s.toList)

/-- Splits at runs of white space; no word is empty. -/
def words (cs : List Char) : List (List Char) :=
  (cs.splitBy fun a b => isBlank a == isBlank b).filter fun w => !w.all isBlank

theorem dropEndWhile_isPrefix {α : Type} (p : α → Bool) (cs : List α) :
    dropEndWhile p cs <+: cs := by
  have h : cs.reverse.dropWhile p <:+ cs.reverse := List.dropWhile_suffix p
  simpa [dropEndWhile] using List.reverse_prefix.mpr h

theorem trimEnd_isPrefix (cs : List Char) : trimEnd cs <+: cs :=
  dropEndWhile_isPrefix isBlank cs

theorem trimStart_isSuffix (cs : List Char) : trimStart cs <:+ cs :=
  List.dropWhile_suffix isBlank

end ArticleAudit.Text
