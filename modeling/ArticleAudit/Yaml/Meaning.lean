import ArticleAudit.Decimal.Reading

/-!
# What a plain scalar means

A plain scalar is a null, a truth value, a number or a text. Digits after a leading zero are a text,
and a whole number too wide for 64 bits but not for 128 has no value at all (`Meaning.tooWide`).
-/

set_option autoImplicit false

namespace ArticleAudit.Yaml

/-- The meaning of a plain scalar. -/
inductive Meaning
  | null
  | bool (b : Bool)
  | int (n : Int)
  | tooWide
  | float (x : Float)
  | text
  deriving Repr, Inhabited

namespace Meaning

/-- The texts of a null that are not empty. -/
def isNull (s : String) : Bool :=
  ["null", "Null", "NULL", "~"].contains s

/-- A truth value. -/
def bool? (s : String) : Option Bool :=
  if ["true", "True", "TRUE"].contains s then some true
  else if ["false", "False", "FALSE"].contains s then some false
  else none

/-- Digits after a leading zero, with or without a sign. -/
def isPaddedDigits (cs : List Char) : Bool :=
  let digits := match cs with
    | '-' :: rest | '+' :: rest => rest
    | rest => rest
  match digits with
  | '0' :: rest => !rest.isEmpty && rest.all Char.isDigit
  | _ => false

/-- The value of a digit in a base of at most sixteen. -/
def digit? (base : Nat) (c : Char) : Option Nat :=
  let n :=
    if c.isDigit then some (c.toNat - '0'.toNat)
    else if 'a' ≤ c && c ≤ 'f' then some (c.toNat - 'a'.toNat + 10)
    else if 'A' ≤ c && c ≤ 'F' then some (c.toNat - 'A'.toNat + 10)
    else none
  n.filter (· < base)

/-- The value of a run of digits that is not empty. -/
def natural? (base : Nat) (cs : List Char) : Option Nat :=
  if cs.isEmpty then none
  else (cs.mapM (digit? base)).map fun digits => digits.foldl (fun n d => base * n + d) 0

/-- The value of digits after one of the marks of a base, or of decimal digits. -/
def magnitude? (cs : List Char) (isPadded : Bool) : Option Nat :=
  match cs with
  | '0' :: 'x' :: rest => natural? 16 rest
  | '0' :: 'o' :: rest => natural? 8 rest
  | '0' :: 'b' :: rest => natural? 2 rest
  | rest => if isPadded then none else natural? 10 rest

/-- The value of a whole number of any width. -/
def integer? (cs : List Char) : Option Int :=
  let isPadded := isPaddedDigits cs
  match cs with
  | '-' :: rest => (magnitude? rest isPadded).map fun n => -Int.ofNat n
  | '+' :: rest => (magnitude? rest isPadded).map Int.ofNat
  | rest => (magnitude? rest isPadded).map Int.ofNat

/-- A float: infinity, not a number, or a decimal that is not beyond all floats. -/
def float? (cs : List Char) : Option Float :=
  let s := String.ofList cs
  let unsigned := match cs with
    | '+' :: rest => rest
    | rest => rest
  if [".inf", ".Inf", ".INF"].contains (String.ofList unsigned) then some (1.0 / 0.0)
  else if ["-.inf", "-.Inf", "-.INF"].contains s then some (-1.0 / 0.0)
  else if [".nan", ".NaN", ".NAN"].contains s then some (0.0 / 0.0)
  else (Decimal.Literal.ofChars? cs).bind Decimal.Literal.toFloat?

/-- The meaning of a plain scalar. -/
def ofString (s : String) : Meaning :=
  let cs := s.toList
  if cs.isEmpty || isNull s then .null
  else
    match bool? s with
    | some b => .bool b
    | none =>
      match (integer? cs).filter (Decimal.fitsWord 128) with
      | some n => if Decimal.fitsWord 64 n then .int n else .tooWide
      | none =>
        if isPaddedDigits cs then .text
        else
          match float? cs with
          | some x => .float x
          | none => .text

end Meaning

end ArticleAudit.Yaml
