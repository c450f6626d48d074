/-!
# Reading decimals

A decimal text is a sign, digits with or without a point, and an exponent. It is read as the float
nearest to its value; where the value is too large for any float there is no answer. A whole number
is also asked whether a word of some bits holds it (`fitsWord`).
-/

set_option autoImplicit false

namespace ArticleAudit.Decimal

/-- A decimal taken apart: sign, digits without the point, and the power of ten. -/
structure Literal where
  negative : Bool
  digits : Nat
  exponent : Int
  deriving DecidableEq, Repr, Inhabited

/-- The value of decimal digits. -/
def natOfDigits (cs : List Char) : Nat :=
  cs.foldl (fun n c => 10 * n + (c.toNat - '0'.toNat)) 0

/-- Reads an exponent with an optional sign; nothing may follow it. -/
def exponentOf? (cs : List Char) : Option Int :=
  let (negative, digits) := match cs with
    | '-' :: rest => (true, rest)
    | '+' :: rest => (false, rest)
    | rest => (false, rest)
  if digits.isEmpty || !digits.all Char.isDigit then none
  else
    let n := Int.ofNat (natOfDigits digits)
    some (if negative then -n else n)

/-- Reads digits with at most one point, at least one digit among them, and an optional exponent
after `e` or `E`. -/
def magnitude? (cs : List Char) : Option (Nat × Int) :=
  let whole := cs.takeWhile Char.isDigit
  let rest := cs.dropWhile Char.isDigit
  let (fraction, rest) := match rest with
    | '.' :: rest => (rest.takeWhile Char.isDigit, rest.dropWhile Char.isDigit)
    | rest => ([], rest)
  if whole.isEmpty && fraction.isEmpty then none
  else
    let digits := natOfDigits (whole ++ fraction)
    let shift := Int.ofNat fraction.length
    match rest with
    | [] => some (digits, -shift)
    | c :: rest =>
      if c == 'e' || c == 'E' then (exponentOf? rest).map fun e => (digits, e - shift) else none

/-- Reads a decimal with an optional sign. -/
def Literal.ofChars? (cs : List Char) : Option Literal :=
  let (negative, rest) := match cs with
    | '-' :: rest => (true, rest)
    | '+' :: rest => (false, rest)
    | rest => (false, rest)
  (magnitude? rest).map fun (digits, exponent) => ⟨negative, digits, exponent⟩

/-- The nearest float to `digits * 10 ^ exponent`. Values beyond every float are infinite and those
below every float are zero, whatever the exponent. -/
def nearestFloat (digits : Nat) (exponent : Int) : Float :=
  let first := exponent + Int.ofNat (Nat.toDigits 10 digits).length
  if digits == 0 || first < -400 then 0.0
  else if first > 400 then 1.0 / 0.0
  else if 0 ≤ exponent then Float.ofScientific (digits * Nat.pow 10 exponent.toNat) false 0
  else Float.ofScientific digits true exponent.natAbs

/-- The nearest float of a decimal, unless the decimal is beyond all floats. -/
def Literal.toFloat? (l : Literal) : Option Float :=
  let x := nearestFloat l.digits l.exponent
  if x.isFinite then some (if l.negative then -x else x) else none

/-- A word of so many bits holds the number, with a sign or without. -/
def fitsWord (bits : Nat) : Int → Bool
  | .ofNat n => n < Nat.pow 2 bits
  | .negSucc n => n < Nat.pow 2 (bits - 1)

end ArticleAudit.Decimal
