import ArticleAudit.Decimal.Notation
import ArticleAudit.Decimal.Reading

/-!
# JSON numbers

A number literal is kept as it is written until its value is asked for. A whole number of 64 bits is
an integer. Every other literal is a float: as many leading digits as 64 bits hold, multiplied or
divided by a power of ten, which is not always the float nearest to the decimal.
-/

set_option autoImplicit false

namespace ArticleAudit.Json

open ArticleAudit.Decimal

/-- A number as it is written. The exponent has a flag for a minus sign before its digits. -/
structure NumberText where
  negative : Bool
  whole : List Char
  fraction : List Char
  exponent : Option (Bool × List Char)
  deriving DecidableEq, Repr, Inhabited

/-- The value of a number. -/
inductive Number
  | int (n : Int)
  | float (x : Float)
  deriving Repr, Inhabited

/-- Floats are positional from five places after the point up to sixteen before it; an exponent has
a sign and at least two digits. -/
def floatFormat : Decimal.Notation :=
  ⟨-5, 15, true, 2, "inf", "nan"⟩

/-- The text of a number's value. -/
def Number.text : Number → String
  | .int n => toString n
  | .float x => floatFormat.write x

namespace NumberText

/-- The literal of a natural number. -/
def ofNat (n : Nat) : NumberText :=
  ⟨false, Nat.toDigits 10 n, [], none⟩

/-- The literal has neither fraction nor exponent. -/
def isWhole (t : NumberText) : Bool :=
  t.fraction.isEmpty && t.exponent.isNone

/-- Appends digits to a significand as long as a word of 64 bits holds it, and counts them. -/
def extend (significand count : Nat) : List Char → Nat × Nat
  | [] => (significand, count)
  | c :: rest =>
    let next := 10 * significand + (c.toNat - '0'.toNat)
    if fitsWord 64 next then extend next (count + 1) rest else (significand, count)

/-- A float times a power of ten, unless the product is beyond all floats. -/
def scale? (x : Float) (exponent : Int) : Option Float :=
  if exponent.natAbs ≤ 308 then
    let power := nearestFloat 1 exponent.natAbs
    if 0 ≤ exponent then
      if (x * power).isFinite then some (x * power) else none
    else some (x / power)
  else if x == 0.0 then some x
  else if 0 ≤ exponent then none
  else scale? (x / nearestFloat 1 308) (exponent + 308)
termination_by (-exponent).toNat
decreasing_by omega

/-- The value of an exponent. -/
def exponentValue : Option (Bool × List Char) → Int
  | none => 0
  | some (negative, digits) =>
    let n := Int.ofNat (natOfDigits digits)
    if negative then -n else n

/-- The float of a literal, unless it is beyond all floats. -/
def float? (t : NumberText) : Option Float :=
  let (significand, wholeCount) := extend 0 0 t.whole
  let (significand, fractionCount) := extend significand 0 t.fraction
  let shift := Int.ofNat (t.whole.length - wholeCount) - Int.ofNat fractionCount
  (scale? (Float.ofNat significand) (exponentValue t.exponent + shift)).map fun x =>
    if t.negative then -x else x

/-- The value of a literal, unless it is beyond all floats. -/
def number? (t : NumberText) : Option Number :=
  let n := natOfDigits t.whole
  if t.isWhole && !t.negative && fitsWord 64 n then some (.int n)
  else if t.isWhole && t.negative && 0 < n && fitsWord 64 (-n) then some (.int (-n))
  else t.float?.map .float

/-- The value of a literal that is a natural number below a bound. -/
def natBelow? (bound : Nat) (t : NumberText) : Option Nat :=
  let n := natOfDigits t.whole
  if t.isWhole && !t.negative && n < bound then some n else none

end NumberText

end ArticleAudit.Json
