import ArticleAudit.Decimal.Shortest

/-!
# Writing floats

A float is written with its fewest digits, positionally when the exponent of its first digit lies
in the range of the format, and with an exponent otherwise. A positional whole number keeps `.0`.
-/

set_option autoImplicit false

namespace ArticleAudit.Decimal

/-- The decisions of a format: the exponents written positionally, the sign of a positive exponent,
the least number of exponent digits, and the texts of infinity and of no number. -/
structure Notation where
  leastFixed : Int
  mostFixed : Int
  plusSign : Bool
  exponentWidth : Nat
  infinity : String
  notANumber : String
  deriving DecidableEq, Repr, Inhabited

namespace Notation

/-- Digits with a point so that the first one has the exponent `first`. -/
def positional (digits : List Char) (first : Int) : List Char :=
  if first < 0 then "0.".toList ++ List.replicate ((-first).toNat - 1) '0' ++ digits
  else
    let whole := first.toNat + 1
    if digits.length ≤ whole then
      digits ++ List.replicate (whole - digits.length) '0' ++ ".0".toList
    else digits.take whole ++ '.' :: digits.drop whole

/-- Digits with one before the point, and an exponent. -/
def scientific (format : Notation) (digits : List Char) (first : Int) : List Char :=
  let mantissa := match digits with
    | d :: e :: rest => d :: '.' :: e :: rest
    | short => short
  let exponent := Nat.toDigits 10 first.natAbs
  let sign := if first < 0 then ['-'] else if format.plusSign then ['+'] else []
  mantissa ++ 'e' :: sign ++ List.replicate (format.exponentWidth - exponent.length) '0' ++ exponent

/-- Writes a decimal that is not zero. -/
def writeDecimal (format : Notation) (d : Scaled) : List Char :=
  let digits := Nat.toDigits 10 d.digits
  let first := d.exponent + Int.ofNat digits.length - 1
  if format.leastFixed ≤ first && first ≤ format.mostFixed then positional digits first
  else format.scientific digits first

/-- Writes a float. -/
def write (format : Notation) (x : Float) : String :=
  let bits := x.toBits.toNat
  let signBit := Nat.pow 2 63
  let magnitude := bits % signBit
  let sign := if bits ≥ signBit then "-" else ""
  if magnitude > 0x7FF0000000000000 then format.notANumber
  else if magnitude == 0x7FF0000000000000 then sign ++ format.infinity
  else if magnitude == 0 then sign ++ "0.0"
  else sign ++ String.ofList (format.writeDecimal (shortest magnitude))

end Notation

end ArticleAudit.Decimal
