/-!
# The fewest digits that read back

A finite float stands for all reals that round to it: an interval around its value, with its ends
included when the significand is even. `shortest` answers the decimal with the fewest digits in that
interval, and of several the one nearest to the value. For each number of digits only the two
neighbours of the value on that decimal grid have to be tried. All arithmetic is exact.
-/

set_option autoImplicit false

namespace ArticleAudit.Decimal

/-- The number `digits * 10 ^ exponent`. -/
structure Scaled where
  digits : Nat
  exponent : Int
  deriving DecidableEq, Repr, Inhabited

/-- A positive quotient. -/
structure Ratio where
  num : Nat
  den : Nat
  deriving DecidableEq, Repr, Inhabited

namespace Ratio

/-- `num * 2 ^ shift` as a quotient. -/
def scale2 (num : Nat) (shift : Int) : Ratio :=
  if 0 ≤ shift then ⟨num * Nat.pow 2 shift.toNat, 1⟩ else ⟨num, Nat.pow 2 (-shift).toNat⟩

/-- A quotient divided by `10 ^ exponent`. -/
def unscale10 (r : Ratio) (exponent : Int) : Ratio :=
  if 0 ≤ exponent then ⟨r.num, r.den * Nat.pow 10 exponent.toNat⟩
  else ⟨r.num * Nat.pow 10 (-exponent).toNat, r.den⟩

/-- The number of decimal digits of a positive number. -/
def digitCount (n : Nat) : Nat :=
  (Nat.toDigits 10 n).length

/-- The exponent of the first digit: the greatest `e` with `10 ^ e` at most the quotient. -/
def firstExponent (r : Ratio) : Int :=
  let upper := Int.ofNat (digitCount r.num) - Int.ofNat (digitCount r.den)
  let u := r.unscale10 upper
  if u.den ≤ u.num then upper else upper - 1

end Ratio

/-- The reals that round to one float, in units of a quarter of its last place. -/
structure Interval where
  low : Nat
  value : Nat
  high : Nat
  closed : Bool
  unit : Int
  deriving Repr, Inhabited

/-- The interval of a finite positive float, from its bits without the sign. The gap below a power
of two is half as wide as the gap above it. -/
def Interval.ofBits (bits : Nat) : Interval :=
  let leading := Nat.pow 2 52
  let field := bits / leading
  let fraction := bits % leading
  let significand := if field == 0 then fraction else fraction + leading
  let power := Int.ofNat (if field == 0 then 1 else field) - 1075
  let lowGap := if fraction == 0 && field > 1 then 1 else 2
  ⟨4 * significand - lowGap, 4 * significand, 4 * significand + 2, significand % 2 == 0, power - 2⟩

namespace Interval

/-- The value as a quotient. -/
def ratio (i : Interval) : Ratio :=
  Ratio.scale2 i.value i.unit

/-- `digits * 10 ^ exponent` lies in the interval. -/
def contains (i : Interval) (digits : Nat) (exponent : Int) : Bool :=
  let low := (Ratio.scale2 i.low i.unit).unscale10 exponent
  let high := (Ratio.scale2 i.high i.unit).unscale10 exponent
  if i.closed then low.num ≤ digits * low.den && digits * high.den ≤ high.num
  else low.num < digits * low.den && digits * high.den < high.num

/-- The neighbour of the value on the grid of `10 ^ exponent` that lies in the interval; of two the
nearer one, and of two equally near ones the even one. -/
def onGrid? (i : Interval) (exponent : Int) : Option Nat :=
  let r := i.ratio.unscale10 exponent
  let below := r.num / r.den
  let rest := 2 * (r.num % r.den)
  let lowIn := i.contains below exponent
  let highIn := i.contains (below + 1) exponent
  if lowIn && highIn then
    if rest < r.den || (rest == r.den && below % 2 == 0) then some below else some (below + 1)
  else if lowIn then some below
  else if highIn then some (below + 1)
  else none

end Interval

/-- Drops trailing zeros, at most `fuel` of them. -/
def dropZeros : Nat → Scaled → Scaled
  | 0, d => d
  | fuel + 1, d =>
    if d.digits % 10 == 0 && d.digits != 0 then dropZeros fuel ⟨d.digits / 10, d.exponent + 1⟩
    else d

/-- The shortest decimal of a finite positive float, from its bits without the sign. -/
def shortest (bits : Nat) : Scaled :=
  let i := Interval.ofBits bits
  let first := i.ratio.firstExponent
  let grids := (List.range 17).map fun n => first - Int.ofNat n
  match grids.findSome? fun e => (i.onGrid? e).map fun digits => Scaled.mk digits e with
  | some d => dropZeros 20 d
  | none => ⟨0, 0⟩

end ArticleAudit.Decimal
