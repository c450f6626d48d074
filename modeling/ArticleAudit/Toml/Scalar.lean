import ArticleAudit.Decimal.Reading
import ArticleAudit.Toml.Value
import ArticleAudit.Unicode.Ranges

/-!
# Scalars of TOML

What is neither a string nor a collection is a word without blanks: a truth value, a number, or a
date or time. Underscores may stand between the digits of a number. Only a date may have a blank in
it, before its time.
-/

set_option autoImplicit false

namespace ArticleAudit.Toml

open ArticleAudit.Unicode

/-- A word of a fixed value. -/
def constant? (cs : List Char) : Option Value :=
  match String.ofList cs with
  | "true" => some (.boolean true)
  | "false" => some (.boolean false)
  | "inf" | "+inf" => some (.float (1.0 / 0.0))
  | "-inf" => some (.float (-1.0 / 0.0))
  | "nan" | "+nan" | "-nan" => some (.float (0.0 / 0.0))
  | _ => none

/-! ## Numbers -/

/-- Digits without the underscores between them. -/
def ungroup? (isDigit : Char → Bool) : List Char → Option (List Char)
  | [] => none
  | [c] => if isDigit c then some [c] else none
  | c :: '_' :: rest => if isDigit c then (ungroup? isDigit rest).map (c :: ·) else none
  | c :: rest => if isDigit c then (ungroup? isDigit rest).map (c :: ·) else none

/-- Takes off a sign. -/
def splitSign : List Char → Bool × List Char
  | '-' :: rest => (true, rest)
  | '+' :: rest => (false, rest)
  | cs => (false, cs)

/-- The digits of a whole number; only zero itself starts with a zero. -/
def wholeDigits? (cs : List Char) : Option (List Char) :=
  match ungroup? Char.isDigit cs with
  | some ('0' :: _ :: _) => none
  | digits => digits

/-- The character is a digit in a base. -/
def isDigitOf (base : Nat) (c : Char) : Bool :=
  ((hexDigit? c).map fun d => decide (d < base)).getD false

/-- The value of digits in a base. -/
def valueOf (base : Nat) (cs : List Char) : Nat :=
  cs.foldl (fun n c => base * n + (hexDigit? c).getD 0) 0

/-- A natural number that names its base. -/
def basedNat? : List Char → Option Nat
  | '0' :: 'x' :: rest => (ungroup? (isDigitOf 16) rest).map (valueOf 16)
  | '0' :: 'o' :: rest => (ungroup? (isDigitOf 8) rest).map (valueOf 8)
  | '0' :: 'b' :: rest => (ungroup? (isDigitOf 2) rest).map (valueOf 2)
  | _ => none

/-- A number in base ten, with an optional sign. -/
def decimalInt? (cs : List Char) : Option Int :=
  let (negative, rest) := splitSign cs
  (wholeDigits? rest).map fun digits =>
    let n := Int.ofNat (valueOf 10 digits)
    if negative then -n else n

/-- A whole number, which a word of 128 bits holds. -/
def integer? (cs : List Char) : Option Value :=
  match (basedNat? cs).map Int.ofNat <|> decimalInt? cs with
  | some n => if Decimal.fitsWord 128 n then some (.integer n) else none
  | none => none

/-- The digits of a fraction after its point; nothing where there is no point. -/
def fractionDigits? : List Char → Option (List Char)
  | [] => some []
  | '.' :: rest => ungroup? Char.isDigit rest
  | _ => none

/-- The value of an exponent after its mark. -/
def exponent? (cs : List Char) : Option Int :=
  let (negative, rest) := splitSign cs
  (ungroup? Char.isDigit rest).map fun digits =>
    let n := Int.ofNat (valueOf 10 digits)
    if negative then -n else n

/-- A mark before an exponent. -/
def isExponentMark (c : Char) : Bool :=
  c == 'e' || c == 'E'

/-- A number with a fraction or an exponent, not beyond all floats. -/
def float? (cs : List Char) : Option Value := do
  let (negative, rest) := splitSign cs
  let mantissa := rest.takeWhile fun c => !isExponentMark c
  let whole ← wholeDigits? (mantissa.takeWhile (· != '.'))
  let fraction ← fractionDigits? (mantissa.dropWhile (· != '.'))
  let exponent ← match rest.dropWhile (fun c => !isExponentMark c) with
    | [] => some 0
    | _ :: rest => exponent? rest
  let literal : Decimal.Literal :=
    ⟨negative, Decimal.natOfDigits (whole ++ fraction), exponent - Int.ofNat fraction.length⟩
  return .float (← literal.toFloat?)

/-! ## Dates and times -/

/-- Reads a number of a fixed count of digits. -/
def readFixed? (count : Nat) (cs : List Char) : Option (Nat × List Char) :=
  let digits := cs.take count
  if digits.length == count && digits.all Char.isDigit then
    some (valueOf 10 digits, cs.drop count)
  else none

/-- Passes a character. -/
def readMark? (mark : Char) : List Char → Option (List Char)
  | [] => none
  | c :: rest => if c == mark then some rest else none

/-- The year has a leap day. -/
def isLeapYear (year : Nat) : Bool :=
  year % 4 == 0 && (year % 100 != 0 || year % 400 == 0)

/-- The days of a month. -/
def daysOf (year month : Nat) : Nat :=
  if month == 2 then (if isLeapYear year then 29 else 28)
  else if [4, 6, 9, 11].contains month then 30
  else 31

/-- Reads a date of the calendar. -/
def readDate? (cs : List Char) : Option (List Char) := do
  let (year, cs) ← readFixed? 4 cs
  let (month, cs) ← readFixed? 2 (← readMark? '-' cs)
  let (day, cs) ← readFixed? 2 (← readMark? '-' cs)
  if 1 ≤ month && month ≤ 12 && 1 ≤ day && day ≤ daysOf year month then some cs else none

/-- Reads the fraction of a second, if there is a point. -/
def readSecondFraction? : List Char → Option (List Char)
  | '.' :: c :: rest => if c.isDigit then some (rest.dropWhile Char.isDigit) else none
  | '.' :: [] => none
  | cs => some cs

/-- Reads hours and minutes. -/
def readHourMinute? (cs : List Char) : Option (List Char) := do
  let (hour, cs) ← readFixed? 2 cs
  let (minute, cs) ← readFixed? 2 (← readMark? ':' cs)
  if hour ≤ 23 && minute ≤ 59 then some cs else none

/-- Reads a time of the day; seconds may be left out, and there are leap seconds. -/
def readTime? (cs : List Char) : Option (List Char) := do
  let cs ← readHourMinute? cs
  match cs with
  | ':' :: rest => do
    let (second, rest) ← readFixed? 2 rest
    if second ≤ 60 then readSecondFraction? rest else none
  | _ => some cs

/-- Reads the distance from universal time, if there is one. -/
def readOffset? : List Char → Option (List Char)
  | [] => some []
  | c :: rest =>
    if c == 'Z' || c == 'z' then some rest
    else if c == '+' || c == '-' then readHourMinute? rest
    else none

/-- Reads what follows a date: nothing, or a time after `T` or a blank. -/
def readTimeOfDate? : List Char → Option (List Char)
  | [] => some []
  | c :: rest =>
    if c == 'T' || c == 't' || c == ' ' then (readTime? rest).bind readOffset? else none

/-- A date, a time, or both. -/
def moment? (cs : List Char) : Option Value :=
  match (readDate? cs).bind readTimeOfDate? <|> readTime? cs with
  | some [] => some (.moment (String.ofList cs))
  | _ => none

/-! ## Words -/

/-- A character that words consist of. -/
def isWordChar (c : Char) : Bool :=
  c.isAlphanum || c == '_' || c == '+' || c == '-' || c == '.' || c == ':'

/-- The value of a word. -/
def scalarOf? (cs : List Char) : Option Value :=
  constant? cs <|> integer? cs <|> float? cs <|> moment? cs

/-- Takes off a word. A date and a digit after a blank are one word. -/
def splitWord (cs : List Char) : List Char × List Char :=
  let word := cs.takeWhile isWordChar
  let rest := cs.dropWhile isWordChar
  match rest with
  | ' ' :: c :: _ =>
    if (readDate? word) == some [] && c.isDigit then
      (word ++ ' ' :: rest.tail.takeWhile isWordChar, rest.tail.dropWhile isWordChar)
    else (word, rest)
  | _ => (word, rest)

/-- Reads a word. -/
def readScalar? (cs : List Char) : Option (Value × List Char) :=
  let (word, rest) := splitWord cs
  (scalarOf? word).map fun v => (v, rest)

end ArticleAudit.Toml
