/-!
# Sets of code points

A set is a list of closed ranges in ascending order, written as text: bounds in hexadecimal, joined
by a dash where a range has more than one member, and separated by white space.
-/

set_option autoImplicit false

namespace ArticleAudit.Unicode

/-- Ascending, disjoint, closed ranges of code points. -/
structure Ranges where
  bounds : Array (Nat × Nat)
  deriving Inhabited, Repr

/-- The value of a hexadecimal digit. -/
def hexDigit? (c : Char) : Option Nat :=
  let n := c.toNat
  if '0'.toNat ≤ n && n ≤ '9'.toNat then some (n - '0'.toNat)
  else if 'a'.toNat ≤ n && n ≤ 'f'.toNat then some (n - 'a'.toNat + 10)
  else if 'A'.toNat ≤ n && n ≤ 'F'.toNat then some (n - 'A'.toNat + 10)
  else none

/-- The value of hexadecimal digits, most significant first. -/
def hexValue (cs : List Char) : Nat :=
  cs.foldl (fun n c => 16 * n + (hexDigit? c).getD 0) 0

namespace Ranges

/-- One range of the written form. -/
def readRange (cs : List Char) : Nat × Nat :=
  match cs.span (· != '-') with
  | (first, []) => (hexValue first, hexValue first)
  | (first, _ :: last) => (hexValue first, hexValue last)

/-- Reads the written form of a set. -/
def ofText (s : String) : Ranges :=
  let entries := s.toList.splitBy fun a b => a.isWhitespace == b.isWhitespace
  ⟨((entries.filter fun e => !e.all Char.isWhitespace).map readRange).toArray⟩

/-- Looks for a code point among the ranges from index `low` to before `high`. -/
def search (r : Ranges) (n low high : Nat) : Bool :=
  if _h : low < high then
    let mid := (low + high) / 2
    match r.bounds[mid]? with
    | none => false
    | some (first, last) =>
      if n < first then search r n low mid
      else if last < n then search r n (mid + 1) high
      else true
  else false
termination_by high - low

/-- The code point is in the set. -/
def contains (r : Ranges) (n : Nat) : Bool :=
  r.search n 0 r.bounds.size

end Ranges

end ArticleAudit.Unicode
