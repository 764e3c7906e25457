/-!
# Decimal numerals

Whole numbers as ASCII digits with an optional sign. Leading zeros and a plus sign are read but
never written.
-/

namespace QuadIndex.Numeral

/-- The number that digits write, whatever their count. -/
def value (ds : List Char) : Nat := ds.foldl (fun n c => 10 * n + (c.toNat - '0'.toNat)) 0

/-- The number written by one or more digits. -/
def nat? (cs : List Char) : Option Nat :=
  if cs ≠ [] ∧ cs.all Char.isDigit then some (value cs) else none

/-- A leading sign, true for a minus, and what follows it. -/
def sign : List Char → Bool × List Char
  | '-' :: cs => (true, cs)
  | '+' :: cs => (false, cs)
  | cs => (false, cs)

/-- The number written by digits after an optional sign. -/
def int? (cs : List Char) : Option Int :=
  let (negative, ds) := sign cs
  (nat? ds).map fun n => if negative then -(n : Int) else n

/-- The smallest signed 64-bit number. -/
def minInt64 : Int := -2 ^ 63

/-- The largest signed 64-bit number. -/
def maxInt64 : Int := 2 ^ 63 - 1

/-- The signed 64-bit number that a text writes. -/
def int64? (s : String) : Option Int :=
  (int? s.toList).filter fun n => decide (minInt64 ≤ n ∧ n ≤ maxInt64)

/-- The digits of a number, with a minus where it is negative. -/
def ofInt (n : Int) : String :=
  let digits := Nat.toDigits 10 n.natAbs
  String.ofList (if n < 0 then '-' :: digits else digits)

end QuadIndex.Numeral
