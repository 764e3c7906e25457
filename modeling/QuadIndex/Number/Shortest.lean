import QuadIndex.Number.Binary64
import QuadIndex.Number.Numeral

/-!
# Decimal text of binary floating-point numbers

A finite word is written as the decimal with the fewest digits that reads back to it: of the points
`d · 10 ^ k` that read back, those on the coarsest grid `k`, and there the one nearest to the number.
Between two at the same distance the larger is taken. The text is positional, without an exponent.
-/

namespace QuadIndex.Binary64

/-- The word at the grid point `d · 10 ^ k` of its own sign is `x`. -/
def readsBack (x : Binary64) (k : Int) (d : Nat) : Bool :=
  (ofDecimal x.negative d k).magnitude == x.magnitude

/-- Of the two grid points around the number, the nearest that reads back. -/
def onGrid? (x : Binary64) (k : Int) : Option Nat :=
  let n := x.units * 10 ^ (-k).toNat
  let d := 2 ^ 1074 * 10 ^ k.toNat
  let below := n / d
  let above := below + 1
  if x.readsBack k below && (2 * (n % d) < d || !x.readsBack k above) then some below
  else if x.readsBack k above then some above
  else none

/-- A grid with no point but zero up to the number. -/
def coarsest (x : Binary64) : Int := (Nat.log2 x.units - 1073 : Int) * 30103 / 100000 + 2

/-- The coarsest grid with a point that reads back, and that point. The number itself lies on the
grid of 10⁻¹⁰⁷⁴. -/
def shortest? (x : Binary64) : Option (Nat × Int) :=
  (List.range (x.coarsest + 1075).toNat).findSome? fun i : Nat =>
    let k := x.coarsest - (i : Int)
    (x.onGrid? k).map fun d => (d, k)

/-- The decimal `d · 10 ^ k` without an exponent. -/
def positional (d : Nat) (k : Int) : List Char :=
  let digits := Nat.toDigits 10 d
  if 0 ≤ k then digits ++ List.replicate k.toNat '0'
  else
    let places := (-k).toNat
    let padded := List.replicate (places + 1 - digits.length) '0' ++ digits
    padded.take (padded.length - places) ++ '.' :: padded.drop (padded.length - places)

/-- The text of a word. -/
def toText (x : Binary64) : String :=
  if infinity < x.magnitude then "NaN"
  else
    let digits :=
      if x.magnitude = infinity then "inf".toList
      else if x.magnitude = 0 then ['0']
      else match x.shortest? with
        | some (d, k) => positional d k
        | none => []
    String.ofList (if x.negative then '-' :: digits else digits)

/-- The digits behind a point, if there is one, and what follows them. -/
def fraction : List Char → List Char × List Char
  | '.' :: rest => rest.span Char.isDigit
  | rest => ([], rest)

/-- The exponent behind its letter; nothing at all stands for an exponent of 0. -/
def exponent? : List Char → Option Int
  | [] => some 0
  | c :: rest => if c = 'e' ∨ c = 'E' then Numeral.int? rest else none

/-- The word nearest to the number that a text writes: digits with an optional point and an optional
exponent, or a name of infinity or of no number in letters of any case, after an optional sign. -/
def ofText? (s : String) : Option Binary64 :=
  let (negative, cs) := Numeral.sign s.toList
  let name := cs.map Char.toLower
  if name = "inf".toList ∨ name = "infinity".toList then some (ofMagnitude negative infinity)
  else if name = "nan".toList then some nan
  else
    let (whole, rest) := cs.span Char.isDigit
    let (part, rest) := fraction rest
    match Numeral.nat? (whole ++ part), exponent? rest with
    | some digits, some e => some (ofDecimal negative digits (e - part.length))
    | _, _ => none

end QuadIndex.Binary64
