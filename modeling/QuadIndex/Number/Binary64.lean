/-!
# Binary floating-point numbers of 64 bits

A word is a sign and 63 further bits, its magnitude. Every finite magnitude stands for a whole
number of units of 2⁻¹⁰⁷⁴, and a larger magnitude for a larger number of them. So magnitudes compare
as the numbers do, and `sortKey` carries the order of all words to natural numbers.
-/

namespace QuadIndex

/-- A binary64 word. -/
@[ext] structure Binary64 where
  negative : Bool
  magnitude : Nat
  magnitude_lt : magnitude < 2 ^ 63

namespace Binary64

/-- The magnitude of infinity; what is above it is no number. -/
def infinity : Nat := 0x7ff * 2 ^ 52

/-- The word stands for a number. -/
def isFinite (x : Binary64) : Bool := decide (x.magnitude < infinity)

/-- The word with the given magnitude, or infinity if that is larger. -/
def ofMagnitude (negative : Bool) (m : Nat) : Binary64 :=
  ⟨negative, min m infinity, by have : infinity < 2 ^ 63 := by decide
                                omega⟩

/-- The word of the given bits. -/
def ofWord (w : Nat) : Binary64 :=
  ⟨w / 2 ^ 63 % 2 == 1, w % 2 ^ 63, Nat.mod_lt _ (by decide)⟩

/-- Not a number. -/
def nan : Binary64 := ofWord 0x7ff8000000000000

/-- How far the significand stands above the smallest unit. -/
def shift (x : Binary64) : Nat := x.magnitude / 2 ^ 52 - 1

/-- The bits of the number from the unit of its last place on. -/
def significand (x : Binary64) : Nat := x.magnitude - x.shift * 2 ^ 52

/-- The absolute value of a finite word in units of 2⁻¹⁰⁷⁴. -/
def units (x : Binary64) : Nat := x.significand * 2 ^ x.shift

/-- The whole number nearest to `n / d`; a half goes to the even neighbour. -/
def roundRatio (n d : Nat) : Nat :=
  let q := n / d
  let r := n % d
  if 2 * r < d then q else if d < 2 * r then q + 1 else q + q % 2

/-- The magnitude nearest to `n / d` units of 2⁻¹⁰⁷⁴. Of the quotient all but 53 bits are rounded
away, and a significand that rounds up to 54 bits carries into the shift. -/
def roundUnits (n d : Nat) : Nat :=
  let shift := Nat.log2 (n / d) - 52
  shift * 2 ^ 52 + roundRatio n (d * 2 ^ shift)

/-- The word nearest to `± digits · 10 ^ exponent`. Exponents beyond every finite word are decided
by the count of digits alone. -/
def ofDecimal (negative : Bool) (digits : Nat) (exponent : Int) : Binary64 :=
  let places := (Nat.toDigits 10 digits).length + exponent
  if digits = 0 ∨ places < -400 then ofMagnitude negative 0
  else if 400 < places then ofMagnitude negative infinity
  else ofMagnitude negative
    (roundUnits (digits * 10 ^ exponent.toNat * 2 ^ 1074) (10 ^ (-exponent).toNat))

/-- A number between `0` and `2 ^ 64` that grows with the word: negative words in falling order of
magnitude come before all others. -/
def sortKey (x : Binary64) : Nat :=
  if x.negative then 2 ^ 63 - 1 - x.magnitude else 2 ^ 63 + x.magnitude

/-- The word with the given sort key. -/
def ofSortKey (k : Nat) : Binary64 :=
  if 2 ^ 63 ≤ k then ⟨false, (k - 2 ^ 63) % 2 ^ 63, Nat.mod_lt _ (by decide)⟩
  else ⟨true, 2 ^ 63 - 1 - k, by omega⟩

theorem sortKey_lt (x : Binary64) : x.sortKey < 2 ^ 64 := by
  have := x.magnitude_lt
  unfold sortKey
  split <;> omega

theorem ofSortKey_sortKey (x : Binary64) : ofSortKey x.sortKey = x := by
  have h := x.magnitude_lt
  by_cases hx : x.negative
  · have key : x.sortKey = 2 ^ 63 - 1 - x.magnitude := if_pos hx
    rw [ofSortKey, if_neg (by omega)]
    refine Binary64.ext hx.symm ?_
    dsimp only
    omega
  · have key : x.sortKey = 2 ^ 63 + x.magnitude := if_neg hx
    rw [ofSortKey, if_pos (by omega)]
    refine Binary64.ext (Bool.eq_false_iff.2 hx).symm ?_
    dsimp only
    omega

end Binary64

end QuadIndex
