import Mathlib
import QuadIndex.Bytes
import QuadIndex.Proofs.Number.Shortest

/-!
# The order of binary64 words

A finite word stands for a rational number, its units of 2⁻¹⁰⁷⁴ with its sign. A larger magnitude has
more units, whatever its exponent (`units_lt_units`), so the words are ordered as their numbers are, but
for the two zeros: both stand for 0, and the negative one comes directly before the positive one
(`rank_lt_rank_iff`).
-/

namespace QuadIndex.Binary64

instance : DecidableEq Binary64 := fun x y =>
  decidable_of_iff (x.negative = y.negative ∧ x.magnitude = y.magnitude) Binary64.ext_iff.symm

variable {x y : Binary64}

/-! ### Magnitudes -/

theorem significand_lt (x : Binary64) : x.significand < 2 ^ 53 := by
  unfold significand shift
  omega

theorem significand_ge (h : 1 ≤ x.shift) : 2 ^ 52 ≤ x.significand := by
  unfold significand shift at *
  omega

theorem magnitude_eq (x : Binary64) : x.magnitude = x.significand + x.shift * 2 ^ 52 := by
  unfold significand shift
  omega

/-- A larger magnitude has more units. -/
theorem units_lt_units (h : x.magnitude < y.magnitude) : x.units < y.units := by
  have shifts : x.shift ≤ y.shift := Nat.sub_le_sub_right (Nat.div_le_div_right h.le) 1
  rcases Nat.lt_or_eq_of_le shifts with less | same
  · -- One shift further up every significand has more units than any below.
    have lead : 2 ^ 52 ≤ y.significand := significand_ge (by omega)
    calc x.units = x.significand * 2 ^ x.shift := rfl
      _ < 2 ^ 53 * 2 ^ x.shift := Nat.mul_lt_mul_of_pos_right x.significand_lt (Nat.two_pow_pos _)
      _ = 2 ^ 52 * 2 ^ (x.shift + 1) := by rw [← Nat.pow_add, ← Nat.pow_add]; congr 1; omega
      _ ≤ 2 ^ 52 * 2 ^ y.shift := Nat.mul_le_mul_left _ (Nat.pow_le_pow_right (by decide) less)
      _ ≤ y.significand * 2 ^ y.shift := Nat.mul_le_mul_right _ lead
  · have less : x.significand < y.significand := by
      have hx := x.magnitude_eq
      have hy := y.magnitude_eq
      rw [same] at hx
      omega
    rw [units, units, same]
    exact Nat.mul_lt_mul_of_pos_right less (Nat.two_pow_pos _)

theorem units_congr (h : x.magnitude = y.magnitude) : x.units = y.units := by
  rw [units, units, significand, significand, shift, shift, h]

theorem units_lt_units_iff : x.units < y.units ↔ x.magnitude < y.magnitude := by
  refine ⟨fun less => ?_, units_lt_units⟩
  by_contra more
  rcases Nat.lt_or_eq_of_le (Nat.le_of_not_lt more) with greater | same
  · exact absurd (units_lt_units greater) (Nat.lt_asymm less)
  · exact absurd (units_congr same) less.ne'

theorem units_le_units (h : x.magnitude ≤ y.magnitude) : x.units ≤ y.units := by
  rw [← Nat.not_lt, units_lt_units_iff]
  exact Nat.not_lt.2 h

theorem units_eq_zero_iff : x.units = 0 ↔ x.magnitude = 0 := by
  refine ⟨fun none => ?_, fun none => ?_⟩
  · by_contra some
    exact units_ne_zero some none
  · rw [units_of_small (by omega), none]

/-! ### Numbers -/

/-- The units of 2⁻¹⁰⁷⁴ of a finite word with its sign. -/
def signedUnits (x : Binary64) : ℤ := if x.negative then -(x.units : ℤ) else x.units

/-- The number of a finite word. -/
def value (x : Binary64) : ℚ := x.signedUnits / 2 ^ 1074

/-- The zero of a sign. -/
def zero (negative : Bool) : Binary64 := ⟨negative, 0, by decide⟩

/-- The word comes before the other one: its number is less, or they are the negative and the positive
zero. -/
def Precedes (x y : Binary64) : Prop := x.value < y.value ∨ x = zero true ∧ y = zero false

/-- The place of the word among all words, where the positive zero has place 0. -/
def rank (x : Binary64) : ℤ := if x.negative then -1 - x.magnitude else x.magnitude

theorem value_lt_value_iff : x.value < y.value ↔ x.signedUnits < y.signedUnits := by
  have unit : (0 : ℚ) < 2 ^ 1074 := by positivity
  rw [value, value, div_lt_div_iff_of_pos_right unit, Int.cast_lt]

theorem eq_zero_iff {negative : Bool} :
    x = zero negative ↔ x.negative = negative ∧ x.units = 0 := by
  rw [units_eq_zero_iff, Binary64.ext_iff]
  exact Iff.rfl

/-- Places go up with the numbers, and from the negative to the positive zero. -/
theorem rank_lt_rank_iff : x.rank < y.rank ↔ x.Precedes y := by
  have up := @units_lt_units_iff x y
  have down := @units_lt_units_iff y x
  rw [Precedes, value_lt_value_iff, eq_zero_iff, eq_zero_iff]
  unfold rank signedUnits
  cases x.negative <;> cases y.negative
  case false.false => simp; omega
  case true.true => simp; omega
  case true.false => simp; omega
  case false.true => simp; omega

/-- Apart from the positive zero, words that come before it have lesser numbers, and lesser numbers
come before it. -/
theorem precedes_iff_of_ne (h : y ≠ zero false) : x.Precedes y ↔ x.value < y.value := by
  rw [Precedes]
  exact or_iff_left fun zeros => h zeros.2

/-- The negative zero comes directly before the positive one. -/
theorem zeros_adjacent : (zero true).Precedes (zero false) ∧
    ∀ x, ¬ ((zero true).Precedes x ∧ x.Precedes (zero false)) := by
  simp only [← rank_lt_rank_iff]
  have negative : (zero true).rank = -1 := rfl
  have positive : (zero false).rank = 0 := rfl
  rw [negative, positive]
  refine ⟨by omega, fun x => ?_⟩
  omega

end QuadIndex.Binary64
