import Mathlib

/-!
# The order of floats

Every float that is a number has a place in one linear order: by its sign, then by its exponent, then
by its mantissa, with one place for both zeros. Comparing floats is comparing their places
(`lt_iff`, `le_iff`, `eq_iff`), and what is no number compares with nothing.
-/

namespace QuadIndex.FloatOrder

open Float.Model (UnpackedFloat)

/-- The places of numbers: the sign, where 2 is infinity, the exponent and the mantissa. -/
abbrev Place := ℤ ×ₗ ℤ ×ₗ ℤ

/-- The place of what a float is unpacked to. -/
def placeOf? : UnpackedFloat → Option Place
  | .notANumber => none
  | .infinity .positive => some (toLex (2, toLex (0, 0)))
  | .finite .positive m e _ => some (toLex (1, toLex (e, m)))
  | .zero _ => some (toLex (0, toLex (0, 0)))
  | .finite .negative m e _ => some (toLex (-1, toLex (-e, -m)))
  | .infinity .negative => some (toLex (-2, toLex (0, 0)))

/-- The place of a float. -/
def place? (x : Float) : Option Place := placeOf? x.toModel.unpack

theorem compare_neg (a b : ℤ) : compare (-a) (-b) = (compare a b).swap := by
  rcases lt_trichotomy a b with less | rfl | more
  · rw [compare_lt_iff_lt.2 less, compare_gt_iff_gt.2 (Int.neg_lt_neg less)]
    rfl
  · rw [compare_eq_iff_eq.2 rfl, compare_eq_iff_eq.2 rfl]
    rfl
  · rw [compare_gt_iff_gt.2 more, compare_lt_iff_lt.2 (Int.neg_lt_neg more)]
    rfl

theorem compare_natCast (a b : ℕ) : compare (a : ℤ) b = compare a b := by
  rcases lt_trichotomy a b with less | rfl | more
  · rw [compare_lt_iff_lt.2 less, compare_lt_iff_lt.2 (Int.ofNat_lt.2 less)]
  · rw [compare_eq_iff_eq.2 rfl, compare_eq_iff_eq.2 rfl]
  · rw [compare_gt_iff_gt.2 more, compare_gt_iff_gt.2 (Int.ofNat_lt.2 more)]

theorem compare_place (a b c a' b' c' : ℤ) :
    compare (toLex (a, toLex (b, c)) : Place) (toLex (a', toLex (b', c'))) =
      (compare a a').then ((compare b b').then (compare c c')) := by
  simp [Prod.Lex.compare_def, compareLex, compareOn]

theorem compare_eq (a b : UnpackedFloat) :
    a.compare b = (placeOf? a).bind fun x => (placeOf? b).map fun y => compare x y := by
  rcases a with (_ | _) | _ | _ | ⟨_ | _, m, e⟩ <;>
    rcases b with (_ | _) | _ | _ | ⟨_ | _, m', e'⟩ <;>
    simp only [UnpackedFloat.compare, placeOf?, Option.bind_some, Option.map_some,
      Option.map_none, Option.bind_none, compare_place, compare_neg, compare_natCast,
      ← Ordering.swap_then] <;>
    rfl

variable {a b c : Float}

theorem lt_iff : a < b ↔ ∃ x ∈ place? a, ∃ y ∈ place? b, x < y := by
  change Float.lt a b = true ↔ _
  rw [Float.lt, decide_eq_true_eq]
  change (a.toModel.unpack.compare b.toModel.unpack == some .lt) = true ↔ _
  simp [compare_eq, place?, Option.bind_eq_some_iff, compare_lt_iff_lt]

theorem eq_iff : (a == b) = true ↔ ∃ x ∈ place? a, x ∈ place? b := by
  change (a.toModel.unpack.compare b.toModel.unpack == some .eq) = true ↔ _
  simp [compare_eq, place?, Option.bind_eq_some_iff, compare_eq_iff_eq]

theorem le_iff : a ≤ b ↔ ∃ x ∈ place? a, ∃ y ∈ place? b, x ≤ y := by
  change Float.le a b = true ↔ _
  rw [Float.le, decide_eq_true_eq]
  change (a.toModel.unpack.compare b.toModel.unpack).any Ordering.isLE = true ↔ _
  simp only [compare_eq, place?, Option.any_eq_true, Option.bind_eq_some_iff,
    Option.map_eq_some_iff, Option.mem_def]
  constructor
  · rintro ⟨_, ⟨x, hx, y, hy, rfl⟩, le⟩
    exact ⟨x, hx, y, hy, compare_le_iff_le.1 (Ordering.ne_gt_iff_isLE.2 le)⟩
  · rintro ⟨x, hx, y, hy, le⟩
    exact ⟨_, ⟨x, hx, y, hy, rfl⟩, Ordering.ne_gt_iff_isLE.1 (compare_le_iff_le.2 le)⟩

theorem lt_irrefl : ¬ a < a := by
  rw [lt_iff]
  rintro ⟨x, hx, y, hy, less⟩
  cases Option.mem_unique hx hy
  exact less.false

theorem lt_trans (h : a < b) (h' : b < c) : a < c := by
  obtain ⟨x, hx, y, hy, less⟩ := lt_iff.1 h
  obtain ⟨y', hy', z, hz, less'⟩ := lt_iff.1 h'
  cases Option.mem_unique hy hy'
  exact lt_iff.2 ⟨x, hx, z, hz, less.trans less'⟩

theorem lt_of_lt_of_le (h : a < b) (h' : b ≤ c) : a < c := by
  obtain ⟨x, hx, y, hy, less⟩ := lt_iff.1 h
  obtain ⟨y', hy', z, hz, least⟩ := le_iff.1 h'
  cases Option.mem_unique hy hy'
  exact lt_iff.2 ⟨x, hx, z, hz, less.trans_le least⟩

theorem le_of_lt (h : a < b) : a ≤ b := by
  obtain ⟨x, hx, y, hy, less⟩ := lt_iff.1 h
  exact le_iff.2 ⟨x, hx, y, hy, less.le⟩

/-- A number has a place. -/
theorem exists_place (h : a.isNaN = false) : ∃ x, x ∈ place? a := by
  change a.toModel.unpack.isNaN = false at h
  unfold place?
  cases unpacked : a.toModel.unpack with
  | notANumber => rw [unpacked] at h; cases h
  | infinity sign => cases sign <;> exact ⟨_, rfl⟩
  | zero sign => exact ⟨_, rfl⟩
  | finite sign m e => cases sign <;> exact ⟨_, rfl⟩

/-- Numbers compare. -/
theorem le_of_not_lt (ha : a.isNaN = false) (hb : b.isNaN = false) (h : ¬ a < b) : b ≤ a := by
  obtain ⟨x, hx⟩ := exists_place ha
  obtain ⟨y, hy⟩ := exists_place hb
  refine le_iff.2 ⟨y, hy, x, hx, not_lt.1 fun less => ?_⟩
  exact h (lt_iff.2 ⟨x, hx, y, hy, less⟩)

theorem le_refl (h : a.isNaN = false) : a ≤ a := le_of_not_lt h h lt_irrefl

theorem isNaN_of_isFinite (h : a.isFinite = true) : a.isNaN = false := by
  change a.toModel.unpack.isFinite = true at h
  show a.toModel.unpack.isNaN = false
  cases unpacked : a.toModel.unpack with
  | notANumber => rw [unpacked] at h; cases h
  | infinity | zero | finite => rfl

/-- A finite float is a number below infinity. -/
theorem exists_place_of_isFinite (h : a.isFinite = true) :
    ∃ x ∈ place? a, x < toLex (2, toLex (0, 0)) := by
  change a.toModel.unpack.isFinite = true at h
  unfold place?
  cases unpacked : a.toModel.unpack with
  | notANumber => rw [unpacked] at h; cases h
  | infinity sign => rw [unpacked] at h; cases h
  | zero sign => exact ⟨_, rfl, by decide⟩
  | finite sign m e =>
    -- The sign alone decides.
    have small : (1 : ℤ) < 2 ∧ (-1 : ℤ) < 2 := by decide
    cases sign with
    | positive => exact ⟨_, rfl, Prod.Lex.toLex_lt_toLex.2 (.inl small.1)⟩
    | negative => exact ⟨_, rfl, Prod.Lex.toLex_lt_toLex.2 (.inl small.2)⟩

end QuadIndex.FloatOrder
