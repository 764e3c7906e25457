import QuadIndex.Proofs.Number.DecimalText

/-!
# The shortest text of a binary64 word reads back

The number of a finite word lies on the grid of 10⁻¹⁰⁷⁴ and rounds to the word, so the search for a
grid with a point that reads back ends (`shortest?_isSome`). The text of the point found writes its
digits and its exponent, so reading it gives the word again (`ofText?_toText`).
-/

namespace QuadIndex.Binary64

/-! ## A finite word as a number of units -/

section Units

variable {x : Binary64}

/-- Below the first shift a word is its number of units. -/
theorem units_of_small (h : x.magnitude < 2 ^ 53) : x.units = x.magnitude := by
  have : x.shift = 0 := by unfold shift; omega
  simp [units, significand, this]

/-- From the first shift on the leading bit of the significand is set. -/
theorem significand_bounds (h : 2 ^ 53 ≤ x.magnitude) :
    2 ^ 52 ≤ x.significand ∧ x.significand < 2 ^ 53 := by
  unfold significand shift
  omega

theorem units_ne_zero (h : x.magnitude ≠ 0) : x.units ≠ 0 := by
  by_cases small : x.magnitude < 2 ^ 53
  · rwa [units_of_small small]
  · have := (significand_bounds (Nat.le_of_not_lt small)).1
    exact Nat.mul_ne_zero (by omega) (Nat.ne_of_gt (Nat.two_pow_pos _))

/-- The count of units past the 53 bits that a significand keeps is the shift. -/
theorem log2_units (h : x.magnitude ≠ 0) : Nat.log2 x.units - 52 = x.shift := by
  by_cases small : x.magnitude < 2 ^ 53
  · have log : Nat.log2 x.magnitude < 53 := (Nat.log2_lt h).2 small
    have : x.shift = 0 := by unfold shift; omega
    rw [units_of_small small]
    omega
  · have ⟨low, high⟩ := significand_bounds (Nat.le_of_not_lt small)
    have log : Nat.log2 x.units = 52 + x.shift := by
      rw [Nat.log2_eq_iff (units_ne_zero h), units]
      constructor
      · rw [Nat.pow_add]
        exact Nat.mul_le_mul_right _ low
      · rw [show 52 + x.shift + 1 = 53 + x.shift by omega, Nat.pow_add 2 53]
        exact Nat.mul_lt_mul_of_pos_right high (Nat.two_pow_pos _)
    omega

theorem roundRatio_mul (n : Nat) {d : Nat} (h : 0 < d) : roundRatio (n * d) d = n := by
  simp [roundRatio, h]

/-- The exact number of a word rounds to the word. -/
theorem roundUnits_units (h : x.magnitude ≠ 0) {d : Nat} (hd : 0 < d) :
    roundUnits (x.units * d) d = x.magnitude := by
  have split : x.units * d = x.significand * (d * 2 ^ x.shift) := by
    rw [units, Nat.mul_assoc, Nat.mul_comm (2 ^ x.shift)]
  have pos : 0 < d * 2 ^ x.shift := Nat.mul_pos hd (Nat.two_pow_pos _)
  have whole : x.shift * 2 ^ 52 ≤ x.magnitude := by unfold shift; omega
  simp only [roundUnits, Nat.mul_div_cancel _ hd, log2_units h]
  rw [split, roundRatio_mul _ pos, significand]
  omega

theorem units_lt (finite : x.isFinite = true) : x.units < 2 ^ 2098 := by
  have below : x.magnitude < 0x7ff * 2 ^ 52 := of_decide_eq_true finite
  by_cases small : x.magnitude < 2 ^ 53
  · rw [units_of_small small]
    exact Nat.lt_of_lt_of_le small (Nat.pow_le_pow_right (by decide) (by omega))
  · have high := (significand_bounds (Nat.le_of_not_lt small)).2
    have shift : x.shift ≤ 2045 := by unfold shift; omega
    calc x.units = x.significand * 2 ^ x.shift := rfl
      _ < 2 ^ 53 * 2 ^ x.shift := Nat.mul_lt_mul_of_pos_right high (Nat.two_pow_pos _)
      _ = 2 ^ (53 + x.shift) := (Nat.pow_add 2 53 _).symm
      _ ≤ 2 ^ 2098 := Nat.pow_le_pow_right (by decide) (by omega)

end Units

/-! ## A grid with a point that reads back -/

theorem ofDecimal_negative (negative : Bool) (d : Nat) (k : Int) :
    (ofDecimal negative d k).negative = negative := by
  dsimp only [ofDecimal]
  split_ifs <;> rfl

/-- A point that reads back is the word. -/
theorem ofDecimal_of_readsBack {x : Binary64} {k : Int} {d : Nat} (h : x.readsBack k d = true) :
    ofDecimal x.negative d k = x :=
  Binary64.ext (ofDecimal_negative x.negative d k) (by simpa [readsBack] using h)

theorem readsBack_of_onGrid? {x : Binary64} {k : Int} {d : Nat} (h : x.onGrid? k = some d) :
    x.readsBack k d = true := by
  dsimp only [onGrid?] at h
  split_ifs at h with below above
  · obtain rfl := Option.some.inj h
    exact (Bool.and_eq_true_iff.1 below).1
  · obtain rfl := Option.some.inj h
    exact above

section Exact

variable {x : Binary64}

/-- The number of digits of the exact decimal of a finite word. -/
theorem exact_digits (finite : x.isFinite = true) (h : x.magnitude ≠ 0) :
    700 < (Nat.toDigits 10 (x.units * 5 ^ 1074)).length ∧
      (Nat.toDigits 10 (x.units * 5 ^ 1074)).length ≤ 1400 := by
  have low : (10 : Nat) ^ 700 ≤ 5 ^ 1074 := by decide +kernel
  have high : (2 : Nat) ^ 2098 * 5 ^ 1074 ≤ 10 ^ 1400 := by decide +kernel
  have one : 1 ≤ x.units := Nat.one_le_iff_ne_zero.2 (units_ne_zero h)
  constructor
  · rw [← Nat.not_le, Nat.length_toDigits_le_iff (by decide) (by decide), Nat.not_lt]
    exact Nat.le_trans low (Nat.le_mul_of_pos_left _ one)
  · rw [Nat.length_toDigits_le_iff (by decide) (by decide)]
    exact Nat.lt_of_lt_of_le
      (Nat.mul_lt_mul_of_pos_right (units_lt finite) (@Nat.pow_pos 5 1074 (by decide))) high

/-- On the grid of 10⁻¹⁰⁷⁴ the number itself is a point, and it reads back. -/
theorem readsBack_exact (finite : x.isFinite = true) (h : x.magnitude ≠ 0) :
    x.readsBack (-1074) (x.units * 5 ^ 1074) = true := by
  have ⟨low, high⟩ := exact_digits finite h
  have nonzero : x.units * 5 ^ 1074 ≠ 0 :=
    Nat.mul_ne_zero (units_ne_zero h) (Nat.ne_of_gt (@Nat.pow_pos 5 1074 (by decide)))
  have ten : x.units * 5 ^ 1074 * 10 ^ 0 * 2 ^ 1074 = x.units * 10 ^ 1074 := by
    rw [Nat.pow_zero, Nat.mul_one, Nat.mul_assoc, ← Nat.mul_pow]
  have below : x.magnitude < infinity := of_decide_eq_true finite
  dsimp only [readsBack, ofDecimal]
  generalize (Nat.toDigits 10 (x.units * 5 ^ 1074)).length = count at low high
  rw [if_neg (by omega), if_neg (by omega)]
  rw [show (-1074 : Int).toNat = 0 from rfl, show (- -1074 : Int).toNat = 1074 from rfl, ten,
    roundUnits_units h (@Nat.pow_pos 10 1074 (by decide))]
  have : min x.magnitude infinity = x.magnitude := Nat.min_eq_left (Nat.le_of_lt below)
  simp [ofMagnitude, this]

theorem onGrid?_exact (finite : x.isFinite = true) (h : x.magnitude ≠ 0) :
    x.onGrid? (-1074) = some (x.units * 5 ^ 1074) := by
  have grid : x.units * 10 ^ 1074 = 2 ^ 1074 * (x.units * 5 ^ 1074) := by
    rw [Nat.mul_left_comm, ← Nat.mul_pow]
  have pos : 0 < 2 ^ 1074 := @Nat.pow_pos 2 1074 (by decide)
  dsimp only [onGrid?]
  rw [show (-1074 : Int).toNat = 0 from rfl, show (- -1074 : Int).toNat = 1074 from rfl, grid,
    Nat.pow_zero, Nat.mul_one, Nat.mul_div_cancel_left _ pos, Nat.mul_mod_right,
    readsBack_exact finite h, Nat.mul_zero, decide_eq_true pos]
  rfl

/-- The search meets the exact grid at the latest. -/
theorem shortest?_isSome (finite : x.isFinite = true) (h : x.magnitude ≠ 0) :
    ∃ d k, x.shortest? = some (d, k) ∧ x.readsBack k d = true := by
  have start : -1074 ≤ x.coarsest := by unfold coarsest; omega
  cases hs : x.shortest? with
  | none =>
    have miss := List.findSome?_eq_none_iff.1 hs (x.coarsest + 1074).toNat
      (List.mem_range.2 (by omega))
    rw [show x.coarsest - ((x.coarsest + 1074).toNat : Int) = -1074 by omega] at miss
    dsimp only at miss
    rw [onGrid?_exact finite h] at miss
    cases miss
  | some found =>
    obtain ⟨i, _, hi⟩ := List.exists_of_findSome?_eq_some hs
    obtain ⟨d, hd, rfl⟩ := Option.map_eq_some_iff.1 hi
    exact ⟨d, _, rfl, readsBack_of_onGrid? hd⟩

end Exact

/-! ## Reading positional text -/

section Reading

open Numeral

/-- Zeros behind the digits count for the exponent. -/
theorem length_toDigits_shift {d : Nat} (h : d ≠ 0) (k : Nat) :
    (Nat.toDigits 10 (d * 10 ^ k)).length = (Nat.toDigits 10 d).length + k := by
  induction k with
  | zero => simp
  | succ k ih =>
    have pos : 0 < d * 10 ^ k := Nat.mul_pos (Nat.pos_of_ne_zero h) (Nat.pow_pos (by decide))
    have step := Nat.toDigits_append_toDigits (b := 10) (d := 0) (by decide) pos (by decide)
    rw [Nat.pow_succ, ← Nat.mul_assoc, Nat.mul_comm _ 10, ← Nat.add_zero (10 * _), ← step,
      List.length_append, ih]
    simp
    omega

theorem ofDecimal_shift (negative : Bool) (d k : Nat) :
    ofDecimal negative (d * 10 ^ k) 0 = ofDecimal negative d k := by
  by_cases h : d = 0
  · simp [ofDecimal, h]
  · have nonzero : d * 10 ^ k ≠ 0 := Nat.mul_ne_zero h (Nat.ne_of_gt (Nat.pow_pos (by decide)))
    simp [ofDecimal, length_toDigits_shift h, h, nonzero]

/-- Digits around an optional point are read as one number of units of the last place. -/
theorem ofText?_digits {negative : Bool} {whole part fraction : List Char}
    (digits : AllDigits (whole ++ part)) (ne : whole ++ part ≠ [])
    (h : Decimal.Fraction part fraction) :
    ofText? (String.ofList (if negative then '-' :: (whole ++ fraction) else whole ++ fraction)) =
      some (ofDecimal negative (value (whole ++ part)) (-(part.length : Int))) := by
  have written : Decimal.Writes ⟨negative, whole, part, 0, digits, ne⟩
      (if negative then '-' :: (whole ++ fraction) else whole ++ fraction) := by
    cases negative with
    | true => exact ⟨['-'], fraction, [], .minus, h, .left, by simp⟩
    | false => exact ⟨[], fraction, [], .left, h, .left, by simp⟩
  rw [← String.toList_ofList (l := if negative then _ else _)] at written
  rw [ofText?_of_writes written, Decimal.word, Int.zero_sub]

/-- The text of a grid point is read as that point. -/
theorem ofText?_positional (negative : Bool) (d : Nat) (k : Int) :
    ofText? (String.ofList (if negative then '-' :: positional d k else positional d k)) =
      some (ofDecimal negative d k) := by
  by_cases h : 0 ≤ k
  · have text : positional d k = Nat.toDigits 10 d ++ List.replicate k.toNat '0' := if_pos h
    have digits := (allDigits_toDigits d).append (allDigits_zeros k.toNat)
    have value : value (Nat.toDigits 10 d ++ List.replicate k.toNat '0') = d * 10 ^ k.toNat := by
      rw [value_append, value_toDigits, value_zeros, List.length_replicate, Nat.mul_comm]
      rfl
    rw [← text] at digits value
    have read := @ofText?_digits negative (positional d k) [] [] (by simpa using digits)
      (by simp [text]) .left
    rw [List.append_nil, value] at read
    rw [read]
    have shift := ofDecimal_shift negative d k.toNat
    rw [Int.toNat_of_nonneg h] at shift
    simpa using shift
  · generalize hp : List.replicate ((-k).toNat + 1 - (Nat.toDigits 10 d).length) '0' ++
      Nat.toDigits 10 d = padded
    generalize hw : padded.take (padded.length - (-k).toNat) = whole
    generalize hf : padded.drop (padded.length - (-k).toNat) = part
    have text : positional d k = whole ++ '.' :: part := by
      simp only [positional, if_neg h, hp, hw, hf]
    have join : whole ++ part = padded := by rw [← hw, ← hf, List.take_append_drop]
    have long : (-k).toNat + 1 ≤ padded.length := by
      rw [← hp, List.length_append, List.length_replicate]
      omega
    have count : part.length = (-k).toNat := by
      rw [← hf, List.length_drop]
      omega
    have digits : AllDigits padded := hp ▸ (allDigits_zeros _).append (allDigits_toDigits d)
    have value : value padded = d := by rw [← hp, value_zeros_append, value_toDigits]
    have ne : padded ≠ [] := List.ne_nil_of_length_pos (by omega)
    have read := @ofText?_digits negative whole part _ (join ▸ digits) (join ▸ ne) .point
    rw [join, value, count, show -((-k).toNat : Int) = k by omega] at read
    rw [text]
    exact read

end Reading

/-- The text of a finite word reads back as the word. -/
theorem ofText?_toText {x : Binary64} (finite : x.isFinite = true) : ofText? x.toText = some x := by
  have below : x.magnitude < infinity := of_decide_eq_true finite
  have number : ¬ infinity < x.magnitude := by omega
  have bounded : x.magnitude ≠ infinity := by omega
  by_cases zero : x.magnitude = 0
  · have text : x.toText =
        String.ofList (if x.negative then '-' :: positional 0 0 else positional 0 0) := by
      simp only [toText, if_neg number, if_neg bounded, if_pos zero]
      rfl
    have word : ofDecimal x.negative 0 0 = x :=
      Binary64.ext (ofDecimal_negative x.negative 0 0) (by simp [ofDecimal, ofMagnitude, zero])
    rw [text, ofText?_positional, word]
  · obtain ⟨d, k, found, back⟩ := shortest?_isSome finite zero
    have text : x.toText =
        String.ofList (if x.negative then '-' :: positional d k else positional d k) := by
      simp only [toText, if_neg number, if_neg bounded, if_neg zero, found]
    rw [text, ofText?_positional, ofDecimal_of_readsBack back]

end QuadIndex.Binary64
