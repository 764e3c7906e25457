import Mathlib
import QuadIndex.Bytes
import QuadIndex.Proofs.Number.WordOrder

/-!
# The word nearest to a decimal

A decimal is read as the word of its sign that is nearest to it (`Decimal.word_nearest`). Of two
words that are as near the one whose last bit is 0 is taken, so the sign and the number determine the
word (`Nearest.unique`), and a text is read as a finite word exactly where it writes a decimal that
this word is nearest to (`ofText?_eq_some_iff`). Infinity counts as 2¹⁰²⁴, the number that would come
after the finite ones.
-/

namespace QuadIndex

namespace Binary64

variable {x y : Binary64} {ρ : ℚ} {s r : ℕ}

/-- No word is nearer to the number, with infinity as 2¹⁰²⁴, and the last bit of this one is 0 if
another number is as near. -/
structure Nearest (number : ℚ) (x : Binary64) : Prop where
  ordered : x.magnitude ≤ infinity
  near : ∀ y : Binary64, y.magnitude ≤ infinity → |x.value - number| ≤ |y.value - number|
  even : ∀ y : Binary64, y.magnitude ≤ infinity → y.value ≠ x.value →
    |x.value - number| = |y.value - number| → x.magnitude % 2 = 0

/-! ## Significands -/

/-- The units of a word from its significand, which may be one that is rounded up to 54 bits. -/
theorem units_of_parts (parts : x.magnitude = s * 2 ^ 52 + r) (high : r ≤ 2 ^ 53)
    (low : s = 0 ∨ 2 ^ 52 ≤ r) : x.units = r * 2 ^ s := by
  rcases Nat.lt_or_eq_of_le high with less | rfl
  · have shift : x.shift = s := by unfold shift; omega
    have significand : x.significand = r := by unfold significand; rw [shift]; omega
    rw [units, shift, significand]
  · have shift : x.shift = s + 1 := by unfold shift; omega
    have significand : x.significand = 2 ^ 52 := by unfold significand; rw [shift]; omega
    rw [units, shift, significand, Nat.pow_succ 2 s]
    omega

theorem exists_magnitude {m : ℕ} (h : m < 2 ^ 63) : ∃ z : Binary64, z.magnitude = m :=
  ⟨⟨false, m, h⟩, rfl⟩

/-- The next larger magnitude is a whole step away. -/
theorem units_add_le (parts : x.magnitude = s * 2 ^ 52 + r) (high : r < 2 ^ 53)
    (low : s = 0 ∨ 2 ^ 52 ≤ r) (more : x.magnitude < y.magnitude) : x.units + 2 ^ s ≤ y.units := by
  obtain ⟨next, parts'⟩ := exists_magnitude (Nat.lt_of_le_of_lt more y.magnitude_lt)
  have step : next.units = (r + 1) * 2 ^ s :=
    units_of_parts (by omega) high (low.imp_right fun _ => by omega)
  rw [units_of_parts parts high.le low, ← Nat.succ_mul, ← step]
  exact units_le_units (parts' ▸ more)

/-- The next smaller magnitude is a whole step away. -/
theorem add_le_units (parts : x.magnitude = s * 2 ^ 52 + (r + 1)) (high : r < 2 ^ 53)
    (low : s = 0 ∨ 2 ^ 52 ≤ r) (less : y.magnitude < x.magnitude) : y.units + 2 ^ s ≤ x.units := by
  have bound := x.magnitude_lt
  obtain ⟨previous, parts'⟩ := @exists_magnitude (s * 2 ^ 52 + r) (by omega)
  rw [units_of_parts parts high (low.imp_right fun _ => by omega), Nat.succ_mul,
    ← units_of_parts parts' high.le low]
  exact Nat.add_le_add_right (units_le_units (by omega)) _

/-- `r` units of 2ˢ are a number with all but its first 53 bits rounded away. -/
structure Rounded (ρ : ℚ) (s r : ℕ) : Prop where
  below : ρ < 2 ^ 53 * 2 ^ s
  lead : s = 0 ∨ 2 ^ 52 * 2 ^ s ≤ ρ
  near : |r * 2 ^ s - ρ| ≤ 2 ^ s / 2
  even : |r * 2 ^ s - ρ| = 2 ^ s / 2 → r % 2 = 0

/-- A ratio is rounded by a half at most, and by a half to even numbers only. -/
theorem roundRatio_near (n : ℕ) {d : ℕ} (hd : 0 < d) :
    |(roundRatio n d : ℚ) - n / d| ≤ 1 / 2 ∧
      (|(roundRatio n d : ℚ) - n / d| = 1 / 2 → roundRatio n d % 2 = 0) := by
  have pos : (0 : ℚ) < d := by exact_mod_cast hd
  obtain ⟨t, ht⟩ : ∃ t : ℚ, t = (n % d : ℕ) / d := ⟨_, rfl⟩
  have split : (n : ℚ) / d = (n / d : ℕ) + t := by
    have whole : (d * (n / d : ℕ) + (n % d : ℕ) : ℚ) = n := by exact_mod_cast Nat.div_add_mod n d
    rw [ht, ← whole]
    field_simp
  have below : 2 * (n % d) < d ↔ t < 1 / 2 := by
    rw [ht, div_lt_iff₀ pos, ← @Nat.cast_lt ℚ, Nat.cast_mul, Nat.cast_two]
    constructor <;> intro h <;> linarith
  have above : d < 2 * (n % d) ↔ 1 / 2 < t := by
    rw [ht, lt_div_iff₀ pos, ← @Nat.cast_lt ℚ, Nat.cast_mul, Nat.cast_two]
    constructor <;> intro h <;> linarith
  have nonneg : 0 ≤ t := ht ▸ by positivity
  have lt_one : t < 1 := by
    rw [ht, div_lt_one pos]
    exact_mod_cast Nat.mod_lt n hd
  simp only [roundRatio, below, above]
  rw [split]
  split_ifs with less more
  · have off : |((n / d : ℕ) : ℚ) - ((n / d : ℕ) + t)| = t := by
      rw [sub_add_cancel_left, abs_neg, abs_of_nonneg nonneg]
    rw [off]
    exact ⟨less.le, fun half => absurd half less.ne⟩
  · have off : |((n / d + 1 : ℕ) : ℚ) - ((n / d : ℕ) + t)| = 1 - t := by
      rw [Nat.cast_succ, add_sub_add_left_eq_sub, abs_of_nonneg (by linarith)]
    rw [off]
    exact ⟨by linarith, fun half => absurd more (by linarith)⟩
  · have half : t = 1 / 2 := le_antisymm (not_lt.1 more) (not_lt.1 less)
    rcases Nat.mod_two_eq_zero_or_one (n / d) with even | odd
    · rw [even, half, Nat.add_zero, sub_add_cancel_left, abs_neg, abs_of_pos (by norm_num)]
      exact ⟨le_rfl, fun _ => even⟩
    · rw [odd, half, Nat.cast_succ, add_sub_add_left_eq_sub, abs_of_pos (by norm_num)]
      exact ⟨by norm_num, fun _ => by omega⟩

/-- The quotient is rounded to its first 53 bits. -/
theorem rounded_roundRatio (n : ℕ) {d : ℕ} (hd : 0 < d) (hs : s = Nat.log2 (n / d) - 52) :
    Rounded (n / d) s (roundRatio n (d * 2 ^ s)) := by
  have pos : (0 : ℚ) < d := by exact_mod_cast hd
  have place : (0 : ℚ) < 2 ^ s := by positivity
  obtain ⟨near, even⟩ := roundRatio_near n (Nat.mul_pos hd (Nat.two_pow_pos s))
  have scale : (n : ℚ) / (d * 2 ^ s : ℕ) = n / d / 2 ^ s := by
    push_cast
    rw [div_div]
  have off (k : ℚ) : |k * 2 ^ s - n / d| = |k - n / (d * 2 ^ s : ℕ)| * 2 ^ s := by
    rw [scale, ← abs_of_pos place, ← abs_mul, abs_of_pos place, sub_mul,
      div_mul_cancel₀ _ place.ne']
  refine ⟨?below, ?lead, ?near, ?even⟩
  case below =>
    have log : n / d < 2 ^ (53 + s) :=
      Nat.lt_of_lt_of_le Nat.lt_log2_self (Nat.pow_le_pow_right (by decide) (by omega))
    rw [← pow_add, div_lt_iff₀ pos]
    exact_mod_cast (Nat.div_lt_iff_lt_mul hd).1 log
  case lead =>
    refine or_iff_not_imp_left.2 fun more => ?_
    have nonzero : n / d ≠ 0 := by
      intro none
      rw [none] at hs
      exact more hs
    have log : 2 ^ (52 + s) ≤ n / d :=
      Nat.le_trans (Nat.pow_le_pow_right (by decide) (by omega)) (Nat.log2_self_le nonzero)
    rw [← pow_add, le_div_iff₀ pos]
    exact_mod_cast (Nat.le_div_iff_mul_le hd).1 log
  case near =>
    rw [off]
    linarith [mul_le_mul_of_nonneg_right near place.le]
  case even =>
    intro half
    rw [off] at half
    exact even (mul_right_cancel₀ place.ne' (by linarith))

theorem Rounded.le (h : Rounded ρ s r) : r ≤ 2 ^ 53 := by
  have place : (0 : ℚ) < 2 ^ s := by positivity
  have near := (abs_le.1 h.near).2
  have below := h.below
  have : (r : ℚ) < 2 ^ 53 + 1 := by
    by_contra more
    have := mul_le_mul_of_nonneg_right (not_lt.1 more) place.le
    linarith
  exact_mod_cast Nat.lt_succ_iff.1 (by exact_mod_cast this)

theorem Rounded.ge (h : Rounded ρ s r) : s = 0 ∨ 2 ^ 52 ≤ r := by
  refine h.lead.imp_right fun lead => ?_
  have place : (0 : ℚ) < 2 ^ s := by positivity
  have near := (abs_le.1 h.near).1
  have : (2 ^ 52 : ℚ) < r + 1 := by
    by_contra more
    have := mul_le_mul_of_nonneg_right (not_lt.1 more) place.le
    linarith
  exact Nat.lt_succ_iff.1 (by exact_mod_cast this)

/-! ## Magnitudes -/

/-- The units of the word are the nearest to `ρ`, whatever the signs: those of another magnitude are
farther, or as far where the last bit of the word is 0. -/
def Closest (ρ : ℚ) (x : Binary64) : Prop :=
  ∀ y : Binary64, y.magnitude ≤ infinity → y.magnitude ≠ x.magnitude →
    |x.units - ρ| < |y.units - ρ| ∨ |x.units - ρ| = |y.units - ρ| ∧ x.magnitude % 2 = 0

section

variable (h : Rounded ρ s r) (parts : x.magnitude = s * 2 ^ 52 + r)

include h parts

theorem Rounded.units_eq : (x.units : ℚ) = r * 2 ^ s := by
  exact_mod_cast units_of_parts parts h.le h.ge

/-- Below a word that is more than the number, the others begin a whole step away. -/
theorem Rounded.le_or_step_below (less : y.magnitude < x.magnitude) :
    (x.units : ℚ) ≤ ρ ∨ (y.units + 2 ^ s : ℚ) ≤ x.units := by
  refine or_iff_not_imp_left.2 fun more => ?_
  rw [h.units_eq parts] at more
  have place : (0 : ℚ) < 2 ^ s := by positivity
  -- The number is less, so the significand is more than its leading bit.
  have lead : s = 0 ∨ 2 ^ 52 < r := by
    refine h.lead.imp_right fun lead => ?_
    have : (2 ^ 52 : ℚ) < r := lt_of_mul_lt_mul_right (by linarith) place.le
    exact_mod_cast this
  have high := h.le
  obtain ⟨k, rfl⟩ : ∃ k, r = k + 1 := ⟨r - 1, by omega⟩
  exact_mod_cast add_le_units parts high (lead.imp_right Nat.le_of_lt_succ) less

/-- Above a word that is less than the number, the others begin a whole step away. -/
theorem Rounded.ge_or_step_above (more : x.magnitude < y.magnitude) :
    ρ ≤ x.units ∨ (x.units + 2 ^ s : ℚ) ≤ y.units := by
  refine or_iff_not_imp_left.2 fun less => ?_
  rw [h.units_eq parts] at less
  have place : (0 : ℚ) < 2 ^ s := by positivity
  have high : r < 2 ^ 53 := by
    have : (r : ℚ) < 2 ^ 53 := lt_of_mul_lt_mul_right (by linarith [h.below]) place.le
    exact_mod_cast this
  exact_mod_cast units_add_le parts high h.ge more

/-- A word that a number is rounded to is the closest. Beyond the word all others are farther. On
the side of the number they begin a whole step away, and the number is half a step away at most. -/
theorem Rounded.closest : x.Closest ρ := by
  intro y _ ne
  have units := h.units_eq parts
  have near : |x.units - ρ| ≤ 2 ^ s / 2 := units ▸ h.near
  have even (half : |x.units - ρ| = 2 ^ s / 2) : x.magnitude % 2 = 0 := by
    have := h.even (units ▸ half)
    omega
  obtain ⟨low, high⟩ := abs_le.1 near
  have other : |x.units - ρ| < |y.units - ρ| ∨ 2 ^ s / 2 ≤ |y.units - ρ| := by
    rcases Nat.lt_or_gt_of_ne ne with less | more
    · have below : (y.units : ℚ) < x.units := by exact_mod_cast units_lt_units less
      rcases h.le_or_step_below parts less with beyond | step
      · left
        rw [abs_of_nonpos (by linarith), abs_of_nonpos (by linarith)]
        linarith
      · right
        refine le_abs.2 (.inr ?_)
        linarith
    · have above : (x.units : ℚ) < y.units := by exact_mod_cast units_lt_units more
      rcases h.ge_or_step_above parts more with beyond | step
      · left
        rw [abs_of_nonneg (by linarith), abs_of_nonneg (by linarith)]
        linarith
      · right
        refine le_abs.2 (.inl ?_)
        linarith
  rcases other with farther | half
  · exact .inl farther
  · rcases lt_or_eq_of_le (near.trans half) with farther | same
    · exact .inl farther
    · exact .inr ⟨same, even (le_antisymm near (same ▸ half))⟩

end

theorem units_infinity (h : x.magnitude = infinity) : x.units = 2 ^ 2098 := by
  have parts : x.magnitude = 2046 * 2 ^ 52 + 2 ^ 52 := h
  rw [units_of_parts parts (by decide) (.inr le_rfl), ← Nat.pow_add]

/-- Beyond infinity nothing is closer. -/
theorem closest_of_large (h : x.magnitude = infinity) (large : x.units ≤ ρ) : x.Closest ρ := by
  intro y bound ne
  have less : (y.units : ℚ) < x.units := by exact_mod_cast units_lt_units (by omega)
  left
  rw [abs_of_nonpos (by linarith), abs_of_nonpos (by linarith)]
  linarith

/-- The closest to 0 is a zero. -/
theorem Closest.magnitude_eq_zero (h : x.Closest 0) : x.magnitude = 0 := by
  by_contra nonzero
  have pos : (0 : ℚ) < x.units := by exact_mod_cast Nat.pos_of_ne_zero (units_ne_zero nonzero)
  obtain ⟨zero, magnitude⟩ := @exists_magnitude 0 (by decide)
  have closer := h zero (magnitude ▸ Nat.zero_le _) (magnitude ▸ Ne.symm nonzero)
  rw [units_eq_zero_iff.2 magnitude, Nat.cast_zero, sub_zero, sub_zero, abs_zero,
    abs_of_pos pos] at closer
  rcases closer with farther | tie
  · linarith
  · linarith [tie.1]

theorem closest_of_small (h : x.magnitude = 0) (nonneg : 0 ≤ ρ) (small : ρ < 1 / 2) :
    x.Closest ρ := by
  intro y _ ne
  have none : x.units = 0 := units_eq_zero_iff.2 h
  have some : (1 : ℚ) ≤ y.units := by
    exact_mod_cast Nat.one_le_iff_ne_zero.2 (units_ne_zero (by omega))
  left
  rw [none, Nat.cast_zero, zero_sub, abs_neg, abs_of_nonneg nonneg, abs_of_nonneg (by linarith)]
  linarith

/-- A number that is rounded to more than infinity is at least as large. -/
theorem Rounded.large (h : Rounded ρ s r) (more : infinity < s * 2 ^ 52 + r) : 2 ^ 2098 ≤ ρ := by
  have high := h.le
  have shift : 2046 ≤ s := by
    unfold infinity at more
    omega
  have lead := h.lead.resolve_left (by omega)
  refine le_trans ?_ lead
  rw [← pow_add]
  exact pow_le_pow_right₀ one_le_two (by omega)

theorem closest_ofMagnitude (negative : Bool) (n : ℕ) {d : ℕ} (hd : 0 < d) :
    (ofMagnitude negative (roundUnits n d)).Closest (n / d) := by
  have rounded := rounded_roundRatio n hd rfl
  rcases le_or_gt (roundUnits n d) infinity with ordered | more
  · exact rounded.closest (Nat.min_eq_left ordered)
  · have magnitude : (ofMagnitude negative (roundUnits n d)).magnitude = infinity :=
      Nat.min_eq_right more.le
    refine closest_of_large magnitude ?_
    rw [units_infinity magnitude]
    exact_mod_cast rounded.large more

/-! ## Decimals -/

theorem lt_pow_digits (n : ℕ) : n < 10 ^ (Nat.toDigits 10 n).length :=
  (Nat.length_toDigits_le_iff (by decide) (List.length_pos_iff.2 Nat.toDigits_ne_nil)).1 le_rfl

theorem pow_digits_le {n : ℕ} (h : n ≠ 0) : 10 ^ (Nat.toDigits 10 n).length ≤ 10 * n := by
  obtain ⟨k, hk⟩ : ∃ k, (Nat.toDigits 10 n).length = k + 1 :=
    Nat.exists_eq_succ_of_ne_zero (List.length_pos_iff.2 Nat.toDigits_ne_nil).ne'
  rw [hk, Nat.pow_succ, Nat.mul_comm]
  refine Nat.mul_le_mul_left 10 ?_
  rcases Nat.eq_zero_or_pos k with rfl | pos
  · exact Nat.one_le_iff_ne_zero.2 h
  · rw [← Nat.not_lt, ← Nat.length_toDigits_le_iff (by decide) pos]
    omega

/-- Three bits are less than a digit. -/
theorem two_pow_le {m k : ℕ} (h : m ≤ 3 * k) : (2 : ℚ) ^ m ≤ 10 ^ k := by
  refine (pow_le_pow_right₀ one_le_two h).trans ?_
  rw [pow_mul]
  exact pow_le_pow_left₀ (by norm_num) (by norm_num) k

/-- A power of ten is a ratio of whole numbers. -/
theorem zpow_eq_div (e : ℤ) : (10 : ℚ) ^ e = 10 ^ e.toNat / 10 ^ (-e).toNat := by
  rcases le_total 0 e with up | down
  · obtain ⟨k, rfl⟩ := Int.eq_ofNat_of_zero_le up
    simp
  · obtain ⟨k, hk⟩ := Int.eq_ofNat_of_zero_le (Int.neg_nonneg_of_nonpos down)
    obtain rfl : e = -k := by omega
    simp

section

variable {digits m k : ℕ} {exponent : ℤ}

/-- A decimal below 10⁻ᵏ is less than half of 2⁻ᵐ. -/
theorem mul_lt_half (h : m + 1 ≤ 3 * k) (small : (Nat.toDigits 10 digits).length + exponent ≤ -k) :
    (digits * 10 ^ exponent * 2 ^ m : ℚ) < 1 / 2 := by
  have power : (0 : ℚ) < 10 ^ exponent := by positivity
  have high : (digits : ℚ) * 10 ^ exponent * 10 ^ k < 1 :=
    calc (digits : ℚ) * 10 ^ exponent * 10 ^ k
        < 10 ^ (Nat.toDigits 10 digits).length * 10 ^ exponent * 10 ^ k := by
          have := lt_pow_digits digits
          gcongr
          exact_mod_cast this
      _ = 10 ^ ((Nat.toDigits 10 digits).length + exponent + k) := by
          rw [zpow_add₀ (by norm_num), zpow_add₀ (by norm_num), zpow_natCast, zpow_natCast]
      _ ≤ 1 := zpow_le_one_of_nonpos₀ (by norm_num) (by omega)
  have ratio := two_pow_le h
  rw [pow_succ] at ratio
  have := mul_le_mul_of_nonneg_left ratio (by positivity : 0 ≤ (digits : ℚ) * 10 ^ exponent)
  linarith

/-- A decimal from 10ᵏ on is more than 2ᵐ. -/
theorem two_pow_le_mul (h : m ≤ 3 * k) (nonzero : digits ≠ 0)
    (large : k < (Nat.toDigits 10 digits).length + exponent) :
    (2 : ℚ) ^ m ≤ digits * 10 ^ exponent := by
  have low : (10 : ℚ) * 10 ^ k ≤ 10 * (digits * 10 ^ exponent) :=
    calc (10 : ℚ) * 10 ^ k = 10 ^ ((k : ℤ) + 1) := by
          rw [zpow_add₀ (by norm_num), zpow_natCast, zpow_one, mul_comm]
      _ ≤ 10 ^ ((Nat.toDigits 10 digits).length + exponent) :=
          zpow_le_zpow_right₀ (by norm_num) (by omega)
      _ = 10 ^ (Nat.toDigits 10 digits).length * 10 ^ exponent := by
          rw [zpow_add₀ (by norm_num), zpow_natCast]
      _ ≤ 10 * digits * 10 ^ exponent := by
          have := pow_digits_le nonzero
          gcongr
          exact_mod_cast this
      _ = 10 * (digits * 10 ^ exponent) := mul_assoc _ _ _
  linarith [two_pow_le h]

end

/-- The word of a decimal is the closest to it. The count of digits alone decides about decimals
below 10⁻⁴⁰⁰, which are less than half a unit, and about those from 10⁴⁰⁰ on, which are more than
2¹⁰²⁴. -/
theorem closest_ofDecimal (negative : Bool) (digits : ℕ) (exponent : ℤ) :
    (ofDecimal negative digits exponent).Closest (digits * 10 ^ exponent * 2 ^ 1074) := by
  dsimp only [ofDecimal]
  split_ifs with small large
  · refine closest_of_small (Nat.zero_min _) (by positivity) ?_
    rcases small with rfl | small
    · rw [Nat.cast_zero, zero_mul, zero_mul]
      norm_num
    · exact @mul_lt_half digits 1074 401 exponent (by decide) (by omega)
  · have magnitude : (ofMagnitude negative infinity).magnitude = infinity := Nat.min_self _
    have nonzero : digits ≠ 0 := fun none => small (.inl none)
    have huge := @two_pow_le_mul digits 1024 400 exponent (by decide) nonzero large
    refine closest_of_large magnitude ?_
    rw [units_infinity magnitude, Nat.cast_pow, Nat.cast_two, show 2098 = 1024 + 1074 from rfl,
      pow_add]
    exact mul_le_mul_of_nonneg_right huge (by positivity)
  · have split : (digits : ℚ) * 10 ^ exponent * 2 ^ 1074 =
        (digits * 10 ^ exponent.toNat * 2 ^ 1074 : ℕ) / (10 ^ (-exponent).toNat : ℕ) := by
      rw [zpow_eq_div]
      push_cast
      ring
    rw [split]
    exact closest_ofMagnitude negative _ (Nat.pow_pos (by decide))

theorem ofDecimal_ordered (negative : Bool) (digits : ℕ) (exponent : ℤ) :
    (ofDecimal negative digits exponent).magnitude ≤ infinity := by
  dsimp only [ofDecimal]
  split_ifs
  · exact Nat.min_le_right _ _
  · exact Nat.min_le_right _ _
  · exact Nat.min_le_right _ _

/-! ## Signs -/

/-- The factor of a sign. -/
def signFactor (negative : Bool) : ℚ := if negative then -1 else 1

theorem value_eq (x : Binary64) : x.value = signFactor x.negative * (x.units / 2 ^ 1074) := by
  unfold value signedUnits signFactor
  cases x.negative <;> simp [neg_div]

theorem abs_signFactor_mul (negative : Bool) (a : ℚ) : |signFactor negative * a| = |a| := by
  cases negative <;> simp [signFactor]

/-- A number of the word's own sign is as far from it as their units are. -/
theorem distance_same (x : Binary64) (ρ : ℚ) :
    |x.value - signFactor x.negative * (ρ / 2 ^ 1074)| = |x.units - ρ| / 2 ^ 1074 := by
  have unit : (0 : ℚ) < 2 ^ 1074 := by positivity
  rw [value_eq, ← mul_sub, abs_signFactor_mul, ← sub_div, abs_div, abs_of_pos unit]

/-- A number of the other sign is as far from the word as their units are together. -/
theorem distance_other {negative : Bool} (other : x.negative ≠ negative) (nonneg : 0 ≤ ρ) :
    |x.value - signFactor negative * (ρ / 2 ^ 1074)| = (x.units + ρ) / 2 ^ 1074 := by
  have pos : (0 : ℚ) ≤ x.units + ρ := add_nonneg (Nat.cast_nonneg _) nonneg
  have unit : (0 : ℚ) < 2 ^ 1074 := by positivity
  have opposite : signFactor negative = -signFactor x.negative := by
    cases negative <;> cases hx : x.negative <;> simp_all [signFactor]
  rw [value_eq, opposite, neg_mul, sub_neg_eq_add, ← mul_add, abs_signFactor_mul, ← add_div,
    abs_div, abs_of_pos unit, abs_of_nonneg pos]

theorem le_distance (y : Binary64) (negative : Bool) (nonneg : 0 ≤ ρ) :
    |y.units - ρ| / 2 ^ 1074 ≤ |y.value - signFactor negative * (ρ / 2 ^ 1074)| := by
  by_cases same : y.negative = negative
  · exact same ▸ (distance_same y ρ).ge
  · rw [distance_other same nonneg]
    have pos : (0 : ℚ) ≤ y.units := Nat.cast_nonneg _
    have : |(y.units : ℚ) - ρ| ≤ y.units + ρ := abs_le.2 ⟨by linarith, by linarith⟩
    gcongr

/-- The closest word of the sign of a number is the nearest word. -/
theorem Closest.nearest (h : x.Closest ρ) (ordered : x.magnitude ≤ infinity) (nonneg : 0 ≤ ρ) :
    x.Nearest (signFactor x.negative * (ρ / 2 ^ 1074)) := by
  have unit : (0 : ℚ) < 2 ^ 1074 := by positivity
  refine ⟨ordered, fun y bound => ?near, fun y bound ne same => ?even⟩
  case near =>
    rw [distance_same]
    refine le_trans ?_ (le_distance y x.negative nonneg)
    refine div_le_div_of_nonneg_right ?_ unit.le
    by_cases equal : y.magnitude = x.magnitude
    · rw [units_congr equal]
    · exact (h y bound equal).elim le_of_lt fun tie => tie.1.le
  case even =>
    rw [distance_same] at same
    by_cases equal : y.magnitude = x.magnitude
    · -- The two are a number and its negation, so both would be as far from 0.
      exfalso
      have units := units_congr equal
      have other : y.negative ≠ x.negative := by
        intro sign
        exact ne (by rw [value_eq, value_eq, sign, units])
      have nonzero : x.magnitude ≠ 0 := by
        intro none
        exact ne (by rw [value_eq, value_eq, units, units_eq_zero_iff.2 none]; simp)
      have pos : (0 : ℚ) < x.units := by exact_mod_cast Nat.pos_of_ne_zero (units_ne_zero nonzero)
      rw [distance_other other nonneg, units, div_left_inj' unit.ne'] at same
      have none : ρ = 0 := by
        rcases abs_cases ((x.units : ℚ) - ρ) with ⟨abs, _⟩ | ⟨abs, _⟩ <;> linarith
      exact nonzero (none ▸ h).magnitude_eq_zero
    · rcases h y bound equal with farther | tie
      · have := le_distance y x.negative nonneg
        rw [← same, div_le_div_iff_of_pos_right unit] at this
        exact absurd this (not_le.2 farther)
      · exact tie.2

/-- A number between two others is nearer than they are to the number halfway. -/
theorem nearer_of_between {a b c n : ℚ} (between : a < c ∧ c < b ∨ b < c ∧ c < a)
    (same : |a - n| = |b - n|) : |c - n| < |a - n| := by
  rcases abs_eq_abs.1 same with equal | opposite
  · rcases between with ⟨_, _⟩ | ⟨_, _⟩ <;> linarith
  · rcases between with ⟨_, _⟩ | ⟨_, _⟩
    · rw [abs_of_nonpos (by linarith : a - n ≤ 0), abs_lt]
      constructor <;> linarith
    · rw [abs_of_nonneg (by linarith : 0 ≤ a - n), abs_lt]
      constructor <;> linarith

theorem value_ne_value (sign : x.negative = y.negative) (less : x.magnitude < y.magnitude) :
    x.value ≠ y.value := by
  intro same
  have less := units_lt_units less
  have low := mt value_lt_value_iff.2 same.not_lt
  have high := mt value_lt_value_iff.2 same.not_gt
  simp only [signedUnits, sign] at low high
  cases hn : y.negative <;> simp [hn] at low high <;> omega

theorem value_between {z : Binary64} (sign : x.negative = z.negative)
    (sign' : y.negative = z.negative) (low : x.magnitude < z.magnitude)
    (high : z.magnitude < y.magnitude) :
    x.value < z.value ∧ z.value < y.value ∨ y.value < z.value ∧ z.value < x.value := by
  have low := units_lt_units low
  have high := units_lt_units high
  simp only [value_lt_value_iff, signedUnits, sign, sign']
  cases z.negative <;> simp <;> omega

/-- The sign and the number determine the nearest word. If two words were as near, both would be
even, and a word between them would be nearer. -/
theorem Nearest.unique {n : ℚ} (hx : x.Nearest n) (hy : y.Nearest n)
    (sign : x.negative = y.negative) : x = y := by
  by_contra ne
  wlog less : x.magnitude < y.magnitude with symm
  · refine symm hy hx sign.symm (Ne.symm ne) (lt_of_le_of_ne (not_lt.1 less) fun same => ?_)
    exact ne (Binary64.ext sign same.symm)
  have same : |x.value - n| = |y.value - n| :=
    le_antisymm (hx.near y hy.ordered) (hy.near x hx.ordered)
  have apart := value_ne_value sign less
  have even := hx.even y hy.ordered apart.symm same
  have even' := hy.even x hx.ordered apart same.symm
  obtain ⟨z, negative, magnitude⟩ : ∃ z : Binary64,
      z.negative = x.negative ∧ z.magnitude = x.magnitude + 1 :=
    ⟨⟨x.negative, _, Nat.lt_of_le_of_lt less y.magnitude_lt⟩, rfl, rfl⟩
  have below : z.magnitude < y.magnitude := by omega
  have between := value_between negative.symm (sign ▸ negative.symm) (by omega) below
  have nearer := nearer_of_between between same
  exact absurd (hx.near z (le_trans below.le hy.ordered)) (not_le.2 nearer)

end Binary64

open Binary64 Numeral

namespace Decimal

/-- The number that a decimal stands for. -/
def number (d : Decimal) : ℚ :=
  signFactor d.negative * (value d.whole + value d.part / 10 ^ d.part.length) * 10 ^ d.exponent

theorem word_negative (d : Decimal) : d.word.negative = d.negative := ofDecimal_negative _ _ _

/-- A decimal is read as the nearest word. -/
theorem word_nearest (d : Decimal) : d.word.Nearest d.number := by
  have closest :=
    closest_ofDecimal d.negative (value (d.whole ++ d.part)) (d.exponent - d.part.length)
  have number : d.number = signFactor d.word.negative *
      (value (d.whole ++ d.part) * 10 ^ (d.exponent - d.part.length) * 2 ^ 1074 / 2 ^ 1074) := by
    have power : (10 : ℚ) ^ d.part.length ≠ 0 := by positivity
    rw [Decimal.number, word_negative, mul_div_cancel_right₀ _ (by positivity), value_append,
      zpow_sub₀ (by norm_num), zpow_natCast]
    push_cast
    field_simp
  rw [number]
  exact closest.nearest (ofDecimal_ordered _ _ _) (by positivity)

/-- Digits behind a zero and a point write their part of the power of ten of their count. -/
theorem exists_writes_behind_point {ds : List Char} (digits : AllDigits ds) :
    ∃ d : Decimal, d.Writes ('0' :: '.' :: ds) ∧ d.number = value ds / 10 ^ ds.length := by
  have zero : AllDigits ['0'] := allDigits_zeros 1
  refine ⟨⟨false, ['0'], ds, 0, zero.append digits, by simp⟩,
    ⟨[], _, [], .left, .point, .left, by simp⟩, ?_⟩
  have none : value ['0'] = 0 := value_zeros 1
  simp [number, signFactor, none]

end Decimal

namespace Binary64

variable {s : String} {x : Binary64}

/-- A text that writes a decimal is read, as the nearest word of the decimal's sign. -/
theorem ofText?_nearest {d : Decimal} (writes : d.Writes s.toList) :
    ∃ x, ofText? s = some x ∧ x.negative = d.negative ∧ x.Nearest d.number :=
  ⟨d.word, ofText?_of_writes writes, d.word_negative, d.word_nearest⟩

/-- A text is read as a finite word exactly where it writes a decimal and the word is the nearest one
of the decimal's sign. -/
theorem ofText?_eq_some_iff (finite : x.isFinite = true) :
    ofText? s = some x ↔
      ∃ d : Decimal, d.Writes s.toList ∧ x.negative = d.negative ∧ x.Nearest d.number := by
  constructor
  · intro h
    obtain ⟨d, writes, rfl⟩ := exists_writes h finite
    exact ⟨d, writes, d.word_negative, d.word_nearest⟩
  · rintro ⟨d, writes, sign, nearest⟩
    obtain ⟨y, read, sign', nearest'⟩ := ofText?_nearest writes
    rw [read, nearest'.unique nearest (sign'.trans sign.symm)]

end Binary64

end QuadIndex
