import QuadIndex.Bytes
import QuadIndex.Proofs.Number.FloatOrder

/-!
# Counts as floats

A count below 2⁵³ is a float exactly: its bits are moved up until the first of them is the 53rd, and
the exponent says by how many places (`place?_toFloat`). So floats of counts compare as the counts do
(`toFloat_le_iff`), and none of them is a float with an exponent above zero (`toFloat_ne`).
-/

namespace QuadIndex.FloatOrder

open Float.Model (Format UnpackedFloat totalExponent)
open Float.Model.UnpackedFloat

variable {m n : ℕ} {e : ℤ}

/-! ## Packing -/

theorem unpackSign_packComponents (sign : Sign) (exponent : BitVec 11) (mantissa : BitVec 52) :
    unpackSign (packComponents .binary64 sign exponent mantissa) = sign.toBitVec := by
  show (sign.toBitVec ++ exponent ++ mantissa).extractLsb' 63 1 = sign.toBitVec
  rw [BitVec.extractLsb'_append_eq_of_le (by decide), BitVec.extractLsb'_append_eq_of_le (by decide)]
  exact BitVec.extractLsb'_eq_self

/-- The first bit of a mantissa is not stored. -/
theorem toNat_one_append (log : m.log2 = 52) : (1#1 ++ BitVec.ofNat 52 m).toNat = m := by
  have pos : m ≠ 0 := by
    rintro rfl
    cases log
  obtain ⟨low, high⟩ := (Nat.log2_eq_iff pos).1 log
  have rest : m % 2 ^ 52 < 2 ^ 52 := Nat.mod_lt _ (by decide)
  rw [BitVec.toNat_append, BitVec.toNat_ofNat, BitVec.toNat_ofNat, Nat.shiftLeft_eq, Nat.mul_comm,
    ← Nat.two_pow_add_eq_or_of_lt rest]
  omega

/-- A mantissa of 53 bits with an exponent in range is read back from the word that it is packed
into. -/
theorem unpack_pack (pos : 0 < m) (log : m.log2 = 52) (low : -1074 ≤ e) (high : e ≤ 971) :
    unpack .binary64 (pack .binary64 (.finite .positive m e pos)) = .finite .positive m e pos := by
  obtain ⟨k, hk⟩ : ∃ k : ℕ, (e + 1075).toNat = k := ⟨_, rfl⟩
  have biased : (e + Format.binary64.exponentBias +
      Format.binary64.mantissaBitsWithoutImplicit).toNat = k := by
    show (e + 1023 + 52).toNat = k
    omega
  have fits : ¬ 2 ^ Format.binary64.exponentBits ≤ k + 1 := by
    show ¬ 2048 ≤ k + 1
    omega
  have full : m.log2 + 1 = Format.binary64.mantissaBits := by
    rw [log]
    rfl
  have word : (BitVec.ofNat 11 k).toNat = k := by
    rw [BitVec.toNat_ofNat]
    exact Nat.mod_eq_of_lt (by omega)
  -- The exponents of all ones and of all zeros have meanings of their own.
  have finite : BitVec.ofNat 11 k ≠ -1#11 := by
    intro same
    have ones : k = 2047 := word.symm.trans (congrArg BitVec.toNat same)
    omega
  have normal : BitVec.ofNat 11 k ≠ 0#11 := by
    intro same
    have zeros : k = 0 := word.symm.trans (congrArg BitVec.toNat same)
    omega
  simp only [pack, biased, if_neg fits, if_pos full, unpack, unpackMantissa_packComponents,
    unpackExponent_packComponents, if_neg finite, if_neg normal]
  rw [UnpackedFloat.finite.injEq]
  refine ⟨?_, toNat_one_append log, ?_⟩
  · rw [unpackSign_packComponents]
    rfl
  · rw [word]
    show (k : ℤ) - (1023 + 52) = e
    omega

/-! ## Rounding -/

theorem log2_mul_two_pow (pos : n ≠ 0) (k : ℕ) : (n * 2 ^ k).log2 = n.log2 + k := by
  obtain ⟨low, high⟩ := (Nat.log2_eq_iff pos).1 rfl
  have place : 0 < 2 ^ k := Nat.two_pow_pos k
  apply (Nat.log2_eq_iff (Nat.mul_ne_zero pos place.ne')).2
  constructor
  · calc 2 ^ (n.log2 + k)
      _ = 2 ^ n.log2 * 2 ^ k := Nat.pow_add ..
      _ ≤ n * 2 ^ k := Nat.mul_le_mul_right _ low
  · calc n * 2 ^ k
      _ < 2 ^ (n.log2 + 1) * 2 ^ k := Nat.mul_lt_mul_of_pos_right high place
      _ = 2 ^ (n.log2 + k + 1) := by rw [← Nat.pow_add, Nat.add_right_comm]

theorem targetExponent_of_log2 (low : -1074 ≤ (m.log2 : ℤ) - 52 + e) :
    Format.binary64.targetExponent (totalExponent m e) = m.log2 - 52 + e := by
  have bits : (Format.binary64.mantissaBits : ℤ) = 53 := rfl
  have least : Format.binary64.minExponent = -1074 := rfl
  unfold Format.targetExponent totalExponent
  omega

/-- A mantissa of 53 bits is not rounded. -/
theorem roundWithAccuracy_exact (pos : 0 < m) (log : m.log2 = 52) (low : -1074 ≤ e) :
    roundWithAccuracy .binary64 .positive m e .exact = .finite .positive m e pos := by
  have target : Format.binary64.targetExponent (totalExponent m e) = e := by
    rw [targetExponent_of_log2 (by omega), log]
    omega
  have steady : shiftToTargetExponent .binary64 m e .exact = (⟨m, false, false⟩, e) := by
    rw [shiftToTargetExponent, target, shiftToExponent, Int.sub_self]
    show (_, e + 0) = _
    rw [Int.add_zero]
    rfl
  have whole : (⟨m, false, false⟩ : ExtendedMantissa).roundedMantissa = m := rfl
  simp only [roundWithAccuracy, steady, whole, dif_neg pos.ne']

/-- A count is rounded to itself. -/
theorem round_exact (pos : 0 < n) (small : n < 2 ^ 53) :
    UnpackedFloat.round .binary64 .positive n 0 = .finite .positive (n * 2 ^ (52 - n.log2)) (n.log2 - 52)
      (Nat.mul_pos pos (Nat.two_pow_pos _)) := by
  have top : n.log2 < 53 := (Nat.log2_lt pos.ne').2 small
  have target : Format.binary64.targetExponent (totalExponent n 0) = n.log2 - 52 := by
    rw [targetExponent_of_log2 (by omega), Int.add_zero]
  have places : (0 - ((n.log2 : ℤ) - 52)).toNat = 52 - n.log2 := by omega
  have exponent : (0 : ℤ) - (52 - n.log2 : ℕ) = n.log2 - 52 := by omega
  simp only [UnpackedFloat.round, target, decreaseExponent, places, exponent, Nat.shiftLeft_eq]
  apply roundWithAccuracy_exact
  · rw [log2_mul_two_pow pos.ne']
    omega
  · omega

/-! ## The order -/

/-- The place of the float of a count. -/
def placeOfNat (n : ℕ) : Place :=
  if n = 0 then toLex (0, toLex (0, 0))
  else toLex (1, toLex (n.log2 - 52, n * 2 ^ (52 - n.log2)))

theorem place?_toFloat {w : UInt64} (small : w.toNat < 2 ^ 53) :
    place? w.toFloat = some (placeOfNat w.toNat) := by
  show placeOf? (unpack .binary64 (pack .binary64 (normalize .binary64 w.toNat 0 .positive))) = _
  rcases Nat.eq_zero_or_pos w.toNat with none | pos
  · rw [none]
    rfl
  · have top : w.toNat.log2 < 53 := (Nat.log2_lt pos.ne').2 small
    have more : compare (w.toNat : ℤ) 0 = .gt := compare_gt_iff_gt.2 (Int.natCast_pos.2 pos)
    have log : (w.toNat * 2 ^ (52 - w.toNat.log2)).log2 = 52 := by
      rw [log2_mul_two_pow pos.ne']
      omega
    simp only [UnpackedFloat.normalize, more]
    show placeOf? (unpack .binary64 (pack .binary64
      (UnpackedFloat.round .binary64 .positive w.toNat 0))) = _
    rw [round_exact pos small, unpack_pack _ log (by omega) (by omega), placeOfNat, if_neg pos.ne']
    rfl

/-- A larger count has a larger place. -/
theorem placeOfNat_lt (less : m < n) : placeOfNat m < placeOfNat n := by
  have pos : n ≠ 0 := Nat.ne_zero_of_lt less
  rw [placeOfNat, placeOfNat, if_neg pos]
  split
  · apply Prod.Lex.toLex_lt_toLex.2
    exact .inl Int.zero_lt_one
  · next other =>
    have logs : m.log2 ≤ n.log2 := (Nat.le_log2 pos).2 ((Nat.log2_self_le other).trans less.le)
    apply Prod.Lex.toLex_lt_toLex.2
    refine .inr ⟨rfl, Prod.Lex.toLex_lt_toLex.2 ?_⟩
    rcases Nat.lt_or_eq_of_le logs with fewer | same
    · exact .inl (by omega)
    · refine .inr ⟨by rw [same], ?_⟩
      dsimp only
      rw [same]
      exact_mod_cast Nat.mul_lt_mul_of_pos_right less (Nat.two_pow_pos _)

variable {v w : UInt64}

/-- Floats of counts compare as the counts do. -/
theorem toFloat_le_iff (hv : v.toNat < 2 ^ 53) (hw : w.toNat < 2 ^ 53) :
    v.toFloat ≤ w.toFloat ↔ v ≤ w := by
  rw [le_iff, place?_toFloat hv, place?_toFloat hw, UInt64.le_iff_toNat_le]
  simp only [Option.mem_def, Option.some.injEq, exists_eq_left']
  constructor
  · intro le
    by_contra more
    exact absurd (placeOfNat_lt (Nat.lt_of_not_le more)) (not_lt.2 le)
  · intro le
    rcases Nat.lt_or_eq_of_le le with less | same
    · exact (placeOfNat_lt less).le
    · rw [same]

/-- The float of a count is no number with an exponent above zero. -/
theorem toFloat_ne {x : Float} {a e m : ℤ} (hw : w.toNat < 2 ^ 53)
    (large : place? x = some (toLex (a, toLex (e, m)))) (above : 0 < e) :
    (w.toFloat == x) = false := by
  apply Bool.eq_false_iff.2
  intro same
  obtain ⟨place, mem, mem'⟩ := eq_iff.1 same
  rw [place?_toFloat hw, Option.mem_some_iff] at mem
  rw [large, Option.mem_some_iff] at mem'
  rw [← mem, placeOfNat] at mem'
  split at mem'
  · cases mem'
    exact absurd above (Int.lt_irrefl 0)
  · next pos =>
    have top : w.toNat.log2 < 53 := (Nat.log2_lt pos).2 hw
    have exponent : e = w.toNat.log2 - 52 := congrArg (fun p : Place => p.2.1) mem'
    omega

end QuadIndex.FloatOrder
