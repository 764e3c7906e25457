import QuadIndex.Bytes
import QuadIndex.Proofs.Number.FloatOrder

/-!
# Floats told apart by their order

The word of a float that is a number is made up of a sign, an exponent and a mantissa, and unpacking
the word loses none of them (`fields?_unpack`). The order sees all of them but the sign of a zero. So
floats that are numbers, and not the negative zero, are the same where neither is less
(`Proper.le_antisymm`).
-/

namespace QuadIndex.FloatOrder

open Float.Model (Format UnpackedFloat)
open Float.Model.UnpackedFloat

/-! ## Words -/

section Words

variable {v w : BitVec 64}

theorem toNat_extractLsb' (start len : ℕ) (w : BitVec 64) :
    (w.extractLsb' start len).toNat = w.toNat / 2 ^ start % 2 ^ len := by
  rw [BitVec.extractLsb'_toNat, Nat.shiftRight_eq_div_pow]

/-- A word is its sign, its exponent and its mantissa. -/
theorem eq_of_parts (sign : @unpackSign .binary64 v = @unpackSign .binary64 w)
    (exponent : @unpackExponent .binary64 v = @unpackExponent .binary64 w)
    (mantissa : @unpackMantissa .binary64 v = @unpackMantissa .binary64 w) :
    v = w := by
  have high : v.toNat / 2 ^ 63 % 2 ^ 1 = w.toNat / 2 ^ 63 % 2 ^ 1 := by
    rw [← toNat_extractLsb', ← toNat_extractLsb']
    exact congrArg BitVec.toNat sign
  have middle : v.toNat / 2 ^ 52 % 2 ^ 11 = w.toNat / 2 ^ 52 % 2 ^ 11 := by
    rw [← toNat_extractLsb', ← toNat_extractLsb']
    exact congrArg BitVec.toNat exponent
  have low : v.toNat / 2 ^ 0 % 2 ^ 52 = w.toNat / 2 ^ 0 % 2 ^ 52 := by
    rw [← toNat_extractLsb', ← toNat_extractLsb']
    exact congrArg BitVec.toNat mantissa
  have hv := v.isLt
  have hw := w.isLt
  apply BitVec.eq_of_toNat_eq
  omega

theorem ofBitVec_inj {b c : BitVec 1} (same : Sign.ofBitVec b = Sign.ofBitVec c) : b = c := by
  rcases BitVec.eq_zero_or_eq_one b with rfl | rfl <;>
    rcases BitVec.eq_zero_or_eq_one c with rfl | rfl
  · rfl
  · cases same
  · cases same
  · rfl

/-- The sign, the exponent and the mantissa in the word of a number. -/
def fields? : UnpackedFloat → Option (Sign × ℕ × ℕ)
  | .notANumber => none
  | .infinity sign => some (sign, 2047, 0)
  | .zero sign => some (sign, 0, 0)
  | .finite sign m e _ =>
    if m < 2 ^ 52 then some (sign, 0, m) else some (sign, (e + 1075).toNat, m - 2 ^ 52)

/-- Unpacking loses nothing of the word of a number. -/
theorem fields?_unpack (number : unpack .binary64 w ≠ .notANumber) :
    fields? (unpack .binary64 w) = some (Sign.ofBitVec (@unpackSign .binary64 w),
      (@unpackExponent .binary64 w).toNat,
      (@unpackMantissa .binary64 w).toNat) := by
  have below : (@unpackMantissa .binary64 w).toNat < 2 ^ 52 := BitVec.isLt _
  have above : (1#1 ++ @unpackMantissa .binary64 w).toNat =
      2 ^ 52 + (@unpackMantissa .binary64 w).toNat := by
    show (1#1 ++ (@unpackMantissa .binary64 w : BitVec 52)).toNat = _
    rw [BitVec.toNat_append, Nat.shiftLeft_eq, Nat.mul_comm, ← Nat.two_pow_add_eq_or_of_lt below]
    rfl
  unfold unpack at number ⊢
  dsimp only at number ⊢
  split_ifs at number ⊢ with full empty least zero
  · rw [full, empty]
    rfl
  · exact absurd rfl number
  · rw [least, zero]
    rfl
  · rw [fields?, if_pos below, least]
    rfl
  · have biased : ((@unpackExponent .binary64 w).toNat - (1023 + 52) + 1075 : ℤ).toNat =
        (@unpackExponent .binary64 w).toNat := by omega
    rw [fields?, if_neg (by omega), above, Nat.add_sub_cancel_left]
    exact congrArg (fun n => some (_, n, _)) biased

/-- The word of a number is determined by what it is unpacked to. -/
theorem unpack_inj (number : unpack .binary64 v ≠ .notANumber)
    (same : unpack .binary64 v = unpack .binary64 w) : v = w := by
  have parts := fields?_unpack number
  rw [same, fields?_unpack (same ▸ number), Option.some.injEq, Prod.mk.injEq, Prod.mk.injEq] at parts
  obtain ⟨sign, exponent, mantissa⟩ := parts
  exact (eq_of_parts (ofBitVec_inj sign) (BitVec.eq_of_toNat_eq exponent)
    (BitVec.eq_of_toNat_eq mantissa)).symm

end Words

/-! ## Floats -/

variable {a b : Float} {x : Place}

theorem unpack_ne (h : a.isNaN = false) : a.toModel.unpack ≠ .notANumber := by
  intro same
  change a.toModel.unpack.isNaN = false at h
  rw [same] at h
  cases h

/-- A number is determined by what it is unpacked to. -/
theorem eq_of_unpack (h : a.isNaN = false) (same : a.toModel.unpack = b.toModel.unpack) : a = b := by
  have number : unpack .binary64 a.toBits.toBitVec ≠ .notANumber := unpack_ne h
  have words : a.toBits = b.toBits := UInt64.toBitVec_inj.1 (unpack_inj number same)
  obtain ⟨⟨v, _⟩⟩ := a
  obtain ⟨⟨w, _⟩⟩ := b
  cases words
  rfl

/-- The zero with a sign. -/
def negativeZero : Float := Float.ofBits 0x8000000000000000

theorem unpack_negativeZero : negativeZero.toModel.unpack = .zero .negative := by rfl

/-- The float is a number, and not the negative zero. -/
structure Proper (a : Float) : Prop where
  number : a.isNaN = false
  unsigned : a ≠ negativeZero

theorem Proper.unpack_ne_zero (h : Proper a) : a.toModel.unpack ≠ .zero .negative :=
  fun zero => h.unsigned (eq_of_unpack h.number (zero.trans unpack_negativeZero.symm))

/-- Apart from the negative zero, a number is determined by its place. -/
theorem eq_of_placeOf? {u v : UnpackedFloat} (number : u ≠ .notANumber) (hu : u ≠ .zero .negative)
    (hv : v ≠ .zero .negative) (same : placeOf? u = placeOf? v) : u = v := by
  rcases u with (_ | _) | _ | (_ | _) | ⟨_ | _, m, e⟩ <;>
    rcases v with (_ | _) | _ | (_ | _) | ⟨_ | _, m', e'⟩ <;>
    simp_all [placeOf?]

theorem Proper.eq_of_place (ha : Proper a) (hb : Proper b) (hx : x ∈ place? a)
    (hx' : x ∈ place? b) : a = b :=
  eq_of_unpack ha.number <| eq_of_placeOf? (unpack_ne ha.number) ha.unpack_ne_zero
    hb.unpack_ne_zero (hx.trans hx'.symm)

/-- Proper floats of which neither is less are the same. -/
theorem Proper.le_antisymm (ha : Proper a) (hb : Proper b) (h : a ≤ b) (h' : b ≤ a) : a = b := by
  obtain ⟨x, hx, y, hy, le⟩ := le_iff.1 h
  obtain ⟨y', hy', x', hx', ge⟩ := le_iff.1 h'
  cases Option.mem_unique hx hx'
  cases Option.mem_unique hy hy'
  cases le.antisymm ge
  exact ha.eq_of_place hb hx hy

end QuadIndex.FloatOrder
