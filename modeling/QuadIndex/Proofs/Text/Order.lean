import QuadIndex.Proofs.Order.Beginning
import QuadIndex.Proofs.Text.Utf8

/-!
# Bytes of texts are ordered as their characters

A character of more bytes has the greater number and the greater first byte, and characters of as
many bytes are compared digit by digit. So texts have the order of their characters, and begin with
one another as their bytes do.
-/

namespace QuadIndex.Text

variable {c d : Char} {cs ds : List Char} {xs ys : Bytes}

/-- The numbers of characters have a gap. -/
theorem toNat_bounds (c : Char) :
    c.toNat < 0xd800 ∨ 0xdfff < c.toNat ∧ c.toNat < 0x110000 := c.valid

theorem toNat_lt (c : Char) : c.toNat < 0x110000 := by
  have bounds := toNat_bounds c
  omega

theorem ofNat_cons_lt_cons {a b : Nat} (ha : a < 256) (hb : b < 256) (le : a ≤ b)
    (lt : a = b → xs < ys) : UInt8.ofNat a :: xs < UInt8.ofNat b :: ys := by
  rw [List.cons_lt_cons_iff, UInt8.lt_iff_toNat_lt, UInt8.toNat_ofNat', UInt8.toNat_ofNat']
  rcases Nat.lt_or_eq_of_le le with less | rfl
  · exact .inl (by omega)
  · exact .inr ⟨rfl, lt rfl⟩

/-- The bytes of a lower character come first, whatever follows. -/
theorem utf8EncodeChar_append_lt (lt : c < d) :
    String.utf8EncodeChar c ++ xs < String.utf8EncodeChar d ++ ys := by
  have small : d.val.toNat < 0x110000 := toNat_lt d
  have lt : c.val.toNat < d.val.toNat := lt
  dsimp only [String.utf8EncodeChar]
  generalize c.val.toNat = v at lt
  generalize d.val.toNat = w at lt small
  -- one case for any two lengths: a digit is no greater where the digits before it are the same
  split_ifs <;> simp only [List.cons_append, List.nil_append]
  all_goals repeat' first
    | omega
    | refine ofNat_cons_lt_cons ?_ ?_ ?_ fun _ => ?_

theorem spell_lt_spell (lt : cs < ds) : spell cs < spell ds := by
  induction ds generalizing cs with
  | nil => exact absurd lt (List.not_lt_nil cs)
  | cons d ds ih =>
    cases cs with
    | nil =>
      have some : spell (d :: ds) ≠ spell [] := fun same =>
        absurd (spell_injective same) (List.cons_ne_nil d ds)
      obtain ⟨b, bs, eq⟩ := List.exists_cons_of_ne_nil some
      rw [eq]
      exact List.nil_lt_cons b bs
    | cons c cs =>
      rw [spell_cons, spell_cons]
      rcases List.cons_lt_cons_iff.1 lt with less | ⟨rfl, less⟩
      · exact utf8EncodeChar_append_lt less
      · exact List.append_left_lt (ih less)

/-- Texts are ordered as their characters. -/
theorem spell_lt_spell_iff : spell cs < spell ds ↔ cs < ds := by
  refine ⟨fun lt => Decidable.byContradiction fun least => ?_, spell_lt_spell⟩
  by_cases greater : ds < cs
  · exact List.lt_asymm lt (spell_lt_spell greater)
  · obtain rfl : cs = ds := Std.Trichotomous.trichotomous _ _ least greater
    exact List.lt_irrefl _ lt

end QuadIndex.Text
