import QuadIndex.Proofs.Bytes.Order

/-!
# The range of a beginning

The extensions of a byte string are the keys from it up to the least byte string above them all
(`endOf_isLeast`). Only where every byte is 0xff is there no such string; the range then ends at the
byte 0xff and leaves out the keys that begin with it (`contains_startingWith_of_largest`). So for keys
that do not, every range of a beginning is exact (`startingWith_exact`).
-/

namespace QuadIndex.ByteRange

variable {lead key : Bytes}

/-- The end of the range lies above every extension, and no byte string below it does. -/
theorem endOf_isLeast (h : ∃ b ∈ lead, b ≠ 0xff) :
    (∀ rest, lead ++ rest < endOf lead) ∧
    ∀ bound, (∀ rest, lead ++ rest < bound) → endOf lead ≤ bound := by
  have exact_ (key : Bytes) : (startingWith lead).contains key = true ↔ lead <+: key :=
    contains_startingWith_iff h
  constructor
  · intro rest
    exact (contains_iff.1 ((exact_ _).2 (List.prefix_append lead rest))).2
  · intro bound above
    rw [Bytes.le_iff_not_lt]
    intro less
    have from_ : lead ≤ bound := by
      rw [← List.append_nil lead]
      exact List.le_of_lt (above [])
    -- A bound below the end would lie in the range, and so above itself.
    obtain ⟨rest, rfl⟩ := (exact_ bound).1 (contains_iff.2 ⟨from_, less⟩)
    exact List.lt_irrefl _ (above rest)

theorem lt_largest_iff : key < [0xff] ↔ key.head? ≠ some 0xff := by
  cases key with
  | nil => simp
  | cons x key =>
    rw [List.cons_lt_cons_iff, List.head?_cons, ne_eq, Option.some.injEq]
    constructor
    · rintro (less | ⟨_, less⟩) rfl
      · exact UInt8.lt_irrefl _ less
      · exact List.not_lt_nil _ less
    · intro apart
      have small := x.toNat_lt
      have number : x.toNat ≠ 255 := fun same => apart (UInt8.toNat_inj.1 same)
      refine .inl (UInt8.lt_iff_toNat_lt.2 ?_)
      show x.toNat < 255
      omega

/-- There is no end above all extensions of a string of bytes 0xff. -/
theorem not_bounded_of_largest (h : ∀ b ∈ lead, b = 0xff) (bound : Bytes) :
    ∃ rest, ¬ lead ++ rest < bound := by
  refine ⟨List.replicate (bound.length + 1) 0xff, fun above => ?_⟩
  -- What is not below bytes 0xff begins with them all, and the bound is too short for that.
  have largest : ∀ x ∈ lead ++ List.replicate (bound.length + 1) 0xff, ∀ y, ¬ x < y := by
    intro x mem
    rcases List.mem_append.1 mem with mem | mem
    · exact not_largest_lt (h x mem)
    · exact not_largest_lt (List.eq_of_mem_replicate mem)
  have begins := Beginning.of_greatest largest fun less =>
    List.lt_irrefl _ (List.lt_trans less above)
  have lengths := begins.length_le
  rw [List.length_append, List.length_replicate] at lengths
  omega

/-- The range of a string of bytes 0xff ends at one such byte. -/
theorem contains_startingWith_of_largest (h : ∀ b ∈ lead, b = 0xff) :
    (startingWith lead).contains key = true ↔ lead <+: key ∧ key.head? ≠ some 0xff := by
  rw [contains_iff, startingWith, endOf, successor?_eq_none_iff.2 h, Option.getD_none,
    lt_largest_iff]
  refine and_congr_left fun _ => ⟨fun le => ?_, fun begins => begins.le⟩
  exact Beginning.of_greatest (fun x mem => not_largest_lt (h x mem)) le

/-- The range of a beginning is exact: of the keys that do not begin with 0xff it holds those that
have the beginning and no others. Where the beginning has a byte other than 0xff that is so for all
keys, and the range ends at the least byte string above every extension; where it has none, no byte
string is above every extension. -/
theorem startingWith_exact (lead : Bytes) :
    (∀ key, key.head? ≠ some 0xff → ((startingWith lead).contains key = true ↔ lead <+: key)) ∧
    ((∃ b ∈ lead, b ≠ 0xff) →
      (∀ key, (startingWith lead).contains key = true ↔ lead <+: key) ∧
      (∀ rest, lead ++ rest < endOf lead) ∧
      ∀ bound, (∀ rest, lead ++ rest < bound) → endOf lead ≤ bound) ∧
    ((∀ b ∈ lead, b = 0xff) → ∀ bound, ∃ rest, ¬ lead ++ rest < bound) := by
  refine ⟨fun key first => ?_, fun h => ⟨fun key => contains_startingWith_iff h, endOf_isLeast h⟩,
    fun h => not_bounded_of_largest h⟩
  by_cases h : ∀ b ∈ lead, b = 0xff
  · rw [contains_startingWith_of_largest h]
    exact and_iff_left first
  · refine contains_startingWith_iff ?_
    simpa only [Classical.not_forall, exists_prop] using h

end QuadIndex.ByteRange
