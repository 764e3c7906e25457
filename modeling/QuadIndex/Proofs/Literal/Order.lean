import QuadIndex.Proofs.Literal.Meaning

/-!
# Numbers are stored in their order

Digits of one count compare as the numbers that they write, so the payloads of signed numbers compare
as the numbers do (`intPayload_lt_intPayload_iff`). The codings of whole numbers and of times store
such a payload: that of the rank of what the literal denotes (`rank_of_encode`).
-/

namespace QuadIndex

open Bytes

namespace Hex

theorem digit_lt_digit_iff {m n : Nat} (hm : m < 16) (hn : n < 16) : digit m < digit n ↔ m < n := by
  have all : ∀ m n : Fin 16, digit m < digit n ↔ m < n := by decide
  exact all ⟨m, hm⟩ ⟨n, hn⟩

theorem digit_inj {m n : Nat} (hm : m < 16) (hn : n < 16) : digit m = digit n ↔ m = n := by
  constructor
  · intro same
    have read := digitValue?_digit hm
    rw [same, digitValue?_digit hn, Option.some.injEq] at read
    exact read.symm
  · rintro rfl
    rfl

/-- Digits of one count compare as the numbers that they write. -/
theorem digits_lt_digits_iff (width m n : Nat) :
    digits width m < digits width n ↔ m % 16 ^ width < n % 16 ^ width := by
  induction width with
  | zero => simp [digits, Nat.mod_one]
  | succ width ih =>
    have cut (k : Nat) : k % 16 ^ (width + 1) =
        k % 16 ^ width + 16 ^ width * (k / 16 ^ width % 16) := by rw [Nat.pow_succ, Nat.mod_mul]
    have last (k : Nat) : k % 16 ^ width < 16 ^ width := Nat.mod_lt _ (by simp)
    have lead (k : Nat) : k / 16 ^ width % 16 < 16 := Nat.mod_lt _ (by decide)
    rw [digits, digits, List.cons_lt_cons_iff, digit_lt_digit_iff (lead m) (lead n),
      digit_inj (lead m) (lead n), ih, cut m, cut n]
    generalize m / 16 ^ width % 16 = x
    generalize n / 16 ^ width % 16 = y
    have hm := last m
    have hn := last n
    rcases Nat.lt_trichotomy x y with less | rfl | greater
    · have step : 16 ^ width * (x + 1) ≤ 16 ^ width * y := Nat.mul_le_mul_left _ less
      rw [Nat.mul_add, Nat.mul_one] at step
      exact iff_of_true (.inl less) (by omega)
    · simp
    · have step : 16 ^ width * (y + 1) ≤ 16 ^ width * x := Nat.mul_le_mul_left _ greater
      rw [Nat.mul_add, Nat.mul_one] at step
      exact iff_of_false (by omega) (by omega)

end Hex

/-- The number that times and whole numbers are ordered by, a time being cut to the millisecond. -/
def Meaning.rank? : Meaning → Option Int
  | whole n => some n
  | time millis => some ⌊millis⌋
  | _ => none

@[simp] theorem Meaning.rank?_cut (m : Meaning) : m.cut.rank? = m.rank? := by
  cases m <;> simp [cut, rank?]

namespace LiteralCoding

/-- The payloads of signed numbers of 64 bits compare as the numbers do. -/
theorem intPayload_lt_intPayload_iff {m n : Int} (hm : Numeral.minInt64 ≤ m ∧ m ≤ Numeral.maxInt64)
    (hn : Numeral.minInt64 ≤ n ∧ n ≤ Numeral.maxInt64) : intPayload m < intPayload n ↔ m < n := by
  unfold Numeral.minInt64 Numeral.maxInt64 at hm hn
  have fits {k : Int} (low : -2 ^ 63 ≤ k) (high : k ≤ 2 ^ 63 - 1) :
      (k + 2 ^ 63).toNat % 16 ^ 16 = (k + 2 ^ 63).toNat := Nat.mod_eq_of_lt (by omega)
  rw [intPayload, intPayload, keyPayload, keyPayload, Hex.digits_lt_digits_iff,
    fits hm.1 hm.2, fits hn.1 hn.2]
  omega

theorem intPayload_le_intPayload_iff {m n : Int} (hm : Numeral.minInt64 ≤ m ∧ m ≤ Numeral.maxInt64)
    (hn : Numeral.minInt64 ≤ n ∧ n ≤ Numeral.maxInt64) : intPayload m ≤ intPayload n ↔ m ≤ n := by
  rw [le_iff_not_lt, intPayload_lt_intPayload_iff hn hm, Int.not_lt]

/-- The codings that store a signed number. -/
def numbered : List LiteralCoding := [integer, long, int, dateTime]

theorem numbered_subset_standard : numbered ⊆ standard := by
  simp [numbered, standard]

/-- What a coding of signed numbers stores is the rank of what the literal denotes. -/
theorem rank_of_encode {c : LiteralCoding} (h : c ∈ numbered) {lexical : String} {payload : Bytes}
    (encoded : c.encode lexical = .ok payload) :
    ∃ n, ((valueSpace c.datatype).meaning? lexical).bind Meaning.rank? = some n ∧
      payload = intPayload n ∧ Numeral.minInt64 ≤ n ∧ n ≤ Numeral.maxInt64 := by
  have whole {datatype : Iri} {marker : UInt8} {low high : Int}
      (space : valueSpace datatype = .whole)
      (encoded : (wholeNumber datatype marker low high).encode lexical = .ok payload) :
      ∃ n, ((valueSpace datatype).meaning? lexical).bind Meaning.rank? = some n ∧
        payload = intPayload n ∧ Numeral.minInt64 ≤ n ∧ n ≤ Numeral.maxInt64 := by
    obtain ⟨n, read, _, rfl⟩ := encode_wholeNumber encoded
    have number : Numeral.int? lexical.toList = some n := (Option.filter_eq_some_iff.1 read).1
    refine ⟨n, ?_, rfl, Numeral.bounds_of_int64? read⟩
    rw [space, ValueSpace.meaning?, number]
    rfl
  simp only [numbered, List.mem_cons, List.not_mem_nil, or_false] at h
  rcases h with rfl | rfl | rfl | rfl
  · exact whole rfl encoded
  · exact whole rfl encoded
  · exact whole rfl encoded
  · obtain ⟨t, read, rfl⟩ := encode_dateTime encoded
    obtain ⟨millis, written, floor⟩ := Instant.exactMillis?_of_ofText? read
    refine ⟨t.millis, ?_, rfl, Instant.int64_of_ofText? read⟩
    have time : (valueSpace dateTime.datatype).meaning? lexical = some (.time millis) :=
      congrArg (Option.map Meaning.time) written
    rw [time, Option.bind_some, Meaning.rank?, floor]

/-- The coding stores the number of 64 bits that orders what a literal denotes, and a time that is cut
keeps this number. -/
structure RankedBy (c : LiteralCoding) (rank? : Meaning → Option Int) : Prop where
  mem : c ∈ standard
  cut (m : Meaning) : rank? m.cut = rank? m
  encode {lexical : String} {payload : Bytes} : c.encode lexical = .ok payload →
    ∃ n, ((valueSpace c.datatype).meaning? lexical).bind rank? = some n ∧
      payload = intPayload n ∧ Numeral.minInt64 ≤ n ∧ n ≤ Numeral.maxInt64

theorem rankedBy_of_numbered {c : LiteralCoding} (h : c ∈ numbered) : c.RankedBy Meaning.rank? where
  mem := numbered_subset_standard h
  cut := Meaning.rank?_cut
  encode := rank_of_encode h

end LiteralCoding

end QuadIndex
