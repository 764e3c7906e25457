import QuadIndex.Bytes.Range
import QuadIndex.Proofs.Order.Beginning

/-!
# The order of delimited byte strings

A delimiter sorts below every byte of the string before it. So a bound on a string stays the same
bound once the string is closed by a delimiter and followed by anything (`le_append_iff`,
`append_lt_iff`), and the extensions of a beginning are one range of keys
(`contains_startingWith_iff`).
-/

namespace QuadIndex

namespace Bytes

theorem le_iff_not_lt {a b : Bytes} : a ≤ b ↔ ¬ b < a := Iff.rfl

theorem append_lt_append_iff (lead : Bytes) {a b : Bytes} : lead ++ a < lead ++ b ↔ a < b := by
  induction lead with
  | nil => rfl
  | cons c lead ih => simp [ih]

theorem append_le_append_iff (lead : Bytes) {a b : Bytes} : lead ++ a ≤ lead ++ b ↔ a ≤ b := by
  rw [le_iff_not_lt, le_iff_not_lt, append_lt_append_iff]

/-- Every byte lies above a delimiter and below 0xff, the byte that no text holds. -/
def Above (d : UInt8) (bs : Bytes) : Prop := ∀ x ∈ bs, d < x ∧ x < 0xff

theorem Above.nil {d : UInt8} : Above d [] := fun _ hx => absurd hx List.not_mem_nil

theorem Above.mono {d e : UInt8} {bs : Bytes} (h : Above e bs) (le : d ≤ e) : Above d bs :=
  fun x hx => ⟨UInt8.lt_of_le_of_lt le (h x hx).1, (h x hx).2⟩

theorem Above.tail {d b : UInt8} {bs : Bytes} (h : Above d (b :: bs)) : Above d bs :=
  fun x hx => h x (List.mem_cons_of_mem b hx)

theorem Above.append {d : UInt8} {a b : Bytes} (ha : Above d a) (hb : Above d b) :
    Above d (a ++ b) :=
  fun x hx => (List.mem_append.1 hx).elim (ha x) (hb x)

theorem Above.cons {d b : UInt8} {bs : Bytes} (hb : d < b ∧ b < 0xff) (h : Above d bs) :
    Above d (b :: bs) := by
  intro x hx
  rcases List.mem_cons.1 hx with rfl | hx
  · exact hb
  · exact h x hx

theorem Above.not_mem {d e : UInt8} {bs : Bytes} (h : Above d bs) (le : e ≤ d) : e ∉ bs :=
  fun he => UInt8.lt_irrefl e (UInt8.lt_of_le_of_lt le (h e he).1)

/-- A bound whose bytes lie above a delimiter does not see what the delimiter closes off. -/
theorem append_lt_iff {d : UInt8} {bound : Bytes} (h : Above d bound) (a r : Bytes) :
    a ++ d :: r < bound ↔ a < bound := by
  induction a generalizing bound with
  | nil =>
    cases bound with
    | nil => simp
    | cons y bound =>
      have less : d < y := (h y (by simp)).1
      simp [List.cons_lt_cons_iff, less]
  | cons x a ih =>
    cases bound with
    | nil => simp
    | cons y bound =>
      rw [List.cons_append, List.cons_lt_cons_iff, List.cons_lt_cons_iff,
        ih h.tail]

theorem le_append_iff {d : UInt8} {bound : Bytes} (h : Above d bound) (a r : Bytes) :
    bound ≤ a ++ d :: r ↔ bound ≤ a := by
  rw [le_iff_not_lt, le_iff_not_lt, append_lt_iff h]

/-- What is closed by a delimiter is told from what follows it. -/
theorem closed_inj {d : UInt8} {a b r s : Bytes} (ha : d ∉ a) (hb : d ∉ b)
    (same : a ++ d :: r = b ++ d :: s) : a = b ∧ r = s := by
  have cut := cut?_append ha r
  rw [same, cut?_append hb, Option.some.injEq, Prod.mk.injEq] at cut
  exact ⟨cut.1.symm, cut.2.symm⟩

/-- What two delimited strings begin with is decided by the strings. -/
theorem delimited_prefix_iff {d : UInt8} {a b r : Bytes} (ha : d ∉ a) (hb : d ∉ b) :
    a ++ [d] <+: b ++ d :: r ↔ a = b := by
  constructor
  · rintro ⟨t, ht⟩
    have cut : cut? d (b ++ d :: r) = some (a, t) := by
      rw [← ht, List.append_assoc, List.singleton_append, cut?_append ha]
    rw [cut?_append hb] at cut
    exact (congrArg Prod.fst (Option.some.inj cut)).symm
  · rintro rfl
    exact ⟨r, by simp⟩

end Bytes

namespace ByteRange

open Bytes

theorem contains_iff {r : ByteRange} {key : Bytes} :
    r.contains key = true ↔ r.start ≤ key ∧ key < r.stop := by
  simp [contains]

/-- What lies between two extensions of a beginning extends it. -/
theorem prefix_of_between {lead a b key : Bytes} (le : lead ++ a ≤ key) (lt : key < lead ++ b) :
    lead <+: key := by
  obtain ⟨t, rfl, _⟩ := Beginning.of_between le lt
  exact List.prefix_append lead t

/-- The last byte that has a next one gives way to it. -/
theorem exists_of_successor? {lead s : Bytes} (h : successor? lead = some s) :
    ∃ before b after, lead = before ++ b :: after ∧ s = before ++ [b + 1] ∧ b ≠ 0xff ∧
      ∀ x ∈ after, x = 0xff := by
  induction lead generalizing s with
  | nil => cases h
  | cons b lead ih =>
    cases later : successor? lead with
    | some t =>
      simp only [successor?, later, Option.some.injEq] at h
      obtain ⟨before, c, after, rfl, rfl, rest⟩ := ih later
      exact ⟨b :: before, c, after, rfl, h.symm, rest⟩
    | none =>
      by_cases last : b = 0xff
      · simp [successor?, later, last] at h
      · simp only [successor?, later, last, if_false, Option.some.injEq] at h
        exact ⟨[], b, lead, rfl, h.symm, last, successor?_eq_none_iff.1 later⟩

theorem lt_add_one_iff {b x : UInt8} (h : b ≠ 0xff) : x < b + 1 ↔ ¬ b < x := by
  have apart : b.toNat ≠ 255 := fun e => h (UInt8.toNat_inj.1 e)
  have small := b.toNat_lt
  have one : (1 : UInt8).toNat = 1 := rfl
  rw [UInt8.lt_iff_toNat_lt, UInt8.lt_iff_toNat_lt, UInt8.toNat_add]
  omega

/-- No byte lies above 0xff. -/
theorem not_largest_lt {x : UInt8} (h : x = 0xff) (y : UInt8) : ¬ x < y := by
  subst h
  intro less
  have small := y.toNat_lt
  have above := UInt8.lt_iff_toNat_lt.1 less
  have last : (0xff : UInt8).toNat = 255 := rfl
  omega

/-- From a beginning on, its extensions are what lies below its successor. -/
theorem lt_successor?_iff {lead s key : Bytes} (h : successor? lead = some s) (le : lead ≤ key) :
    key < s ↔ lead <+: key := by
  obtain ⟨before, b, after, rfl, rfl, apart, largest⟩ := exists_of_successor? h
  exact Beginning.lt_next_iff (fun x => lt_add_one_iff apart) (UInt8.lt_irrefl b)
    (fun x mem => not_largest_lt (largest x mem)) le

/-- The range of a beginning that is not all 0xff holds its extensions and nothing else. -/
theorem contains_startingWith_iff {lead key : Bytes} (h : ∃ b ∈ lead, b ≠ 0xff) :
    (startingWith lead).contains key = true ↔ lead <+: key := by
  rw [contains_iff]
  cases hs : successor? lead with
  | none =>
    obtain ⟨b, hb, apart⟩ := h
    exact absurd (successor?_eq_none_iff.1 hs b hb) apart
  | some s =>
    simp only [startingWith, endOf, hs, Option.getD_some]
    constructor
    · rintro ⟨le, lt⟩
      exact (lt_successor?_iff hs le).1 lt
    · intro hp
      have le : lead ≤ key := hp.le
      exact ⟨le, (lt_successor?_iff hs le).2 hp⟩

end ByteRange

end QuadIndex
