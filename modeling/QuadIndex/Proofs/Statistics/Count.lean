import Mathlib.Algebra.BigOperators.Finprod
import Mathlib.Data.Set.Card
import QuadIndex.Key.Layout
import QuadIndex.Statistics.Collector

/-!
# What statistics count

The quads of a set that carry given values, and for two predicates the pairs of their quads that
share the subject. A list without repetitions is counted as the set of its members.
-/

namespace QuadIndex

/-- The positions that a kind of cardinality fixes. -/
def CardinalityKind.positions : CardinalityKind → List Position
  | subject => [.subject]
  | predicate => [.predicate]
  | object => [.object]
  | subjectPredicate => [.subject, .predicate]
  | predicateObject => [.predicate, .object]
  | subjectObject => [.subject, .object]

namespace Quad

/-- What stands in a position of the quad. -/
def valueAt (q : Quad) : Position → Value
  | .subject => .iri q.subject
  | .predicate => .iri q.predicate
  | .object => q.object

/-- What stands in the positions that a kind fixes. -/
def valuesFor (q : Quad) (kind : CardinalityKind) : List Value := kind.positions.map q.valueAt

theorem valuesFor_predicate {q : Quad} {p : Iri} :
    q.valuesFor .predicate = [.iri p] ↔ q.predicate = p := by
  simp [valuesFor, CardinalityKind.positions, valueAt]

theorem valuesFor_subjectPredicate {q : Quad} {s p : Iri} :
    q.valuesFor .subjectPredicate = [.iri s, .iri p] ↔ q.subject = s ∧ q.predicate = p := by
  simp [valuesFor, CardinalityKind.positions, valueAt]

end Quad

/-- A quad is counted once for each kind, under the values that it carries for it. -/
theorem Tally.keys_eq (q : Quad) :
    keys q = CardinalityKind.all.map fun kind => (kind, q.valuesFor kind) := rfl

namespace CardinalityKind

/-- How many quads of a set carry the given values. -/
noncomputable def count (kind : CardinalityKind) (values : List Value) (S : Set Quad) : Nat :=
  {q ∈ S | q.valuesFor kind = values}.ncard

/-- How many quads of a list carry the given values. -/
def countIn (kind : CardinalityKind) (values : List Value) (qs : List Quad) : Nat :=
  qs.countP fun q => q.valuesFor kind = values

variable {kind : CardinalityKind} {values : List Value} {qs : List Quad} {s p : Iri}

theorem countIn_append (kind : CardinalityKind) (values : List Value) (qs rs : List Quad) :
    kind.countIn values (qs ++ rs) = kind.countIn values qs + kind.countIn values rs :=
  List.countP_append

theorem ncard_eq_length (nodup : qs.Nodup) : {q | q ∈ qs}.ncard = qs.length := by
  have members : {q | q ∈ qs} = (qs.toFinset : Set Quad) := by
    ext q
    simp
  rw [members, Set.ncard_coe_finset, List.toFinset_card_of_nodup nodup]

theorem count_eq_countIn (nodup : qs.Nodup) : kind.count values {q | q ∈ qs} =
    kind.countIn values qs := by
  have members : {q ∈ {q | q ∈ qs} | q.valuesFor kind = values} =
      {q | q ∈ qs.filter fun q => q.valuesFor kind = values} := by
    ext q
    simp
  rw [count, members, ncard_eq_length (nodup.filter _), countIn, List.countP_eq_length_filter]

theorem countIn_pos_iff :
    0 < subjectPredicate.countIn [.iri s, .iri p] qs ↔ ∃ q ∈ qs, q.subject = s ∧ q.predicate = p := by
  simp [countIn, List.countP_pos_iff, Quad.valuesFor_subjectPredicate]

/-- The quads of a predicate with one of some subjects. -/
theorem sum_countIn_le (F : Finset Iri) (p : Iri) (qs : List Quad) :
    ∑ s ∈ F, subjectPredicate.countIn [.iri s, .iri p] qs ≤ predicate.countIn [.iri p] qs := by
  induction qs with
  | nil => simp [countIn]
  | cons q qs ih =>
    simp only [countIn, Quad.valuesFor_subjectPredicate, Quad.valuesFor_predicate,
      List.countP_cons] at ih ⊢
    rw [Finset.sum_add_distrib]
    refine Nat.add_le_add ih ?_
    by_cases same : q.predicate = p
    · simp only [same, and_true, decide_eq_true_eq, if_true, Finset.sum_ite_eq]
      split <;> simp
    · simp [same]

end CardinalityKind

open CardinalityKind

/-- How many pairs of quads of a set share their subject, the first with one predicate and the second
with the other. -/
noncomputable def sharing (a b : Iri) (S : Set Quad) : Nat :=
  ∑ᶠ s : Iri, subjectPredicate.count [.iri s, .iri a] S * subjectPredicate.count [.iri s, .iri b] S

/-- How many pairs of quads of a list share their subject. -/
def sharingIn (a b : Iri) (qs : List Quad) : Nat :=
  ∑ s ∈ (qs.map (·.subject)).toFinset,
    subjectPredicate.countIn [.iri s, .iri a] qs * subjectPredicate.countIn [.iri s, .iri b] qs

section

variable {qs : List Quad} {a b : Iri}

theorem mem_subjects_of_countIn {s p : Iri} (h : subjectPredicate.countIn [.iri s, .iri p] qs ≠ 0) :
    s ∈ (qs.map (·.subject)).toFinset := by
  obtain ⟨q, mem, rfl, _⟩ := countIn_pos_iff.1 (Nat.pos_of_ne_zero h)
  exact List.mem_toFinset.2 (List.mem_map.2 ⟨q, mem, rfl⟩)

theorem sharing_eq_sharingIn (nodup : qs.Nodup) : sharing a b {q | q ∈ qs} = sharingIn a b qs := by
  simp only [sharing, count_eq_countIn nodup]
  apply finsum_eq_sum_of_support_subset
  intro s there
  exact mem_subjects_of_countIn (left_ne_zero_of_mul there)

theorem sharingIn_pos_iff : 0 < sharingIn a b qs ↔
    ∃ s, (∃ q ∈ qs, q.subject = s ∧ q.predicate = a) ∧ ∃ q ∈ qs, q.subject = s ∧ q.predicate = b := by
  rw [sharingIn, Finset.sum_pos_iff]
  constructor
  · rintro ⟨s, _, pos⟩
    exact ⟨s, countIn_pos_iff.1 (Nat.pos_of_mul_pos_right pos),
      countIn_pos_iff.1 (Nat.pos_of_mul_pos_left pos)⟩
  · rintro ⟨s, first, second⟩
    have first := countIn_pos_iff.2 first
    exact ⟨s, mem_subjects_of_countIn (Nat.ne_of_gt first),
      Nat.mul_pos first (countIn_pos_iff.2 second)⟩

/-- There are no more pairs with a subject in common than pairs. -/
theorem sharingIn_le (a b : Iri) (qs : List Quad) :
    sharingIn a b qs ≤ predicate.countIn [.iri a] qs * predicate.countIn [.iri b] qs := by
  calc sharingIn a b qs
    _ ≤ ∑ s ∈ (qs.map (·.subject)).toFinset,
          subjectPredicate.countIn [.iri s, .iri a] qs * predicate.countIn [.iri b] qs := by
        refine Finset.sum_le_sum fun s _ => Nat.mul_le_mul_left _ ?_
        simpa using sum_countIn_le {s} b qs
    _ = (∑ s ∈ (qs.map (·.subject)).toFinset, subjectPredicate.countIn [.iri s, .iri a] qs) *
          predicate.countIn [.iri b] qs := (Finset.sum_mul _ _ _).symm
    _ ≤ predicate.countIn [.iri a] qs * predicate.countIn [.iri b] qs :=
        Nat.mul_le_mul_right _ (sum_countIn_le _ a qs)

/-- The quads of a list that have the subject, if one is given. -/
def ownOf (subject : Option Iri) (qs : List Quad) : List Quad :=
  qs.filter fun q => subject = some q.subject

/-- The quads of a list that have another subject. -/
def othersOf (subject : Option Iri) (qs : List Quad) : List Quad :=
  qs.filter fun q => subject ≠ some q.subject

theorem countIn_ownOf (s p : Iri) (qs : List Quad) : predicate.countIn [.iri p] (ownOf (some s) qs) =
    subjectPredicate.countIn [.iri s, .iri p] qs := by
  simp only [countIn, ownOf, Quad.valuesFor_subjectPredicate, Quad.valuesFor_predicate,
    List.countP_filter]
  refine List.countP_congr fun q _ => ?_
  simp [and_comm, @eq_comm Iri s]

theorem countIn_othersOf {r s : Iri} (apart : r ≠ s) (p : Iri) (qs : List Quad) :
    subjectPredicate.countIn [.iri r, .iri p] (othersOf (some s) qs) =
      subjectPredicate.countIn [.iri r, .iri p] qs := by
  simp only [countIn, othersOf, Quad.valuesFor_subjectPredicate, List.countP_filter]
  refine List.countP_congr fun q _ => ?_
  simp only [ne_eq, decide_not, Bool.and_eq_true, decide_eq_true_eq, Bool.not_eq_true',
    decide_eq_false_iff_not, and_iff_left_iff_imp, Option.some.injEq]
  rintro ⟨rfl, _⟩
  exact Ne.symm apart

theorem subjects_othersOf (s : Iri) (qs : List Quad) :
    ((othersOf (some s) qs).map (·.subject)).toFinset =
      (qs.map (·.subject)).toFinset.erase s := by
  ext r
  simp only [othersOf, List.mem_toFinset, List.mem_map, List.mem_filter, Finset.mem_erase,
    decide_eq_true_eq, ne_eq, Option.some.injEq]
  constructor
  · rintro ⟨q, ⟨mem, other⟩, rfl⟩
    exact ⟨Ne.symm other, q, mem, rfl⟩
  · rintro ⟨other, q, mem, rfl⟩
    exact ⟨q, ⟨mem, Ne.symm other⟩, rfl⟩

/-- The pairs of one subject and those of the others. -/
theorem sharingIn_eq_add (a b : Iri) (subject : Option Iri) (qs : List Quad) : sharingIn a b qs =
    sharingIn a b (othersOf subject qs) +
      predicate.countIn [.iri a] (ownOf subject qs) *
        predicate.countIn [.iri b] (ownOf subject qs) := by
  cases subject with
  | none => simp [othersOf, ownOf, countIn]
  | some s =>
    have rest : sharingIn a b (othersOf (some s) qs) =
        ∑ r ∈ (qs.map (·.subject)).toFinset.erase s,
          subjectPredicate.countIn [.iri r, .iri a] qs *
            subjectPredicate.countIn [.iri r, .iri b] qs := by
      rw [sharingIn, subjects_othersOf]
      refine Finset.sum_congr rfl fun r mem => ?_
      have apart := Finset.ne_of_mem_erase mem
      rw [countIn_othersOf apart, countIn_othersOf apart]
    rw [rest, countIn_ownOf, countIn_ownOf, Nat.add_comm, sharingIn]
    by_cases mem : s ∈ (qs.map (·.subject)).toFinset
    · exact (Finset.add_sum_erase _ _ mem).symm
    · have none : subjectPredicate.countIn [.iri s, .iri a] qs = 0 :=
        by_contra fun there => mem (mem_subjects_of_countIn there)
      rw [none, Nat.zero_mul, Nat.zero_add, Finset.erase_eq_of_notMem mem]

end

end QuadIndex
