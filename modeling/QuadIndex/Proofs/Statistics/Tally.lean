import QuadIndex.Proofs.Statistics.Count
import QuadIndex.Proofs.Statistics.Entries

/-!
# Counting quad by quad

After some quads a tally has their counts, the products of all subjects but the last one, and the
predicates of the last one (`Tallied`). Another quad keeps that, as long as a subject that has been
left does not come back (`Tallied.add`); folding adds the products of the last subject
(`Tallied.get?_fold`).
-/

namespace QuadIndex

open CardinalityKind Entries

/-- IRIs compare as their texts. -/
theorem Iri.compare_isLE {a b : Iri} : (compare a b).isLE = true ↔ a.text ≤ b.text := by
  have same : compare a b = (compareOfLessAndEq a.text b.text).then .eq := rfl
  rw [same, Ordering.then_eq]
  exact isLE_compareOfLessAndEq String.le_antisymm String.not_le String.le_total

theorem orderedPair_comm (a b : Iri) : orderedPair a b = orderedPair b a := by
  unfold orderedPair
  rw [if_congr Iri.compare_isLE rfl rfl, if_congr Iri.compare_isLE rfl rfl]
  rcases String.le_total a.text b.text with le | le
  · by_cases ge : b.text ≤ a.text
    · have same : a = b := congrArg Iri.mk (String.le_antisymm le ge)
      rw [same]
    · rw [if_pos le, if_neg ge]
  · by_cases ge : a.text ≤ b.text
    · have same : a = b := congrArg Iri.mk (String.le_antisymm ge le)
      rw [same]
    · rw [if_pos le, if_neg ge]

theorem orderedPair_eq_iff {x y a b : Iri} (apart : x ≠ y) : orderedPair x y = (a, b) ↔
    a.text < b.text ∧ (x = a ∧ y = b ∨ x = b ∧ y = a) := by
  have texts : x.text ≠ y.text := fun same => apart (by cases x; cases y; cases same; rfl)
  unfold orderedPair
  split
  · next le =>
    have less : x.text < y.text := Std.lt_of_le_of_ne (Iri.compare_isLE.1 le) texts
    rw [Prod.mk.injEq]
    constructor
    · rintro ⟨rfl, rfl⟩
      exact ⟨less, .inl ⟨rfl, rfl⟩⟩
    · rintro ⟨ordered, same | ⟨rfl, rfl⟩⟩
      · exact same
      · exact absurd (Std.lt_trans less ordered) Std.lt_irrefl
  · next gt =>
    have less : y.text < x.text := Std.not_le.1 fun le => gt (Iri.compare_isLE.2 le)
    rw [Prod.mk.injEq]
    constructor
    · rintro ⟨rfl, rfl⟩
      exact ⟨less, .inr ⟨rfl, rfl⟩⟩
    · rintro ⟨ordered, ⟨rfl, rfl⟩ | ⟨rfl, rfl⟩⟩
      · exact absurd (Std.lt_trans less ordered) Std.lt_irrefl
      · exact ⟨rfl, rfl⟩

namespace Tally

theorem mem_of_mem_pairs {α : Type} {xs : List α} {x y : α} (h : (x, y) ∈ pairs xs) :
    x ∈ xs ∧ y ∈ xs := by
  induction xs with
  | nil => cases h
  | cons z xs ih =>
    rcases List.mem_append.1 h with first | later
    · obtain ⟨w, mem, same⟩ := List.mem_map.1 first
      cases same
      exact ⟨.head _, .tail _ mem⟩
    · obtain ⟨hx, hy⟩ := ih later
      exact ⟨.tail _ hx, .tail _ hy⟩

theorem pairs_map {α β : Type} (f : α → β) (xs : List α) :
    pairs (xs.map f) = (pairs xs).map (Prod.map f f) := by
  induction xs with
  | nil => rfl
  | cons x xs ih => simp [pairs, ih, Function.comp_def]

theorem sum_map_filter_eq {α : Type} [DecidableEq α] {xs : List α} (nodup : xs.Nodup) (a : α)
    (f : α → Nat) : ((xs.filter fun x => x = a).map f).sum = if a ∈ xs then f a else 0 := by
  rw [List.filter_eq]
  split
  · next mem => rw [List.count_eq_one_of_mem nodup mem]; simp
  · next none => rw [List.count_eq_zero_of_not_mem none]; rfl

/-- The pairs of a key with others that are, in order, the pair of two given keys. -/
theorem sum_orderedPair (c : Iri → Nat) {k : Iri} {ks : List Iri} (fresh : k ∉ ks) (nodup : ks.Nodup)
    (a b : Iri) : ((ks.filter fun y => orderedPair k y = (a, b)).map fun y => c k * c y).sum =
      if a.text < b.text ∧ (k = a ∧ b ∈ ks ∨ k = b ∧ a ∈ ks) then c a * c b else 0 := by
  have meets : ∀ y ∈ ks, decide (orderedPair k y = (a, b)) =
      decide (a.text < b.text ∧ (k = a ∧ y = b ∨ k = b ∧ y = a)) := by
    intro y mem
    exact decide_eq_decide.2 (orderedPair_eq_iff (ne_of_mem_of_not_mem mem fresh).symm)
  rw [List.filter_congr meets]
  by_cases less : a.text < b.text
  · have apart : a ≠ b := fun same => Std.lt_irrefl (same ▸ less)
    by_cases first : k = a
    · subst first
      simp [less, apart, fresh, sum_map_filter_eq nodup]
    · by_cases second : k = b
      · subst second
        simp [less, first, sum_map_filter_eq nodup, Nat.mul_comm]
      · simp [first, second]
  · simp [less]

/-- Of the pairs of distinct keys, one at most is the pair of two given ones. -/
theorem sum_pairs (c : Iri → Nat) {ks : List Iri} (nodup : ks.Nodup) (a b : Iri) :
    (((pairs ks).filter fun x => orderedPair x.1 x.2 = (a, b)).map fun x => c x.1 * c x.2).sum =
      if a.text < b.text ∧ a ∈ ks ∧ b ∈ ks then c a * c b else 0 := by
  induction ks with
  | nil => simp [pairs]
  | cons k ks ih =>
    obtain ⟨fresh, nodup⟩ := List.nodup_cons.1 nodup
    rw [pairs, List.filter_append, List.map_append, List.sum_append, ih nodup, List.filter_map,
      List.map_map]
    refine (congrArg (· + _) (sum_orderedPair c fresh nodup a b)).trans ?_
    by_cases less : a.text < b.text
    · have apart : a ≠ b := fun same => Std.lt_irrefl (same ▸ less)
      grind
    · simp [less]

/-- What the tally has after some quads. -/
structure Tallied (t : Tally) (qs : List Quad) : Prop where
  size : t.size = UInt64.ofNat qs.length
  cardinalities (kind : CardinalityKind) (values : List Value) :
    t.cardinalities.get? (kind, values) = counted (kind.countIn values qs)
  distinctCounts : (t.cardinalities.map (·.1)).Nodup
  predicates (p : Iri) :
    t.predicates.get? p = counted (predicate.countIn [.iri p] (ownOf t.subject qs))
  distinct : (t.predicates.map (·.1)).Nodup
  products (a b : Iri) : t.products.get? (a, b) =
    counted (if a.text < b.text then sharingIn a b (othersOf t.subject qs) else 0)

variable {t : Tally} {qs : List Quad} {q : Quad}

theorem tallied_nil : Tallied {} [] :=
  ⟨rfl, fun _ _ => rfl, List.nodup_nil, fun _ => rfl, List.nodup_nil, fun a b => by
    simp [sharingIn, othersOf]
    rfl⟩

/-- The predicates of the last subject are there with their numbers of quads. -/
theorem Tallied.mem_predicates (h : t.Tallied qs) {e : Iri × UInt64} (mem : e ∈ t.predicates) :
    0 < predicate.countIn [.iri e.1] (ownOf t.subject qs) ∧
      e.2 = UInt64.ofNat (predicate.countIn [.iri e.1] (ownOf t.subject qs)) :=
  counted_eq_some.1 ((h.predicates e.1).symm.trans (get?_of_mem h.distinct mem))

theorem Tallied.mem_keys_iff (h : t.Tallied qs) (p : Iri) :
    p ∈ t.predicates.map (·.1) ↔ predicate.countIn [.iri p] (ownOf t.subject qs) ≠ 0 := by
  constructor
  · intro mem
    obtain ⟨e, found, rfl⟩ := List.mem_map.1 mem
    exact Nat.ne_of_gt (h.mem_predicates found).1
  · intro there
    have found := (h.predicates p).trans (counted_of_pos (Nat.pos_of_ne_zero there))
    exact List.mem_map.2 ⟨_, mem_of_get? found, rfl⟩

/-- Folding adds the products of the last subject. -/
theorem Tallied.get?_fold (h : t.Tallied qs) (a b : Iri) : t.fold.products.get? (a, b) =
    counted (if a.text < b.text then sharingIn a b qs else 0) := by
  let own (p : Iri) : Nat := predicate.countIn [.iri p] (ownOf t.subject qs)
  have words : ∀ x ∈ pairs t.predicates,
      x.1.2 * x.2.2 = UInt64.ofNat (own x.1.1 * own x.2.1) := by
    intro x mem
    obtain ⟨first, second⟩ := mem_of_mem_pairs mem
    rw [(h.mem_predicates first).2, (h.mem_predicates second).2, UInt64.ofNat_mul]
  have pos : ∀ x ∈ pairs t.predicates, 0 < own x.1.1 * own x.2.1 := by
    intro x mem
    obtain ⟨first, second⟩ := mem_of_mem_pairs mem
    exact Nat.mul_pos (h.mem_predicates first).1 (h.mem_predicates second).1
  -- Of all that folding adds, one product at most is for these two predicates.
  have folded : t.fold.products.get? (a, b) =
      counted ((if a.text < b.text then sharingIn a b (othersOf t.subject qs) else 0) +
        (((pairs t.predicates).filter fun x => orderedPair x.1.1 x.2.1 = (a, b)).map fun x =>
          own x.1.1 * own x.2.1).sum) := get?_foldl_add words pos (h.products a b)
  have sum := sum_pairs own h.distinct a b
  rw [pairs_map, List.filter_map, List.map_map] at sum
  refine folded.trans (congrArg counted ((congrArg (_ + ·) sum).trans ?_))
  by_cases less : a.text < b.text
  · have first := h.mem_keys_iff a
    have second := h.mem_keys_iff b
    rw [if_pos less, if_pos less, sharingIn_eq_add a b t.subject qs]
    congr 1
    split
    · rfl
    · next missing =>
      by_contra there
      have := mul_ne_zero_iff.1 (Ne.symm there)
      exact missing ⟨less, first.2 this.1, second.2 this.2⟩
  · simp [less]

/-- Another subject begins. -/
theorem Tallied.turn (h : t.Tallied qs)
    (grouped : t.subject ≠ some q.subject → ∀ r ∈ qs, r.subject ≠ q.subject) :
    (t.turn q.subject).Tallied qs := by
  unfold Tally.turn
  split
  · exact h
  · next apart =>
    have fresh := grouped apart
    have own : ownOf (some q.subject) qs = [] :=
      List.filter_eq_nil_iff.2 fun r mem => by simpa using (fresh r mem).symm
    have others : othersOf (some q.subject) qs = qs :=
      List.filter_eq_self.2 fun r mem => by simpa using (fresh r mem).symm
    constructor
    case size => exact h.size
    case cardinalities => exact h.cardinalities
    case distinctCounts => exact h.distinctCounts
    case predicates =>
      intro p
      rw [own]
      rfl
    case distinct => exact List.nodup_nil
    case products =>
      intro a b
      rw [others]
      exact h.get?_fold a b

theorem turn_subject (t : Tally) (s : Iri) : (t.turn s).subject = some s := by
  unfold Tally.turn
  split
  · next same => exact same
  · rfl

theorem nodup_keys (q : Quad) : (keys q).Nodup := by
  have kinds : CardinalityKind.all.Nodup := by decide
  rw [keys_eq]
  exact kinds.map fun _ _ same => (Prod.mk.inj same).1

theorem mem_keys_iff {kind : CardinalityKind} {values : List Value} :
    (kind, values) ∈ keys q ↔ q.valuesFor kind = values := by
  have all : kind ∈ CardinalityKind.all := by cases kind <;> decide
  rw [keys_eq, List.mem_map]
  constructor
  · rintro ⟨_, _, same⟩
    cases same
    rfl
  · rintro rfl
    exact ⟨kind, all, rfl⟩

/-- A quad counts once for every kind. -/
theorem get?_foldl_keys {cs : Cardinalities} {kind : CardinalityKind} {values : List Value} {n : Nat}
    (h : cs.get? (kind, values) = counted n) (q : Quad) :
    ((keys q).foldl (fun cs key => cs.add key 1) cs).get? (kind, values) =
      counted (n + kind.countIn values [q]) := by
  have sum : (((keys q).filter fun key => key = (kind, values)).map fun _ => 1).sum =
      kind.countIn values [q] := by
    rw [sum_map_filter_eq (nodup_keys q)]
    simp [mem_keys_iff, countIn, List.countP_cons]
  rw [← sum]
  exact get?_foldl_add (fun _ _ => rfl) (fun _ _ => Nat.one_pos) h

theorem nodup_foldl_keys {cs : Cardinalities} (h : (cs.map (·.1)).Nodup)
    (keys : List (CardinalityKind × List Value)) :
    ((keys.foldl (fun cs key => cs.add key 1) cs).map (·.1)).Nodup := by
  induction keys generalizing cs with
  | nil => exact h
  | cons key keys ih => exact ih (nodup_alter h key _)

/-- One more quad of the last subject. -/
theorem Tallied.count (h : t.Tallied qs) (last : t.subject = some q.subject) :
    Tallied { t with
      size := t.size + 1
      cardinalities := (keys q).foldl (fun cs key => cs.add key 1) t.cardinalities
      predicates := t.predicates.add q.predicate 1 } (qs ++ [q]) := by
  have own : ownOf t.subject (qs ++ [q]) = ownOf t.subject qs ++ [q] := by
    simp [ownOf, List.filter_append, last]
  have others : othersOf t.subject (qs ++ [q]) = othersOf t.subject qs := by
    simp [othersOf, List.filter_append, last]
  constructor
  case size =>
    rw [List.length_append, UInt64.ofNat_add, ← h.size]
    rfl
  case cardinalities =>
    intro kind values
    rw [countIn_append]
    exact get?_foldl_keys (h.cardinalities kind values) q
  case distinctCounts => exact nodup_foldl_keys h.distinctCounts (keys q)
  case predicates =>
    intro p
    dsimp only
    rw [own, countIn_append]
    refine (get?_add (h.predicates p) q.predicate Nat.one_pos).trans ?_
    simp [countIn, Quad.valuesFor_predicate, List.countP_cons]
  case distinct => exact nodup_alter h.distinct _ _
  case products =>
    intro a b
    dsimp only
    rw [others]
    exact h.products a b

/-- One more quad, whose subject is the last one or new. -/
theorem Tallied.add (h : t.Tallied qs)
    (grouped : t.subject ≠ some q.subject → ∀ r ∈ qs, r.subject ≠ q.subject) :
    (t.add q).Tallied (qs ++ [q]) ∧ (t.add q).subject = some q.subject :=
  ⟨(h.turn grouped).count (turn_subject t _), turn_subject t _⟩

/-- Quads with the same subject stand together. -/
def Grouped (qs : List Quad) : Prop :=
  ∀ x y z, [x, y, z].Sublist qs → x.subject = z.subject → y.subject = x.subject

/-- Where the quads of each subject stand together, a subject is new if it is not that of the quad
before. -/
theorem Grouped.fresh {rest : List Quad} (h : Grouped (qs ++ q :: rest))
    (apart : qs.getLast?.map (·.subject) ≠ some q.subject) :
    ∀ r ∈ qs, r.subject ≠ q.subject := by
  intro r mem same
  rcases List.eq_nil_or_concat qs with rfl | ⟨init, z, rfl⟩
  · cases mem
  · simp only [List.concat_eq_append, List.getLast?_append, List.getLast?_singleton,
      Option.some_or, Option.map_some, ne_eq, Option.some.injEq] at apart
    rw [List.concat_eq_append] at h mem
    -- A quad of the subject further back would be parted from `q` by the one before `q`.
    rcases List.mem_append.1 mem with early | last
    · have order : [r, z, q].Sublist ((init ++ [z]) ++ q :: rest) :=
        ((List.singleton_sublist.2 early).append (List.Sublist.refl [z])).append
          (List.singleton_sublist.2 (.head _))
      exact apart ((h r z q order same).trans same)
    · obtain rfl := List.mem_singleton.1 last
      exact apart same

/-- All quads of a list, whose subjects stand together, counted one after another. -/
theorem Tallied.foldl (h : t.Tallied qs) (last : t.subject = qs.getLast?.map (·.subject))
    {rest : List Quad} (grouped : Grouped (qs ++ rest)) :
    (rest.foldl Tally.add t).Tallied (qs ++ rest) := by
  induction rest generalizing t qs with
  | nil => simpa using h
  | cons q rest ih =>
    obtain ⟨next, subject⟩ := h.add fun apart => grouped.fresh (last ▸ apart)
    have whole : qs ++ q :: rest = (qs ++ [q]) ++ rest := by simp
    rw [List.foldl_cons, whole]
    exact ih next (by simp [subject]) (whole ▸ grouped)

end Tally

end QuadIndex
