import QuadIndex.Proofs.Key.Order
import QuadIndex.Proofs.Query.Answer
import QuadIndex.Proofs.Statistics.Tally

/-!
# Collected statistics are those of the stored quads

The scan of all quads yields them by increasing key, subject first, so the quads of a subject stand
together (`grouped_of_sorted`) and the tally of the scan has all counts. With fewer than `2 ^ 32`
quads no number outgrows its word (`collect_describes`).
-/

namespace QuadIndex

open CardinalityKind Entries Reading

/-- The snapshot has the statistics of a set of quads. A selectivity is the quotient, in floating
point, of the pairs of quads that share their subject by all pairs. -/
structure Snapshot.Describes (s : Snapshot) (S : Set Quad) : Prop where
  size : s.size.toNat = S.ncard
  cardinality (kind : CardinalityKind) (values : List Value) :
    (s.cardinalities.get? (kind, values)).map UInt64.toNat =
      if kind.count values S = 0 then none else some (kind.count values S)
  selected (a b : Iri) : (s.selectivities.get? (a, b)).isSome = true ↔ a.text < b.text ∧
    ∃ subject, (∃ q ∈ S, q.subject = subject ∧ q.predicate = a) ∧
      ∃ q ∈ S, q.subject = subject ∧ q.predicate = b
  selectivity (a b : Iri) (x : Float) : s.selectivities.get? (a, b) = some x →
    ∃ product left right : UInt64, x = product.toFloat / (left.toFloat * right.toFloat) ∧
      product.toNat = sharing a b S ∧ left.toNat = predicate.count [.iri a] S ∧
      right.toNat = predicate.count [.iri b] S ∧ 1 ≤ product.toNat ∧
      product.toNat ≤ left.toNat * right.toNat ∧ left.toNat * right.toNat < 2 ^ 64

namespace Tally

variable {t : Tally} {qs : List Quad} {a b : Iri}

/-- A selectivity is there for the products whose predicates have counts. -/
theorem get?_finish (t : Tally) (a b : Iri) : t.finish.selectivities.get? (a, b) =
    (t.fold.products.get? (a, b)).bind fun product =>
      (do
        let left ← t.cardinalities.get? (.predicate, [.iri a])
        let right ← t.cardinalities.get? (.predicate, [.iri b])
        return (left, right) : Option (UInt64 × UInt64)).map fun counts =>
          selectivity product counts.1 counts.2 := by
  rw [← get?_filterMap t.fold.products (fun pair => do
    let left ← t.cardinalities.get? (.predicate, [.iri pair.1])
    let right ← t.cardinalities.get? (.predicate, [.iri pair.2])
    return (left, right)) fun product counts => selectivity product counts.1 counts.2]
  refine congrArg (fun f => get? (t.fold.products.filterMap f) (a, b)) ?_
  funext ⟨⟨c, d⟩, product⟩
  have same : t.fold.cardinalities = t.cardinalities := rfl
  dsimp only
  rw [same]
  cases t.cardinalities.get? (.predicate, [.iri c]) with
  | none => rfl
  | some left => cases t.cardinalities.get? (.predicate, [.iri d]) <;> rfl

/-- Predicates that share a subject have quads. -/
theorem countIn_pos_of_sharingIn (h : 0 < sharingIn a b qs) :
    0 < predicate.countIn [.iri a] qs ∧ 0 < predicate.countIn [.iri b] qs := by
  have := Nat.lt_of_lt_of_le h (sharingIn_le a b qs)
  exact ⟨Nat.pos_of_mul_pos_right this, Nat.pos_of_mul_pos_left this⟩

/-- The selectivities after some quads: one for each ordered pair of predicates with a subject in
common. -/
theorem Tallied.get?_selectivities (h : t.Tallied qs) (a b : Iri) :
    t.finish.selectivities.get? (a, b) =
      if a.text < b.text ∧ 0 < sharingIn a b qs then
        some (selectivity (UInt64.ofNat (sharingIn a b qs))
          (UInt64.ofNat (predicate.countIn [.iri a] qs))
          (UInt64.ofNat (predicate.countIn [.iri b] qs)))
      else none := by
  rw [get?_finish, h.get?_fold, h.cardinalities, h.cardinalities]
  by_cases less : a.text < b.text
  · rw [if_pos less]
    by_cases pos : 0 < sharingIn a b qs
    · obtain ⟨left, right⟩ := countIn_pos_of_sharingIn pos
      rw [if_pos ⟨less, pos⟩, counted_of_pos pos, counted_of_pos left, counted_of_pos right]
      rfl
    · rw [if_neg fun both => pos both.2, Nat.eq_zero_of_not_pos pos]
      rfl
  · rw [if_neg less, if_neg fun both => less both.1]
    rfl

theorem countIn_lt (few : qs.length < 2 ^ 32) (kind : CardinalityKind) (values : List Value) :
    kind.countIn values qs < 2 ^ 32 :=
  lt_of_le_of_lt List.countP_le_length few

theorem Tallied.describes (h : t.Tallied qs) (nodup : qs.Nodup) (few : qs.length < 2 ^ 32) :
    t.finish.Describes {q | q ∈ qs} := by
  have large : 2 ^ 32 < 2 ^ 64 := by decide
  constructor
  case size =>
    rw [ncard_eq_length nodup]
    refine (congrArg UInt64.toNat h.size).trans ?_
    exact UInt64.toNat_ofNat_of_lt' (few.trans large)
  case cardinality =>
    intro kind values
    rw [count_eq_countIn nodup]
    refine (congrArg (Option.map _) (h.cardinalities kind values)).trans ?_
    exact map_toNat_counted ((countIn_lt few kind values).trans large)
  case selected =>
    intro a b
    rw [h.get?_selectivities]
    refine Iff.trans ?_ (and_congr_right fun _ => sharingIn_pos_iff)
    split
    · next shared => exact iff_of_true rfl shared
    · next none => exact iff_of_false Bool.false_ne_true none
  case selectivity =>
    intro a b x found
    rw [h.get?_selectivities] at found
    split at found
    · next shared =>
      have left := countIn_lt few predicate [.iri a]
      have right := countIn_lt few predicate [.iri b]
      have most := sharingIn_le a b qs
      have bound : predicate.countIn [.iri a] qs * predicate.countIn [.iri b] qs < 2 ^ 64 :=
        lt_of_lt_of_eq (Nat.mul_lt_mul'' left right) (by decide : 2 ^ 32 * 2 ^ 32 = 2 ^ 64)
      rw [sharing_eq_sharingIn nodup, count_eq_countIn nodup, count_eq_countIn nodup]
      refine ⟨_, _, _, (Option.some.inj found).symm, ?_⟩
      rw [UInt64.toNat_ofNat_of_lt' (lt_of_le_of_lt most bound),
        UInt64.toNat_ofNat_of_lt' (left.trans large), UInt64.toNat_ofNat_of_lt' (right.trans large)]
      exact ⟨rfl, rfl, rfl, shared.2, most, bound⟩
    · cases found

end Tally

namespace Index

variable {ix : Index} {store : Store} {T : Set QuadBytes}

/-- Quads by increasing key, their subjects first, have their subjects together. -/
theorem grouped_of_sorted {c : Codec} (lawful : c.registry.Lawful) {hashed : Bool}
    {qs : List Quad} (sorted : qs.Pairwise fun v w => ∃ b d, c.StoredAs v b ∧ c.StoredAs w d ∧
      b.key c.fingerprint ⟨.spo, hashed⟩ < d.key c.fingerprint ⟨.spo, hashed⟩) :
    Tally.Grouped qs := by
  intro x y z order same
  obtain ⟨first, rest⟩ := List.pairwise_cons.1 (sorted.sublist order)
  obtain ⟨b, d, hx, hy, less⟩ := first y (by simp)
  obtain ⟨d', e, hy', hz, less'⟩ := (List.pairwise_cons.1 rest).1 z (by simp)
  obtain rfl := hy.unique lawful hy'
  have outer : b.components.subject = e.components.subject := by
    have subject := hx.parts.1
    rw [same, hz.parts.1] at subject
    exact (Except.ok.inj subject).symm
  -- A key between two that begin with the same subject begins with it too.
  have between := QuadBytes.take_ordered_of_between (n := 1) (hx.delimited lawful)
    (hy.delimited lawful) (hz.delimited lawful) (List.le_of_lt less) (List.le_of_lt less')
    (congrArg (fun s => [s]) outer)
  have inner : d.components.subject = b.components.subject := (List.cons.inj between).1
  exact Iri.encode_injective (inner ▸ hy.parts.1) hx.parts.1

/-- Counting the items of a scan that has only quads. -/
theorem foldlM_gives (t : Tally) (qs : List Quad) :
    Gives ((qs.map Except.ok).foldlM
      (fun (t : Tally) (item : Except Error Quad) => liftM (item.map t.add)) t)
      (.ok (qs.foldl Tally.add t)) := by
  induction qs generalizing t with
  | nil => exact Gives.pure t
  | cons q qs ih =>
    rw [List.map_cons, List.foldlM_cons, List.foldl_cons]
    exact Gives.bind (Gives.lift rfl) (ih (t.add q))

section

variable (lawful : ix.codec.registry.Lawful) (clear : ix.codec.fingerprint.Delimited)

include lawful clear

/-- The pattern that leaves all positions open finds every quad, by increasing key in the table whose
rows begin with their subjects. -/
theorem Keeps.query_all (h : ix.Keeps store T) :
    ∃ scan qs, Gives (ix.query store {}) (.ok scan) ∧ scan.Yields qs ∧
      (∀ w, w ∈ qs ↔ w ∈ ix.quadsOf T) ∧
      qs.Pairwise fun v w => ∃ b d, ix.codec.StoredAs v b ∧ ix.codec.StoredAs w d ∧
        b.key ix.codec.fingerprint ⟨.spo, ix.hashed⟩ <
          d.key ix.codec.fingerprint ⟨.spo, ix.hashed⟩ := by
  have encodes : ({} : Pattern).Encodes ix.codec := by
    constructor
    · intro i
      cases i <;> exact fun _ none => nomatch none
    · exact fun _ none => nomatch none
  have all (b : QuadBytes) : ({} : Pattern).Matches ix.codec b := by
    constructor
    · intro i
      cases i <;> exact trivial
    · exact trivial
  obtain ⟨plan, scan, qs, planned, gives, yields, members, sorted⟩ := h.query lawful clear encodes
  have form : plan.form = ⟨.spo, ix.hashed⟩ := by
    have no_path : Codec.path? ix.hashed {} = none := by cases ix.hashed <;> rfl
    rw [Codec.plan_of_no_path no_path] at planned
    cases planned
    rfl
  refine ⟨scan, qs, gives, yields, fun w => ?_, form ▸ sorted⟩
  rw [members]
  constructor
  · exact fun found => found.1
  · rintro ⟨b, hb, bytes⟩
    exact ⟨⟨b, hb, bytes⟩, b, bytes, all b⟩

/-- Collecting gives the snapshot of a tally of the quads stored, each counted once. -/
theorem Keeps.collect (h : ix.Keeps store T) :
    ∃ (qs : List Quad) (t : Tally), qs.Nodup ∧ ix.quadsOf T = {q | q ∈ qs} ∧ t.Tallied qs ∧
      Gives (ix.collect store) (.ok t.finish) := by
  obtain ⟨scan, qs, gives, yields, members, sorted⟩ := h.query_all lawful clear
  obtain ⟨last, drained, ended⟩ := yields.drain
  have distinct : qs.Nodup := nodup_of_sorted lawful sorted
  -- The last subject is still open here; `finish` folds it.
  have tallied : (qs.foldl Tally.add {}).Tallied ([] ++ qs) :=
    Tally.tallied_nil.foldl rfl (grouped_of_sorted lawful sorted)
  refine ⟨qs, qs.foldl Tally.add {}, distinct, Set.ext fun w => (members w).symm, tallied, ?_⟩
  unfold Index.collect
  refine gives.bind ?_
  rw [drained]
  exact ended.close.bind ((foldlM_gives {} qs).bind (Gives.pure _))

end

theorem ncard_canonicalSet_le (c : Codec) (quads : List Quad) :
    (c.canonicalSet quads).Finite ∧ (c.canonicalSet quads).ncard ≤ quads.length := by
  have members : c.canonicalSet quads =
      ((quads.filterMap fun q => (c.canonical q).toOption).toFinset : Set Quad) := by
    ext w
    have read (q : Quad) : (c.canonical q).toOption = some w ↔ c.canonical q = .ok w := by
      cases c.canonical q <;> simp [Except.toOption]
    simp [Codec.canonicalSet, read]
  rw [members, Set.ncard_coe_finset]
  exact ⟨Finset.finite_toSet _, (List.toFinset_card_le _).trans (List.length_filterMap_le _ _)⟩

/-- A call adds no more quads than it is given. -/
theorem ncard_step_le (ix : Index) {s : Store × Set Quad} (finite : s.2.Finite) (c : Change) :
    (ix.step s c).2.Finite ∧ (ix.step s c).2.ncard ≤ s.2.ncard + c.quads.length := by
  obtain ⟨given, most⟩ := ncard_canonicalSet_le ix.codec c.quads
  rcases ix.step_cases s c with ⟨store, _, next⟩ | ⟨e, _, next⟩
  · rw [next]
    cases c with
    | add quads =>
      refine ⟨finite.union given, (Set.ncard_union_le _ _).trans ?_⟩
      exact Nat.add_le_add_left most _
    | remove quads =>
      refine ⟨finite.sdiff, (Set.ncard_le_ncard Set.sdiff_subset finite).trans ?_⟩
      exact Nat.le_add_right _ _
  · rw [next]
    exact ⟨finite, Nat.le_add_right _ _⟩

/-- A store has no more quads than it has been given. -/
theorem ncard_run_le (ix : Index) (cs : List Change) :
    (ix.run cs).2.Finite ∧ (ix.run cs).2.ncard ≤ (cs.map (·.quads.length)).sum := by
  suffices later : ∀ s : Store × Set Quad, s.2.Finite → (cs.foldl ix.step s).2.Finite ∧
      (cs.foldl ix.step s).2.ncard ≤ s.2.ncard + (cs.map (·.quads.length)).sum by
    simpa [run] using later ({}, ∅) Set.finite_empty
  induction cs with
  | nil => exact fun s finite => ⟨finite, Nat.le_refl _⟩
  | cons c cs ih =>
    intro s finite
    obtain ⟨next, most⟩ := ncard_step_le ix finite c
    obtain ⟨last, all⟩ := ih _ next
    refine ⟨last, all.trans ?_⟩
    rw [List.map_cons, List.sum_cons, ← Nat.add_assoc]
    exact Nat.add_le_add_right most _

/-- The statistics collected after any run of calls are those of the quads that should be stored. -/
theorem collect_describes (settings : Settings) (cs : List Change)
    (few : ((standard settings).run cs).2.ncard < 2 ^ 32) :
    ((standard settings).run cs).2.Finite ∧
    ∃ snapshot, Gives ((standard settings).collect ((standard settings).run cs).1) (.ok snapshot) ∧
      snapshot.Describes ((standard settings).run cs).2 := by
  have agrees : (standard settings).Agrees ((standard settings).run cs) :=
    run_agrees Registry.standard_lawful Fingerprint.standard_delimited cs
  obtain ⟨T, kept, quads, _⟩ := agrees
  obtain ⟨qs, t, distinct, members, tallied, gives⟩ :=
    kept.collect Registry.standard_lawful Fingerprint.standard_delimited
  rw [members] at quads
  rw [quads] at few ⊢
  rw [ncard_eq_length distinct] at few
  exact ⟨List.finite_toSet qs, t.finish, gives, tallied.describes distinct few⟩

/-- Two quads of one subject, one of them given twice and the other one in a named graph. -/
theorem collect_describes_pair :
    let cs : List Change :=
      [.add [⟨⟨"s"⟩, ⟨"p"⟩, .iri ⟨"o"⟩, none⟩, ⟨⟨"s"⟩, ⟨"q"⟩, .iri ⟨"o"⟩, some ⟨"g"⟩⟩],
        .add [⟨⟨"s"⟩, ⟨"p"⟩, .iri ⟨"o"⟩, none⟩]]
    ((standard {}).run cs).2.ncard < 2 ^ 32 ∧ ((standard {}).run cs).2.Finite ∧
      ∃ snapshot, Gives ((standard {}).collect ((standard {}).run cs).1) (.ok snapshot) ∧
        snapshot.Describes ((standard {}).run cs).2 := by
  intro cs
  have few : ((standard {}).run cs).2.ncard < 2 ^ 32 :=
    lt_of_le_of_lt (ncard_run_le (standard {}) cs).2 (by decide)
  exact ⟨few, collect_describes {} cs few⟩

end Index

end QuadIndex
