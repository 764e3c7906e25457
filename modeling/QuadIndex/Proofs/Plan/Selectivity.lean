import QuadIndex.Proofs.Number.FloatPlace
import QuadIndex.Proofs.Plan.LeftDeep
import QuadIndex.Proofs.Plan.Reorder
import QuadIndex.Proofs.Statistics.Tally
import QuadIndex.Proofs.Store.Reading
import QuadIndex.Statistics.Stored

/-!
# Selectivities of joins

Looking at one pair of predicates after another keeps the smallest number met so far
(`LeastOf.insert`), so what is left in the end is the least of all that the source knows between the
two plans (`selectivity_gives`). That set of numbers does not change where the plans change places, and
the predicates of a plan are in its leaves, which rewriting keeps. In memory and in a table the
selectivity of two predicates is under one key, whichever comes first. The main result
`selectivity_symmetric` puts this together.
-/

namespace QuadIndex

open Reading FloatOrder

/-! ## The least of some numbers -/

/-- The least of a set of floats, none where the set is empty. -/
def LeastOf (S : Set Float) : Option Float → Prop
  | none => S = ∅
  | some x => IsLeast S x

namespace LeastOf

variable {S : Set Float} {x y : Float} {best best' : Option Float}

theorem empty : LeastOf ∅ none := rfl

/-- One more number is the least if it is less than the one before. -/
theorem insert (h : LeastOf S best) (proper : ∀ y ∈ insert x S, Proper y) :
    LeastOf (insert x S) (some (best.elim x fun y => Estimate.smaller y x)) := by
  have own : x.isNaN = false := (proper x (Set.mem_insert x S)).number
  cases best with
  | none =>
    cases h
    refine ⟨Set.mem_insert x ∅, ?_⟩
    rintro z (rfl | ⟨⟨⟩⟩)
    exact FloatOrder.le_refl own
  | some y =>
    have other : y.isNaN = false := (proper y (Set.mem_insert_of_mem x h.1)).number
    rw [Option.elim_some, Estimate.smaller, other, Bool.false_or]
    by_cases less : x < y
    · rw [if_pos (decide_eq_true less)]
      refine ⟨Set.mem_insert x S, ?_⟩
      rintro z (rfl | mem)
      · exact FloatOrder.le_refl own
      · exact FloatOrder.le_of_lt (FloatOrder.lt_of_lt_of_le less (h.2 mem))
    · rw [if_neg (by simpa using less)]
      refine ⟨Set.mem_insert_of_mem x h.1, ?_⟩
      rintro z (rfl | mem)
      · exact FloatOrder.le_of_not_lt own other less
      · exact h.2 mem

/-- Proper floats have one least one. -/
theorem unique (proper : ∀ x ∈ S, Proper x) (h : LeastOf S best) (h' : LeastOf S best') :
    best = best' := by
  cases best with
  | none =>
    cases best' with
    | none => rfl
    | some y => cases h; cases h'.1
  | some x =>
    cases best' with
    | none => cases h'; cases h.1
    | some y =>
      have same : x = y := (proper x h.1).le_antisymm (proper y h'.1) (h.2 h'.1) (h'.2 h.1)
      rw [same]

end LeastOf

/-! ## Predicates of rewritten plans -/

namespace Plan

variable {p q : Plan}

/-- The plans have the same predicates in their leaves. -/
def SamePredicates (p q : Plan) : Prop := ∀ a, a ∈ q.predicates ↔ a ∈ p.predicates

theorem SamePredicates.of_perm (h : q.scopes.Perm p.scopes) : p.SamePredicates q := by
  intro a
  rw [predicates, predicates, leaves_eq_scopes, leaves_eq_scopes]
  exact ((h.map _).filterMap _).mem_iff

/-- The plan itself, or what one of the rewritings makes of it. -/
inductive Rewrites (p : Plan) : Plan → Prop
  | unchanged : Rewrites p p
  | toLeftDeep : Rewrites p p.toLeftDeep
  | pushDownFilters : Rewrites p p.pushDownFilters
  | reorderJoins {cost : Plan → Reading Float} {n : ScanCount} {q : Plan}
      (gives : ((p.reorderJoins cost).run.run n).1 = .ok q) : Rewrites p q

/-- Rewriting keeps the leaves, and so the predicates. -/
theorem Rewrites.samePredicates (h : p.Rewrites q) : p.SamePredicates q := by
  cases h with
  | unchanged => exact .of_perm (.refl _)
  | toLeftDeep => exact .of_perm (by rw [scopes_toLeftDeep])
  | pushDownFilters => exact .of_perm (by rw [scopes_pushDownFilters])
  | reorderJoins gives => exact .of_perm (of_reading (reorderJoins_equivalent _ p) _ q gives).scopes

end Plan

/-! ## Looking at the pairs -/

namespace StatisticsSource

variable {source : StatisticsSource Reading} {known : Iri → Iri → Option Float} {l r : Plan}

/-- Of every predicate of one plan and every predicate of another the source gives a selectivity or
says that it knows none, the same whichever of the two comes first, and what it gives is a number other
than the negative zero. -/
structure Relates (source : StatisticsSource Reading) (known : Iri → Iri → Option Float)
    (l r : Plan) : Prop where
  gives : ∀ a ∈ l.predicates, ∀ b ∈ r.predicates,
    Gives (source.joinSelectivity a b) (.ok (known a b))
  symmetric : ∀ a ∈ l.predicates, ∀ b ∈ r.predicates,
    Gives (source.joinSelectivity b a) (.ok (known a b))
  proper : ∀ a ∈ l.predicates, ∀ b ∈ r.predicates, ∀ x, known a b = some x → Proper x

/-- The selectivities known of a predicate of one plan with one of another. -/
def between (known : Iri → Iri → Option Float) (l r : Plan) : Set Float :=
  {x | ∃ a ∈ l.predicates, ∃ b ∈ r.predicates, known a b = some x}

theorem Relates.swap (h : source.Relates known l r) :
    source.Relates (fun b a => known a b) r l where
  gives b hb a ha := h.symmetric a ha b hb
  symmetric b hb a ha := h.gives a ha b hb
  proper b hb a ha := h.proper a ha b hb

theorem between_same {l' r' : Plan} (left : l.SamePredicates l') (right : r.SamePredicates r') :
    between known l' r' = between known l r := by
  ext x
  simp only [between, Set.mem_ofPred_eq, left _, right _]

theorem between_swap : between (fun b a => known a b) r l = between known l r := by
  ext x
  constructor
  · rintro ⟨b, hb, a, ha, own⟩
    exact ⟨a, ha, b, hb, own⟩
  · rintro ⟨a, ha, b, hb, own⟩
    exact ⟨b, hb, a, ha, own⟩

/-- The smallest selectivity so far, after one more pair. -/
def lower (source : StatisticsSource Reading) (best : Option Float) (pair : Iri × Iri) :
    Reading (Option Float) := do
  match ← source.joinSelectivity pair.1 pair.2 with
  | none => return best
  | some x => return some (match best with
    | none => x
    | some y => Estimate.smaller y x)

theorem selectivity_eq : source.selectivity l r = do
    let pairs := l.predicates.flatMap fun a => r.predicates.map fun b => (a, b)
    let best ← pairs.foldlM source.lower none
    return best.getD Estimate.defaultSelectivity := rfl

theorem mem_pairs_iff {a b : Iri} {as bs : List Iri} :
    (a, b) ∈ as.flatMap (fun a => bs.map fun b => (a, b)) ↔ a ∈ as ∧ b ∈ bs := by
  simp

/-- One more pair keeps the smallest selectivity of all pairs so far. -/
theorem lower_gives {S : Set Float} {best : Option Float} {pair : Iri × Iri}
    (gives : Gives (source.joinSelectivity pair.1 pair.2) (.ok (known pair.1 pair.2)))
    (proper : ∀ x ∈ S ∪ {x | known pair.1 pair.2 = some x}, Proper x) (h : LeastOf S best) :
    ∃ best', Gives (source.lower best pair) (.ok best') ∧
      LeastOf (S ∪ {x | known pair.1 pair.2 = some x}) best' := by
  cases found : known pair.1 pair.2 with
  | none =>
    rw [found] at gives
    refine ⟨best, gives.bind (.pure _), ?_⟩
    simpa using h
  | some x =>
    rw [found] at gives proper
    have more : S ∪ {y | some x = some y} = insert x S := by
      ext y
      simp [eq_comm]
    rw [more] at proper ⊢
    refine ⟨_, gives.bind (.pure _), ?_⟩
    cases best with
    | none => exact h.insert proper
    | some y => exact h.insert proper

theorem foldlM_lower_gives {pairs : List (Iri × Iri)} {S : Set Float} {best : Option Float}
    (gives : ∀ p ∈ pairs, Gives (source.joinSelectivity p.1 p.2) (.ok (known p.1 p.2)))
    (proper : ∀ p ∈ pairs, ∀ x, known p.1 p.2 = some x → Proper x) (proper' : ∀ x ∈ S, Proper x)
    (h : LeastOf S best) :
    ∃ best', Gives (pairs.foldlM source.lower best) (.ok best') ∧
      LeastOf (S ∪ {x | ∃ p ∈ pairs, known p.1 p.2 = some x}) best' := by
  induction pairs generalizing S best with
  | nil => exact ⟨best, .pure best, by simpa using h⟩
  | cons p pairs ih =>
    rw [List.forall_mem_cons] at gives proper
    have proper'' : ∀ x ∈ S ∪ {x | known p.1 p.2 = some x}, Proper x := by
      rintro x (mem | own)
      · exact proper' x mem
      · exact proper.1 x own
    obtain ⟨next, first, least⟩ := lower_gives gives.1 proper'' h
    obtain ⟨last, rest, least⟩ := ih gives.2 proper.2 proper'' least
    refine ⟨last, ?_, ?_⟩
    · rw [List.foldlM_cons]
      exact first.bind rest
    · simpa [Set.union_assoc, Set.ofPred_or] using least

/-- The selectivity of two plans is the least that is known between them, or the default where none
is. -/
theorem selectivity_gives (h : source.Relates known l r) :
    ∃ best, LeastOf (between known l r) best ∧
      Gives (source.selectivity l r) (.ok (best.getD Estimate.defaultSelectivity)) := by
  have gives : ∀ p ∈ l.predicates.flatMap (fun a => r.predicates.map fun b => (a, b)),
      Gives (source.joinSelectivity p.1 p.2) (.ok (known p.1 p.2)) := by
    rintro ⟨a, b⟩ mem
    obtain ⟨ha, hb⟩ := mem_pairs_iff.1 mem
    exact h.gives a ha b hb
  have proper : ∀ p ∈ l.predicates.flatMap (fun a => r.predicates.map fun b => (a, b)),
      ∀ x, known p.1 p.2 = some x → Proper x := by
    rintro ⟨a, b⟩ mem
    obtain ⟨ha, hb⟩ := mem_pairs_iff.1 mem
    exact h.proper a ha b hb
  obtain ⟨best, found, least⟩ := foldlM_lower_gives gives proper (fun _ mem => mem.elim) .empty
  refine ⟨best, ?_, ?_⟩
  · convert least
    ext x
    simp [between]
  · rw [selectivity_eq]
    exact found.bind (.pure _)

section

variable (h : source.Relates known l r) {l' r' : Plan} {best : Option Float}

include h

theorem Relates.same (left : l.SamePredicates l') (right : r.SamePredicates r') :
    source.Relates known l' r' where
  gives a ha b hb := h.gives a ((left a).1 ha) b ((right b).1 hb)
  symmetric a ha b hb := h.symmetric a ((left a).1 ha) b ((right b).1 hb)
  proper a ha b hb := h.proper a ((left a).1 ha) b ((right b).1 hb)

theorem Relates.proper_between : ∀ x ∈ between known l r, Proper x := by
  rintro x ⟨a, ha, b, hb, own⟩
  exact h.proper a ha b hb x own

/-- Plans with the same predicates have the same selectivity, whichever comes first. -/
theorem selectivity_of_same (least : LeastOf (between known l r) best)
    (left : l.SamePredicates l') (right : r.SamePredicates r') :
    Gives (source.selectivity l' r') (.ok (best.getD Estimate.defaultSelectivity)) ∧
    Gives (source.selectivity r' l') (.ok (best.getD Estimate.defaultSelectivity)) := by
  have h' := h.same left right
  have numbers : between known l' r' = between known l r := between_same left right
  constructor
  · obtain ⟨other, least', gives⟩ := selectivity_gives h'
    rw [numbers] at least'
    rwa [least.unique h.proper_between least']
  · obtain ⟨other, least', gives⟩ := selectivity_gives h'.swap
    rw [between_swap, numbers] at least'
    rwa [least.unique h.proper_between least']

end

end StatisticsSource

/-! ## Sources that are symmetric -/

theorem orderedPair_eq_or (a b : Iri) : orderedPair a b = (a, b) ∨ orderedPair a b = (b, a) := by
  unfold orderedPair
  split
  · exact .inl rfl
  · exact .inr rfl

/-- Two pairs are ordered alike if they are the same but for their order. -/
theorem orderedPair_eq_orderedPair_iff {x y a b : Iri} :
    orderedPair x y = orderedPair a b ↔ (x, y) = (a, b) ∨ (x, y) = (b, a) := by
  constructor
  · intro same
    have first := orderedPair_eq_or x y
    have second := orderedPair_eq_or a b
    grind
  · rintro (⟨⟨⟩⟩ | ⟨⟨⟩⟩)
    · rfl
    · exact orderedPair_comm x y

namespace Statistics

variable {given : List ((Iri × Iri) × Float)} {a b : Iri}

/-- The statistics with selectivities put in one after another. -/
def setSelectivities (s : Statistics) (given : List ((Iri × Iri) × Float)) : Statistics :=
  given.foldl (fun s e => s.setSelectivity e.1.1 e.1.2 e.2) s

/-- The selectivity put in last for two IRIs, whichever of them came first. -/
def lastGiven? (given : List ((Iri × Iri) × Float)) (a b : Iri) : Option Float :=
  (given.reverse.find? fun e => e.1 = (a, b) ∨ e.1 = (b, a)).map (·.2)

theorem lastGiven?_comm (given : List ((Iri × Iri) × Float)) (a b : Iri) :
    lastGiven? given a b = lastGiven? given b a := by
  simp only [lastGiven?, or_comm]

theorem lastGiven?_cons (e : (Iri × Iri) × Float) :
    lastGiven? (e :: given) a b = (lastGiven? given a b).or
      (if e.1 = (a, b) ∨ e.1 = (b, a) then some e.2 else none) := by
  rw [lastGiven?, lastGiven?, List.reverse_cons, List.find?_append, Option.map_or]
  congr 1
  by_cases same : e.1 = (a, b) ∨ e.1 = (b, a)
  · simp [same]
  · simp [same]

/-- One selectivity put in is found under its two IRIs, and changes nothing else. -/
theorem get?_setSelectivity (s : Statistics) (e : (Iri × Iri) × Float) :
    (s.setSelectivity e.1.1 e.1.2 e.2).selectivities.get? (orderedPair a b) =
      if e.1 = (a, b) ∨ e.1 = (b, a) then some e.2
      else s.selectivities.get? (orderedPair a b) := by
  have keys := orderedPair_eq_orderedPair_iff (x := e.1.1) (y := e.1.2) (a := a) (b := b)
  split
  · next same =>
    rw [← keys.2 same]
    exact Entries.get?_alter_self s.selectivities _ _
  · next other =>
    exact Entries.get?_alter_of_ne s.selectivities _ fun same => other (keys.1 same.symm)

theorem get?_setSelectivities (s : Statistics) :
    (s.setSelectivities given).selectivities.get? (orderedPair a b) =
      (lastGiven? given a b).or (s.selectivities.get? (orderedPair a b)) := by
  induction given generalizing s with
  | nil => rfl
  | cons e given ih =>
    rw [setSelectivities, List.foldl_cons]
    refine (ih _).trans ?_
    rw [lastGiven?_cons, get?_setSelectivity]
    cases lastGiven? given a b with
    | some x => rfl
    | none => split <;> rfl

/-- What is put into empty statistics is found, in whichever order the IRIs come. -/
theorem joinSelectivity_setSelectivities {m : Type → Type} [Monad m]
    (given : List ((Iri × Iri) × Float)) (a b : Iri) :
    (setSelectivities {} given).source.joinSelectivity a b =
      (pure (lastGiven? given a b) : m (Option Float)) := by
  have found : ((setSelectivities {} given).selectivities.get? (orderedPair a b)) = _ :=
    get?_setSelectivities {}
  exact congrArg pure (found.trans (Option.or_none ..))

/-- Statistics of proper selectivities relate all plans. -/
theorem relates_setSelectivities (proper : ∀ e ∈ given, Proper e.2) (l r : Plan) :
    (setSelectivities {} given).source.Relates (lastGiven? given) l r where
  gives a _ b _ := by
    rw [joinSelectivity_setSelectivities]
    exact .pure _
  symmetric a _ b _ := by
    rw [joinSelectivity_setSelectivities, lastGiven?_comm]
    exact .pure _
  proper a _ b _ x own := by
    obtain ⟨e, found, rfl⟩ := Option.map_eq_some_iff.1 own
    exact proper e (List.mem_reverse.1 (List.mem_of_find?_eq_some found))

end Statistics

/-- Statistics in memory, whatever was put in, answer the same in either order. -/
theorem Statistics.source_symmetric {m : Type → Type} [Monad m] (s : Statistics) (a b : Iri) :
    s.source.joinSelectivity a b = (s.source.joinSelectivity b a : m (Option Float)) := by
  simp only [source, orderedPair_comm a b]

/-- Stored statistics answer the same in either order, whatever the store holds. -/
theorem Index.storedStatistics_symmetric (ix : Index) (store : Store) (a b : Iri) :
    (ix.storedStatistics store).joinSelectivity a b =
      (ix.storedStatistics store).joinSelectivity b a := by
  have keys : selectivityKey a b = selectivityKey b a := by
    rw [selectivityKey, selectivityKey, orderedPair_comm]
  simp only [storedStatistics, keys]

/-- Where a source gives a selectivity, or none, for all predicates of two plans, the same in either
order, and a number other than the negative zero, the selectivity of the plans is the least that is
known of a predicate of one with a predicate of the other, or the default where none is known. It is
the same whichever plan comes first, for all plans with these predicates, and so for what rewriting
makes of either of them. Statistics in memory and stored statistics answer the same in either order,
whatever they hold. Those in memory give what was put in last for two predicates in either order, so
they are such a source if only proper numbers are put in. -/
theorem StatisticsSource.selectivity_symmetric :
    (∀ (source : StatisticsSource Reading) (known : Iri → Iri → Option Float) (l r : Plan),
      source.Relates known l r → ∃ best, LeastOf (between known l r) best ∧
        (∀ l' r', l.SamePredicates l' → r.SamePredicates r' →
          Gives (source.selectivity l' r') (.ok (best.getD Estimate.defaultSelectivity)) ∧
          Gives (source.selectivity r' l') (.ok (best.getD Estimate.defaultSelectivity))) ∧
        ∀ l' r', l.Rewrites l' → r.Rewrites r' →
          Gives (source.selectivity l' r') (.ok (best.getD Estimate.defaultSelectivity)) ∧
          Gives (source.selectivity r' l') (.ok (best.getD Estimate.defaultSelectivity))) ∧
    (∀ (given : List ((Iri × Iri) × Float)),
      (∀ a b, (Statistics.setSelectivities {} given).source.joinSelectivity a b =
          (pure (Statistics.lastGiven? given a b) : Reading (Option Float)) ∧
        Statistics.lastGiven? given a b = Statistics.lastGiven? given b a) ∧
      ((∀ e ∈ given, Proper e.2) → ∀ l r,
        (Statistics.setSelectivities {} given).source.Relates (Statistics.lastGiven? given) l r)) ∧
    (∀ (s : Statistics) (a b : Iri), s.source.joinSelectivity a b =
      (s.source.joinSelectivity b a : Reading (Option Float))) ∧
    ∀ (ix : Index) (store : Store) (a b : Iri),
      (ix.storedStatistics store).joinSelectivity a b =
        (ix.storedStatistics store).joinSelectivity b a := by
  refine ⟨fun source known l r h => ?_, fun given => ⟨fun a b => ?_, fun proper => ?_⟩,
    Statistics.source_symmetric, Index.storedStatistics_symmetric⟩
  · obtain ⟨best, least, _⟩ := selectivity_gives h
    exact ⟨best, least, fun l' r' => selectivity_of_same h least,
      fun l' r' left right => selectivity_of_same h least left.samePredicates right.samePredicates⟩
  · exact ⟨Statistics.joinSelectivity_setSelectivities given a b,
      Statistics.lastGiven?_comm given a b⟩
  · exact Statistics.relates_setSelectivities proper

end QuadIndex
