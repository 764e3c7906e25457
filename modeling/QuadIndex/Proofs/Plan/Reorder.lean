import Mathlib
import QuadIndex.Proofs.Plan.Normal
import QuadIndex.Store.Cursor

/-!
# Reordering joins keeps their operands

Whatever a plan costs, and whatever is read to find that out, the greedy search uses every operand of
a tree of joins exactly once: the places that it chooses are places of the list, and two different
ones for the first join. So a plan and its optimized form mean the same (`optimize_equivalent`). The
optimized form is left-deep, and no filter of it can be moved, because none could be when the joins
were turned into chains (`optimize_normal`).
-/

namespace QuadIndex.Plan

variable {m : Type → Type} [Monad m] [LawfulMonad m] (cost : Plan → m Float)

/-- The leaves of plans in their scopes, one plan after another. -/
def scopesOf (ps : List Plan) : List (Pattern × List Condition) := ps.flatMap scopes

theorem scopesOf_perm {ps qs : List Plan} (h : ps.Perm qs) : (scopesOf ps).Perm (scopesOf qs) :=
  h.flatMap_right scopes

/-- The search gives one of the labels, or the other one given. -/
theorem cheapest_mem {κ : Type} (otherwise : κ) (candidates : List (κ × Plan)) :
    SatisfiesM (fun k => k = otherwise ∨ ∃ p, (k, p) ∈ candidates)
      (cheapest cost otherwise candidates) := by
  let Known (best : Float × κ) : Prop := best.2 = otherwise ∨ ∃ p, (best.2, p) ∈ candidates
  refine SatisfiesM.bind (p := Known) ?_ fun best known => SatisfiesM.pure known
  -- The search keeps the label it has or takes the one it looks at.
  refine List.satisfiesM_foldlM (.inl rfl) fun best known candidate mem => ?_
  refine SatisfiesM.bind SatisfiesM.trivial fun c _ => SatisfiesM.pure ?_
  split
  · exact .inr ⟨candidate.2, mem⟩
  · exact known

/-- The plans with their places from some place on. -/
theorem mem_drop_zipIdx_iff {ps : List Plan} {n j : Nat} {p : Plan} :
    (p, j) ∈ ps.zipIdx.drop n ↔ n ≤ j ∧ ps[j]? = some p := by
  simp only [List.mem_drop_iff_getElem, List.getElem_zipIdx, Prod.mk.injEq, List.length_zipIdx]
  constructor
  · rintro ⟨k, place, rfl, rfl⟩
    refine ⟨by omega, ?_⟩
    rw [Nat.zero_add]
    exact List.getElem?_eq_getElem (by omega)
  · rintro ⟨later, found⟩
    obtain ⟨place, rfl⟩ := List.getElem?_eq_some_iff.1 found
    refine ⟨j - n, by omega, ?_, by omega⟩
    simp only [Nat.add_sub_cancel' later]

/-- The joins of two plans are labelled with the two places of these. -/
theorem mem_pairJoins_iff {ps : List Plan} {i j : Nat} {p : Plan} :
    ((i, j), p) ∈ pairJoins ps ↔
      i ≠ j ∧ ∃ l r, ps[i]? = some l ∧ ps[j]? = some r ∧ p = join l r := by
  simp only [pairJoins, List.mem_flatMap, Prod.exists, List.mk_mem_zipIdx_iff_getElem?,
    mem_drop_zipIdx_iff, List.mem_cons, List.not_mem_nil, or_false, Prod.mk.injEq]
  constructor
  · rintro ⟨l, a, first, r, b, ⟨later, second⟩, ⟨⟨rfl, rfl⟩, rfl⟩ | ⟨⟨rfl, rfl⟩, rfl⟩⟩
    · exact ⟨by omega, l, r, first, second, rfl⟩
    · exact ⟨by omega, r, l, second, first, rfl⟩
  · rintro ⟨apart, l, r, first, second, rfl⟩
    rcases Nat.lt_or_gt_of_ne apart with less | greater
    · exact ⟨l, i, first, r, j, ⟨less, second⟩, .inl ⟨⟨rfl, rfl⟩, rfl⟩⟩
    · exact ⟨r, j, second, l, i, ⟨greater, first⟩, .inr ⟨⟨rfl, rfl⟩, rfl⟩⟩

/-- The joins of a chain with one of the plans, each with the place of this. -/
def nextJoins (chain : Plan) (ps : List Plan) : List (Nat × Plan) :=
  ps.zipIdx.map fun (p, i) => (i, join chain p)

theorem mem_nextJoins_iff {chain : Plan} {ps : List Plan} {i : Nat} {p : Plan} :
    (i, p) ∈ nextJoins chain ps ↔ ∃ r, ps[i]? = some r ∧ p = join chain r := by
  simp only [nextJoins, List.mem_map, Prod.exists, List.mk_mem_zipIdx_iff_getElem?, Prod.mk.injEq]
  constructor
  · rintro ⟨r, _, found, rfl, rfl⟩
    exact ⟨r, found, rfl⟩
  · rintro ⟨r, found, rfl⟩
    exact ⟨r, i, found, rfl, rfl⟩

omit [LawfulMonad m] in
theorem grow_of_nonempty (chain : Plan) {ps : List Plan} (nonempty : ¬ ps.isEmpty = true) :
    grow cost chain ps = do
      let i ← cheapest cost 0 (nextJoins chain ps)
      if h : i < ps.length then grow cost (join chain ps[i]) (ps.eraseIdx i) else return chain := by
  rw [grow, if_neg nonempty]
  rfl

/-- The label of one more plan of a chain is a place, also where it is the one that the search begins
with. -/
theorem place_of_label {chain : Plan} {ps : List Plan} {i : Nat} (nonempty : 0 < ps.length)
    (h : i = 0 ∨ ∃ p, (i, p) ∈ nextJoins chain ps) : i < ps.length := by
  -- Place 0 is the one taken if no join costs less than infinity.
  rcases h with rfl | ⟨p, mem⟩
  · exact nonempty
  · obtain ⟨r, found, _⟩ := mem_nextJoins_iff.1 mem
    exact (List.getElem?_eq_some_iff.1 found).1

/-- The label of the first two plans is two places, also where it is the one that the search begins
with. -/
theorem places_of_label {ps : List Plan} {k : Nat × Nat} (two : 2 ≤ ps.length)
    (h : k = (0, 1) ∨ ∃ p, (k, p) ∈ pairJoins ps) :
    k.1 ≠ k.2 ∧ ∃ l r, ps[k.1]? = some l ∧ ps[k.2]? = some r := by
  rcases h with rfl | ⟨p, mem⟩
  · exact ⟨by decide, _, _, List.getElem?_eq_getElem (by omega), List.getElem?_eq_getElem two⟩
  · obtain ⟨apart, l, r, first, second, _⟩ := mem_pairJoins_iff.1 mem
    exact ⟨apart, l, r, first, second⟩

/-- The search for the next plan of a chain gives a place. -/
theorem cheapest_place (chain : Plan) {ps : List Plan} (nonempty : 0 < ps.length) :
    SatisfiesM (· < ps.length) (cheapest cost 0 (nextJoins chain ps)) :=
  (cheapest_mem cost _ _).imp (place_of_label nonempty)

/-- The search for the first two plans gives two places. -/
theorem cheapest_pair {ps : List Plan} (two : 2 ≤ ps.length) :
    SatisfiesM (fun k => k.1 ≠ k.2 ∧ ∃ l r, ps[k.1]? = some l ∧ ps[k.2]? = some r)
      (cheapest cost (0, 1) (pairJoins ps)) :=
  (cheapest_mem cost _ _).imp (places_of_label two)

/-- A plan out of a list and the others are the list. -/
theorem perm_eraseIdx {ps : List Plan} {i : Nat} {p : Plan} (h : ps[i]? = some p) :
    (p :: ps.eraseIdx i).Perm ps := by
  obtain ⟨lt, rfl⟩ := List.getElem?_eq_some_iff.1 h
  exact List.getElem_cons_eraseIdx_perm lt

/-- Two plans out of a list and the others are the list. -/
theorem perm_eraseIdx_eraseIdx {ps : List Plan} {i j : Nat} {l r : Plan} (apart : i ≠ j)
    (hi : ps[i]? = some l) (hj : ps[j]? = some r) :
    (l :: r :: (ps.eraseIdx (max i j)).eraseIdx (min i j)).Perm ps := by
  rcases Nat.lt_or_gt_of_ne apart with less | greater
  · rw [Nat.max_eq_right less.le, Nat.min_eq_left less.le]
    have kept : (ps.eraseIdx j)[i]? = some l := by rw [List.getElem?_eraseIdx_of_lt less, hi]
    exact ((List.Perm.swap r l _).trans ((perm_eraseIdx kept).cons r)).trans (perm_eraseIdx hj)
  · rw [Nat.max_eq_left greater.le, Nat.min_eq_right greater.le]
    have kept : (ps.eraseIdx i)[j]? = some r := by rw [List.getElem?_eraseIdx_of_lt greater, hj]
    exact ((perm_eraseIdx kept).cons l).trans (perm_eraseIdx hi)

/-- A chain takes plans one after another, each from a place of what is left that may be chosen
there. -/
inductive Grows (chosen : Plan → List Plan → Nat → Prop) : Plan → List Plan → List Plan → Prop
  | done (chain : Plan) : Grows chosen chain [] []
  | step {chain : Plan} {ps qs : List Plan} {i : Nat} (place : i < ps.length) : chosen chain ps i →
    Grows chosen (join chain ps[i]) (ps.eraseIdx i) qs → Grows chosen chain ps (ps[i] :: qs)

/-- The plans taken are all that there were. -/
theorem Grows.perm {chosen : Plan → List Plan → Nat → Prop} {chain : Plan} {ps qs : List Plan}
    (h : Grows chosen chain ps qs) : qs.Perm ps := by
  induction h with
  | done chain => exact .refl _
  | step place _ _ ih => exact (ih.cons _).trans (List.getElem_cons_eraseIdx_perm place)

/-- A chain grows by what the search gives in each round. -/
theorem grow_grows {chosen : Plan → List Plan → Nat → Prop}
    (search : ∀ chain ps, 0 < ps.length → SatisfiesM (fun i => i < ps.length ∧ chosen chain ps i)
      (cheapest cost 0 (nextJoins chain ps))) (chain : Plan) (ps : List Plan) :
    SatisfiesM (fun q => ∃ qs, Grows chosen chain ps qs ∧ q = qs.foldl join chain)
      (grow cost chain ps) := by
  induction count : ps.length generalizing chain ps with
  | zero =>
    obtain rfl := List.length_eq_zero_iff.1 count
    rw [grow]
    exact SatisfiesM.pure ⟨[], .done chain, rfl⟩
  | succ count' ih =>
    have nonempty : ¬ ps.isEmpty = true := by
      intro none
      rw [List.isEmpty_iff.1 none] at count
      cases count
    rw [grow_of_nonempty cost chain nonempty]
    refine (search chain ps (by omega)).bind fun i found => ?_
    obtain ⟨place, choice⟩ := found
    rw [dif_pos place]
    have fewer : (ps.eraseIdx i).length = count' := by
      rw [List.length_eraseIdx_of_lt place]
      omega
    refine (ih (join chain ps[i]) (ps.eraseIdx i) fewer).imp fun {q} rest => ?_
    obtain ⟨qs, grows, grown⟩ := rest
    exact ⟨ps[i] :: qs, .step place choice grows, grown⟩

/-- The greedy search joins the two plans that it finds first, and grows this chain by the others. -/
theorem greedyOrder?_grows {chosen : Plan → List Plan → Nat → Prop} {begins : Nat × Nat → Prop}
    {ps : List Plan}
    (first : SatisfiesM
      (fun k => (k.1 ≠ k.2 ∧ ∃ l r, ps[k.1]? = some l ∧ ps[k.2]? = some r) ∧ begins k)
      (cheapest cost (0, 1) (pairJoins ps)))
    (search : ∀ chain ps, 0 < ps.length → SatisfiesM (fun i => i < ps.length ∧ chosen chain ps i)
      (cheapest cost 0 (nextJoins chain ps))) :
    SatisfiesM (fun found => ∃ i j l r qs, i ≠ j ∧ ps[i]? = some l ∧ ps[j]? = some r ∧
        begins (i, j) ∧ (l :: r :: qs).Perm ps ∧
        Grows chosen (join l r) ((ps.eraseIdx (max i j)).eraseIdx (min i j)) qs ∧
        found = some (qs.foldl join (join l r)))
      (greedyOrder? cost ps) := by
  rw [greedyOrder?]
  refine first.bind fun k found => ?_
  obtain ⟨i, j⟩ := k
  obtain ⟨⟨apart, l, r, hi, hj⟩, begun⟩ := found
  simp only [hi, hj]
  refine SatisfiesM.map (grow_grows cost search _ _) fun {q} rest => ?_
  obtain ⟨qs, grows, grown⟩ := rest
  have all : (l :: r :: qs).Perm ps :=
    ((grows.perm.cons r).cons l).trans (perm_eraseIdx_eraseIdx apart hi hj)
  exact ⟨i, j, l, r, qs, apart, hi, hj, begun, all, grows, congrArg some grown⟩

/-- The greedy search gives a chain of the plans, if there are two at least. -/
theorem greedyOrder?_perm {ps : List Plan} (two : 2 ≤ ps.length) :
    SatisfiesM
      (fun found => ∃ l r qs, (l :: r :: qs).Perm ps ∧ found = some (qs.foldl join (join l r)))
      (greedyOrder? cost ps) := by
  have first := (cheapest_pair cost two).imp fun {_} found => And.intro found trivial
  have search (chain : Plan) (ps : List Plan) (nonempty : 0 < ps.length) :=
    (cheapest_place cost chain nonempty).imp fun {_} place => And.intro place trivial
  refine (greedyOrder?_grows cost first search).imp fun {found} grown => ?_
  obtain ⟨_, _, l, r, qs, _, _, _, _, all, _, same⟩ := grown
  exact ⟨l, r, qs, all, same⟩

theorem scopes_foldl (chain : Plan) (ps : List Plan) :
    (ps.foldl join chain).scopes = chain.scopes ++ scopesOf ps := by
  induction ps generalizing chain with
  | nil => rw [List.foldl_nil, scopesOf, List.flatMap_nil, List.append_nil]
  | cons p ps ih =>
    rw [List.foldl_cons, ih, scopes_join, List.append_assoc, scopesOf, scopesOf, List.flatMap_cons]

/-- What reordering makes of a plan: the same leaves in their scopes in a left-deep plan, with the
filters that could be moved before. -/
structure Reordered (p q : Plan) : Prop where
  scopes : q.scopes.Perm p.scopes
  leftDeep : q.IsLeftDeep
  movable : q.movable.Perm p.movable

/-- What reordering makes of the operands of a plan. -/
structure ReorderedOperands (p : Plan) (qs : List Plan) : Prop where
  scopes : (scopesOf qs).Perm p.scopes
  nonempty : qs ≠ []
  each : ∀ q ∈ qs, q.isJoin = false ∧ q.IsLeftDeep
  movable : (qs.flatMap Plan.movable).Perm p.movable

theorem Reordered.pushedDown {p q : Plan} (h : Reordered p q) (pushed : p.IsPushedDown) :
    q.IsPushedDown := by
  rw [isPushedDown_iff_movable] at pushed ⊢
  exact List.perm_nil.1 (pushed ▸ h.movable)

theorem Reordered.filter {p q : Plan} (h : Reordered p q) (c : Condition) :
    Reordered (filter c p) (filter c q) where
  scopes := h.scopes.map _
  leftDeep := h.leftDeep
  movable := movable_filter_of_perm c h.scopes h.movable

theorem Reordered.operand {p q : Plan} (h : Reordered p q) (single : q.isJoin = false) :
    ReorderedOperands p [q] where
  scopes := by simpa [scopesOf] using h.scopes
  nonempty := List.cons_ne_nil _ _
  each := List.forall_mem_singleton.2 ⟨single, h.leftDeep⟩
  movable := by simpa using h.movable

theorem ReorderedOperands.join {left right : Plan} {ls rs : List Plan}
    (hl : ReorderedOperands left ls) (hr : ReorderedOperands right rs) :
    ReorderedOperands (join left right) (ls ++ rs) where
  scopes := by
    rw [scopesOf, List.flatMap_append]
    exact hl.scopes.append hr.scopes
  nonempty := by simp [hl.nonempty]
  each := List.forall_mem_append.2 ⟨hl.each, hr.each⟩
  movable := by
    rw [List.flatMap_append]
    exact hl.movable.append hr.movable

/-- A chain of the reordered operands is the plan reordered. -/
theorem ReorderedOperands.chain {p l r : Plan} {ps qs : List Plan} (h : ReorderedOperands p ps)
    (same : (l :: r :: qs).Perm ps) : Reordered p (qs.foldl Plan.join (Plan.join l r)) where
  scopes := by
    refine List.Perm.trans (.of_eq ?_) ((scopesOf_perm same).trans h.scopes)
    rw [scopes_foldl, scopes_join, List.append_assoc, scopesOf, scopesOf, List.flatMap_cons,
      List.flatMap_cons]
  leftDeep := by
    have each := fun q mem => h.each q (same.mem_iff.1 mem)
    simp only [List.forall_mem_cons] at each
    exact IsLeftDeep.foldl ⟨each.1.2, each.2.1⟩ each.2.2
  movable := by
    refine List.Perm.trans (.of_eq ?_) ((same.flatMap_right Plan.movable).trans h.movable)
    rw [movable_foldl, Plan.movable, List.append_assoc, List.flatMap_cons, List.flatMap_cons]

theorem reordered_reorderJoins_and_operands (p : Plan) :
    SatisfiesM (Reordered p) (p.reorderJoins cost) ∧
    SatisfiesM (ReorderedOperands p) (p.reorderedOperands cost) := by
  induction p with
  | pattern p =>
    have own : Reordered (pattern p) (pattern p) := ⟨List.Perm.refl _, trivial, List.Perm.refl _⟩
    rw [reorderJoins, reorderedOperands]
    exact ⟨SatisfiesM.pure own, SatisfiesM.pure (own.operand rfl)⟩
  | filter c input ih =>
    rw [reorderJoins, reorderedOperands]
    exact ⟨ih.1.bind fun q h => SatisfiesM.pure (h.filter c),
      ih.1.bind fun q h => SatisfiesM.pure ((h.filter c).operand rfl)⟩
  | join left right ihl ihr =>
    rw [reorderJoins, reorderedOperands]
    refine ⟨ihl.2.bind fun ls hl => ihr.2.bind fun rs hr => ?_,
      ihl.2.bind fun ls hl => ihr.2.bind fun rs hr => SatisfiesM.pure (hl.join hr)⟩
    have two : 2 ≤ (ls ++ rs).length := by
      have := List.length_pos_iff.2 hl.nonempty
      have := List.length_pos_iff.2 hr.nonempty
      rw [List.length_append]
      omega
    refine (greedyOrder?_perm cost two).bind fun found ⟨l, r, qs, same, chain⟩ => ?_
    subst chain
    exact SatisfiesM.pure ((hl.join hr).chain same)

theorem reordered_reorderJoins (p : Plan) : SatisfiesM (Reordered p) (p.reorderJoins cost) :=
  (reordered_reorderJoins_and_operands cost p).1

theorem reorderJoins_equivalent (p : Plan) : SatisfiesM p.Equivalent (p.reorderJoins cost) :=
  (reordered_reorderJoins cost p).imp fun h => .of_perm h.scopes

theorem optimize_reordered (p : Plan) :
    SatisfiesM (Reordered p.pushDownFilters.toLeftDeep) (p.optimize cost) :=
  reordered_reorderJoins cost _

theorem optimize_scopes (p : Plan) : SatisfiesM p.Equivalent (p.optimize cost) := by
  refine (optimize_reordered cost p).imp fun {q} h => .of_perm ?_
  have same := h.scopes
  rw [scopes_toLeftDeep, scopes_pushDownFilters] at same
  exact same

/-- What holds of all results of a computation holds of the one that it gives. -/
theorem of_reading {α : Type} {P : α → Prop} {x : Reading α} (h : SatisfiesM P x) (n : ScanCount)
    (a : α) (gives : (x.run.run n).1 = .ok a) : P a := by
  rw [SatisfiesM_ExceptT_eq, SatisfiesM_StateT_eq] at h
  exact SatisfiesM_Id_eq.1 (h n) a gives

/-- A plan that optimizing gives means the same as the given one, whatever the costs are and whether
they are read from a store or computed; and so does the plan after each of the three steps alone. -/
theorem optimize_equivalent (p : Plan) :
    (∀ (cost : Plan → Reading Float) (n : ScanCount) (q : Plan),
      ((p.optimize cost).run.run n).1 = .ok q → p.Equivalent q) ∧
    (∀ (cost : Plan → Reading Float) (n : ScanCount) (q : Plan),
      ((p.reorderJoins cost).run.run n).1 = .ok q → p.Equivalent q) ∧
    (∀ cost : Plan → Id Float,
      p.Equivalent (p.optimize cost).run ∧ p.Equivalent (p.reorderJoins cost).run) ∧
    p.Equivalent p.pushDownFilters ∧ p.Equivalent p.toLeftDeep := by
  refine ⟨fun cost => of_reading (optimize_scopes cost p),
    fun cost => of_reading (reorderJoins_equivalent cost p), fun cost => ⟨?_, ?_⟩, ?_, ?_⟩
  · exact SatisfiesM_Id_eq.1 (optimize_scopes cost p)
  · exact SatisfiesM_Id_eq.1 (reorderJoins_equivalent cost p)
  · exact .of_perm (by rw [scopes_pushDownFilters])
  · exact .of_perm (by rw [scopes_toLeftDeep])

/-- A plan that optimizing gives has normal form at every level: no filter of it stands directly over
a join of two patterns, and no join of it has a join on its right. Moving filters leaves none over a
join of two patterns and does nothing the second time. The other two steps keep the filters that stand
over a join of two patterns, in plans of any form: each is there as often as before, over the same two
patterns. -/
theorem optimize_normal (p : Plan) :
    (∀ (cost : Plan → Reading Float) (n : ScanCount) (q : Plan),
      ((p.optimize cost).run.run n).1 = .ok q → q.movable = [] ∧ q.IsLeftDeep) ∧
    p.pushDownFilters.movable = [] ∧ p.pushDownFilters.pushDownFilters = p.pushDownFilters ∧
    p.toLeftDeep.movable.Perm p.movable ∧
    ∀ (cost : Plan → Reading Float) (n : ScanCount) (q : Plan),
      ((p.reorderJoins cost).run.run n).1 = .ok q → q.movable.Perm p.movable := by
  have pushed := p.pushDownFilters_isPushedDown
  refine ⟨fun cost n q gives => ?_, isPushedDown_iff_movable.1 pushed, pushed.pushDownFilters_eq,
    p.movable_toLeftDeep, fun cost n q gives => ?_⟩
  · have form := of_reading (optimize_reordered cost p) n q gives
    exact ⟨isPushedDown_iff_movable.1 (form.pushedDown pushed.toLeftDeep), form.leftDeep⟩
  · exact (of_reading (reordered_reorderJoins cost p) n q gives).movable

end QuadIndex.Plan
