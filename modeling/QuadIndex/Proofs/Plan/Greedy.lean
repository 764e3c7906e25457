import QuadIndex.Proofs.Plan.Idempotent

/-!
# What the greedy search takes

The search looks at the joins of two operands in the order of their places, both ways round, and then
again and again at the joins of the chain with one more operand. Costs need not be numbers, and they
may change from one question to the next: the places taken are places of what is left, so every
operand is taken once, and the search fails only where a cost does. In a round whose costs are all
finite, the join taken is the first of those that cost least (`greedyOrder?_takes`).
-/

namespace QuadIndex.Plan

open Reading

section Search

variable {κ : Type} {x y : κ × Float} {xs : List (κ × Float)}

/-- No label has a smaller cost, and all before it have a greater one. -/
def FirstLeast (x : κ × Float) (xs : List (κ × Float)) : Prop :=
  ∃ before after, xs = before ++ x :: after ∧ (∀ y ∈ before, x.2 < y.2) ∧ ∀ y ∈ after, x.2 ≤ y.2

theorem FirstLeast.below {c : Float} (h : FirstLeast x xs) (less : c < x.2) : ∀ y ∈ xs, c < y.2 := by
  obtain ⟨before, after, rfl, greater, least⟩ := h
  refine List.forall_mem_append.2 ⟨fun y mem => ?_, List.forall_mem_cons.2 ⟨less, fun y mem => ?_⟩⟩
  · exact FloatOrder.lt_trans less (greater y mem)
  · exact FloatOrder.lt_of_lt_of_le less (least y mem)

theorem FirstLeast.keep (h : FirstLeast x xs) (least : x.2 ≤ y.2) : FirstLeast x (xs ++ [y]) := by
  obtain ⟨before, after, rfl, greater, least'⟩ := h
  refine ⟨before, after ++ [y], by simp, greater, ?_⟩
  exact List.forall_mem_append.2 ⟨least', List.forall_mem_singleton.2 least⟩

theorem FirstLeast.take (less : ∀ x ∈ xs, y.2 < x.2) : FirstLeast y (xs ++ [y]) :=
  ⟨xs, [], rfl, less, by simp⟩

/-- What the search has picked of the labels seen so far: the one it began with if nothing costs less
than infinity, and the first of those that cost least if all costs are finite. -/
structure Picks (otherwise : κ) (seen : List (κ × Float)) (best : Float × κ) : Prop where
  origin : best = (Estimate.infinity, otherwise) ∨ (best.2, best.1) ∈ seen
  first : seen ≠ [] → (∀ y ∈ seen, y.2.isFinite = true) → FirstLeast (best.2, best.1) seen

theorem Picks.nil (otherwise : κ) : Picks otherwise [] (Estimate.infinity, otherwise) :=
  ⟨.inl rfl, fun nonempty => absurd rfl nonempty⟩

theorem lt_infinity {c : Float} (finite : c.isFinite = true) : c < Estimate.infinity := by
  obtain ⟨p, place, below⟩ := FloatOrder.exists_place_of_isFinite finite
  exact FloatOrder.lt_iff.2 ⟨p, place, _, rfl, below⟩

/-- One more label takes the place of the one picked if it costs less. -/
theorem Picks.snoc {otherwise : κ} {best : Float × κ} (h : Picks otherwise xs best) (k : κ)
    (c : Float) : Picks otherwise (xs ++ [(k, c)]) (if c < best.1 then (c, k) else best) := by
  have last : (k, c) ∈ xs ++ [(k, c)] := List.mem_append_right _ (List.mem_singleton_self _)
  by_cases less : c < best.1
  · -- Nothing before costs less than the one picked, so nothing costs as little as this.
    rw [if_pos less]
    refine ⟨.inr last, fun _ finite => FirstLeast.take ?_⟩
    by_cases empty : xs = []
    · simp [empty]
    · exact (h.first empty fun y mem => finite y (List.mem_append_left _ mem)).below less
  · rw [if_neg less]
    refine ⟨h.origin.imp_right (List.mem_append_left _), fun _ finite => ?_⟩
    have own := finite _ last
    rcases h.origin with rfl | mem
    · -- A finite cost is below the infinity that the search begins with.
      exact absurd (lt_infinity own) less
    · have earlier : ∀ y ∈ xs, y.2.isFinite = true :=
        fun y mem => finite y (List.mem_append_left _ mem)
      exact (h.first (List.ne_nil_of_mem mem) earlier).keep
        (FloatOrder.le_of_not_lt (FloatOrder.isNaN_of_isFinite own)
          (FloatOrder.isNaN_of_isFinite (earlier _ mem)) less)

variable {m : Type → Type} [Monad m] [LawfulMonad m] {cost : Plan → m Float}
  {answers : Plan → Float → Prop}

/-- The costs met when some joins were looked at, each with the label of its join. -/
def Priced (answers : Plan → Float → Prop) : List (κ × Plan) → List (κ × Float) → Prop :=
  List.Forall₂ fun candidate priced => priced.1 = candidate.1 ∧ answers candidate.2 priced.2

theorem Priced.mem {candidates : List (κ × Plan)} {priced : List (κ × Float)}
    (h : Priced answers candidates priced) (mem : x ∈ priced) : ∃ p, (x.1, p) ∈ candidates := by
  induction h with
  | nil => cases mem
  | @cons candidate first _ _ same _ ih =>
    rcases List.mem_cons.1 mem with rfl | mem
    · exact ⟨candidate.2, same.1 ▸ List.mem_cons_self⟩
    · obtain ⟨p, listed⟩ := ih mem
      exact ⟨p, List.mem_cons_of_mem _ listed⟩

/-- The label is the first of those that cost least, where all costs met are finite. -/
def Selects (answers : Plan → Float → Prop) (candidates : List (κ × Plan)) (k : κ) : Prop :=
  ∃ priced, Priced answers candidates priced ∧
    ((∀ y ∈ priced, y.2.isFinite = true) → ∃ c, FirstLeast (k, c) priced)

variable (possible : ∀ p, SatisfiesM (answers p) (cost p))

include possible

theorem search_picks (otherwise : κ) (candidates : List (κ × Plan)) {seen : List (κ × Float)}
    {best : Float × κ} (h : Picks otherwise seen best) :
    SatisfiesM (fun best => ∃ priced, Priced answers candidates priced ∧
      Picks otherwise (seen ++ priced) best) (candidates.foldlM (better cost) best) := by
  induction candidates generalizing seen best with
  | nil => exact SatisfiesM.pure ⟨[], .nil, by rwa [List.append_nil]⟩
  | cons candidate candidates ih =>
    rw [List.foldlM_cons]
    refine SatisfiesM.bind (p := fun best => ∃ c, answers candidate.2 c ∧
      Picks otherwise (seen ++ [(candidate.1, c)]) best) ?_ fun best met => ?_
    · exact (possible candidate.2).bind fun c own => SatisfiesM.pure ⟨c, own, h.snoc _ c⟩
    · obtain ⟨c, own, picks⟩ := met
      refine (ih picks).imp fun {best} found => ?_
      obtain ⟨priced, rest, picks⟩ := found
      refine ⟨(candidate.1, c) :: priced, .cons ⟨rfl, own⟩ rest, ?_⟩
      rwa [List.append_assoc] at picks

/-- The label that the search gives is the one given to it or one of the candidates', and it is the
first of those that cost least. -/
theorem cheapest_selects (otherwise : κ) {candidates : List (κ × Plan)}
    (nonempty : candidates ≠ []) :
    SatisfiesM (fun k => (k = otherwise ∨ ∃ p, (k, p) ∈ candidates) ∧
      Selects answers candidates k) (cheapest cost otherwise candidates) := by
  rw [cheapest_eq]
  refine (search_picks possible otherwise candidates (.nil otherwise)).bind fun best found => ?_
  obtain ⟨priced, prices, picks⟩ := found
  refine SatisfiesM.pure ⟨?_, priced, prices, fun finite => ?_⟩
  · exact picks.origin.imp (fun same => by rw [same]) fun mem => prices.mem mem
  · refine ⟨best.1, picks.first ?_ finite⟩
    rintro none
    cases (none : priced = [])
    cases prices
    exact nonempty rfl

end Search

/-- The pairs of places below a number: for each place and each later one, both ways round. -/
def places (n : Nat) : List (Nat × Nat) :=
  (List.range n).flatMap fun i =>
    (List.range' (i + 1) (n - (i + 1))).flatMap fun j => [(i, j), (j, i)]

/-- The joins of two plans come in the order of the pairs of their places. -/
theorem map_fst_pairJoins (ps : List Plan) : (pairJoins ps).map Prod.fst = places ps.length := by
  have numbers : ps.zipIdx.map Prod.snd = List.range ps.length := by
    rw [List.zipIdx_map_snd, List.range_eq_range']
  have later (i : Nat) : (ps.zipIdx.drop (i + 1)).map Prod.snd =
      List.range' (i + 1) (ps.length - (i + 1)) := by
    rw [List.map_drop, numbers, List.range_eq_range', List.drop_range', Nat.zero_add, Nat.mul_one]
  rw [pairJoins, places, ← numbers, List.map_flatMap, List.flatMap_map]
  apply List.flatMap_congr
  intro x _
  rw [← later, List.map_flatMap, List.flatMap_map]
  rfl

section Order

variable {m : Type → Type} [Monad m] [LawfulMonad m] {cost : Plan → m Float}
  {answers : Plan → Float → Prop} (possible : ∀ p, SatisfiesM (answers p) (cost p))

include possible

theorem next_selects (chain : Plan) (ps : List Plan) (nonempty : 0 < ps.length) :
    SatisfiesM (fun i => i < ps.length ∧ Selects answers (nextJoins chain ps) i)
      (cheapest cost 0 (nextJoins chain ps)) := by
  have joins : nextJoins chain ps ≠ [] := by
    simpa [nextJoins] using List.length_pos_iff.1 nonempty
  refine (cheapest_selects possible 0 joins).imp fun {i} found => ?_
  exact ⟨place_of_label nonempty found.1, found.2⟩

theorem pair_selects {ps : List Plan} (two : 2 ≤ ps.length) :
    SatisfiesM (fun k => (k.1 ≠ k.2 ∧ ∃ l r, ps[k.1]? = some l ∧ ps[k.2]? = some r) ∧
        Selects answers (pairJoins ps) k) (cheapest cost (0, 1) (pairJoins ps)) := by
  have joins : pairJoins ps ≠ [] := by
    obtain ⟨l, first⟩ : ∃ l, ps[0]? = some l := ⟨_, List.getElem?_eq_getElem (by omega)⟩
    obtain ⟨r, second⟩ : ∃ r, ps[1]? = some r := ⟨_, List.getElem?_eq_getElem two⟩
    have mem : ((0, 1), join l r) ∈ pairJoins ps :=
      mem_pairJoins_iff.2 ⟨by decide, l, r, first, second, rfl⟩
    exact List.ne_nil_of_mem mem
  refine (cheapest_selects possible (0, 1) joins).imp fun {k} found => ?_
  exact ⟨places_of_label two found.1, found.2⟩

end Order

section Failing

variable {cost : Plan → Reading Float} {kind : Error → Prop}
  (each : ∀ p, FailsOnly kind (cost p))

include each

theorem cheapest_failsOnly {κ : Type} (otherwise : κ) (candidates : List (κ × Plan)) :
    FailsOnly kind (cheapest cost otherwise candidates) := by
  have search (best : Float × κ) : FailsOnly kind (candidates.foldlM (better cost) best) := by
    induction candidates generalizing best with
    | nil => exact .pure best
    | cons candidate candidates ih =>
      rw [List.foldlM_cons]
      exact ((each _).bind fun _ => .pure _).bind ih
  exact (search _).bind fun _ => .pure _

theorem grow_failsOnly (chain : Plan) (ps : List Plan) : FailsOnly kind (grow cost chain ps) := by
  fun_induction grow cost chain ps with
  | case1 chain ps none => exact .pure chain
  | case2 chain ps nonempty ih =>
    refine (cheapest_failsOnly each _ _).bind fun i => ?_
    split
    · next place => exact ih i place
    · exact .pure chain

theorem greedyOrder?_failsOnly (ps : List Plan) : FailsOnly kind (greedyOrder? cost ps) := by
  refine (cheapest_failsOnly each _ _).bind fun k => ?_
  obtain ⟨i, j⟩ := k
  dsimp only
  split
  · rw [map_eq_pure_bind]
    exact (grow_failsOnly each _ _).bind fun _ => .pure _
  · exact .pure none

end Failing

/-- The cost is one that the plan may be given. -/
def MayCost (cost : Plan → Reading Float) (p : Plan) (c : Float) : Prop :=
  ∃ n, ((cost p).run.run n).1 = .ok c

theorem mayCost (cost : Plan → Reading Float) (p : Plan) : SatisfiesM (MayCost cost p) (cost p) := by
  rw [SatisfiesM_ExceptT_eq, SatisfiesM_StateT_eq]
  intro n
  exact SatisfiesM_Id_eq.2 fun c gives => ⟨n, gives⟩

/-- Whatever the costs are, the greedy search of two plans or more fails as a cost does, or joins all
of them one after another. It begins with two different places and goes on with places of what is
left. Where the costs of all joins of two plans are finite, the two that it begins with are the first
of those that cost least, in the order of the pairs of places and both ways round; and so is each plan
that follows, among those left over in their order, where the costs of their joins with the chain are
finite. -/
theorem greedyOrder?_takes (cost : Plan → Reading Float) {ps : List Plan} (two : 2 ≤ ps.length)
    (n : ScanCount) :
    (∃ e, ((greedyOrder? cost ps).run.run n).1 = .error e ∧
      ∃ p n', ((cost p).run.run n').1 = .error e) ∨
    ∃ i j l r qs,
      ((greedyOrder? cost ps).run.run n).1 = .ok (some (qs.foldl join (join l r))) ∧
      (l :: r :: qs).Perm ps ∧ i ≠ j ∧ ps[i]? = some l ∧ ps[j]? = some r ∧
      (pairJoins ps).map Prod.fst = places ps.length ∧
      Selects (MayCost cost) (pairJoins ps) (i, j) ∧
      Grows (fun chain ps => Selects (MayCost cost) (nextJoins chain ps)) (join l r)
        ((ps.eraseIdx (max i j)).eraseIdx (min i j)) qs := by
  cases outcome : ((greedyOrder? cost ps).run.run n).1 with
  | error e =>
    have each (p : Plan) : FailsOnly (fun e => ∃ p n', ((cost p).run.run n').1 = .error e) (cost p) :=
      fun n' e failed => ⟨p, n', failed⟩
    exact .inl ⟨e, rfl, greedyOrder?_failsOnly each ps n e outcome⟩
  | ok found =>
    have possible := mayCost cost
    obtain ⟨i, j, l, r, qs, apart, first, second, selects, all, grows, rfl⟩ :=
      of_reading (greedyOrder?_grows cost (pair_selects possible two) (next_selects possible)) n
        found outcome
    exact .inr ⟨i, j, l, r, qs, rfl, all, apart, first, second, map_fst_pairJoins ps, selects,
      grows⟩

/-- Of two joins of the same plans, the other way round is taken if it costs less. -/
theorem greedyOrder?_takes_other_way :
    let a : Plan := .pattern { predicate := .constant ⟨"a"⟩ }
    let b : Plan := .pattern { predicate := .constant ⟨"b"⟩ }
    let cost (p : Plan) : Reading Float :=
      pure (if p.leaves.head? = a.leaves.head? then float64 0x406b800000000000
        else float64 0x406a400000000000)
    ((greedyOrder? cost [a, b]).run.run {}).1 = .ok (some (join b a)) := by
  intro a b cost
  have costs {p : Plan} {c : Float} (may : MayCost cost p c) :
      c = if p.leaves.head? = a.leaves.head? then float64 0x406b800000000000
        else float64 0x406a400000000000 := by
    obtain ⟨_, gives⟩ := may
    exact (Except.ok.inj gives).symm
  rcases @greedyOrder?_takes cost [a, b] (by decide) {} with
    ⟨_, _, _, _, failed⟩ | ⟨i, j, l, r, qs, found, all, _, first, second, _, selects, _⟩
  · cases failed
  obtain rfl : qs = [] := List.length_eq_zero_iff.1 (by simpa using all.length_eq)
  obtain ⟨priced, prices, least⟩ := selects
  change Priced _ [((0, 1), join a b), ((1, 0), join b a)] priced at prices
  obtain _ | @⟨_, ⟨_, c⟩, _, _, ⟨rfl, own⟩, _ | @⟨_, ⟨_, d⟩, _, _, ⟨rfl, own'⟩, _ | _⟩⟩ := prices
  obtain rfl : c = float64 0x406b800000000000 := costs own
  obtain rfl : d = float64 0x406a400000000000 := costs own'
  obtain ⟨c, before, after, same, _, smaller⟩ := least (by simp; decide)
  obtain _ | ⟨x, _ | ⟨y, before⟩⟩ := before
  · -- The first of the two is not the cheaper one.
    cases same
    exact absurd (smaller _ List.mem_cons_self) (by decide)
  · cases same
    cases first
    cases second
    exact found
  · cases before <;> cases same

end QuadIndex.Plan
