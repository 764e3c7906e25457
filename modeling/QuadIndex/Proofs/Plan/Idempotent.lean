import QuadIndex.Proofs.Number.FloatOrder
import QuadIndex.Proofs.Plan.Reorder
import QuadIndex.Proofs.Result
import QuadIndex.Proofs.Statistics.Steady

/-!
# Optimizing twice

Optimizing an optimized plan changes nothing (`optimize_idempotent`). The operands of its chains come
in the order in which the greedy search took them, so whenever the search is run again the candidate
that it took before is the first one that it looks at: no other candidate costs less, and the first
of several equal ones stays. The candidates are the same joins as before, so no cost is asked for
that was not given before.
-/

namespace QuadIndex.Plan

open Result Reading

variable {cost : Plan → Except Error Float}

section Search

variable {κ : Type}

/-- The cheaper of the best join so far and one more candidate, the former if neither is. -/
def better {m : Type → Type} [Monad m] (cost : Plan → m Float) (best : Float × κ)
    (candidate : κ × Plan) : m (Float × κ) := do
  let c ← cost candidate.2
  return if c < best.1 then (c, candidate.1) else best

theorem cheapest_eq {m : Type → Type} [Monad m] (cost : Plan → m Float) (otherwise : κ)
    (candidates : List (κ × Plan)) : cheapest cost otherwise candidates = do
      return (← candidates.foldlM (better cost) (Estimate.infinity, otherwise)).2 := rfl

/-- All candidates have a cost, and none costs less than the number. -/
def NoneBelow (cost : Plan → Except Error Float) (x : Float) (candidates : List (κ × Plan)) : Prop :=
  ∀ candidate ∈ candidates, ∃ c, cost candidate.2 = .ok c ∧ ¬ c < x

/-- What the search has found among the candidates so far. -/
structure Found (cost : Plan → Except Error Float) (otherwise : κ) (candidates : List (κ × Plan))
    (best : Float × κ) : Prop where
  least : NoneBelow cost best.1 candidates
  origin : best = (Estimate.infinity, otherwise) ∨
    ∃ p, (best.2, p) ∈ candidates ∧ cost p = .ok best.1 ∧ best.1 < Estimate.infinity

/-- One more candidate that is no better leaves what has been found. -/
theorem Found.keep {otherwise : κ} {candidates : List (κ × Plan)} {best : Float × κ}
    {candidate : κ × Plan} {c : Float} (h : Found cost otherwise candidates best)
    (own : cost candidate.2 = .ok c) (dear : ¬ c < best.1) :
    Found cost otherwise (candidates ++ [candidate]) best where
  least := List.forall_mem_append.2 ⟨h.least, List.forall_mem_singleton.2 ⟨c, own, dear⟩⟩
  origin := by
    refine h.origin.imp_right ?_
    rintro ⟨p, mem, rest⟩
    exact ⟨p, List.mem_append_left _ mem, rest⟩

/-- One more candidate that is better takes the place of what has been found. -/
theorem Found.take {otherwise : κ} {candidates : List (κ × Plan)} {best : Float × κ}
    {candidate : κ × Plan} {c : Float} (h : Found cost otherwise candidates best)
    (own : cost candidate.2 = .ok c) (cheap : c < best.1) :
    Found cost otherwise (candidates ++ [candidate]) (c, candidate.1) where
  least := by
    refine List.forall_mem_append.2
      ⟨?_, List.forall_mem_singleton.2 ⟨c, own, FloatOrder.lt_irrefl⟩⟩
    intro other mem
    obtain ⟨c', given, dear⟩ := h.least other mem
    exact ⟨c', given, fun less => dear (FloatOrder.lt_trans less cheap)⟩
  origin := by
    refine .inr ⟨candidate.2, List.mem_append_right _ (List.mem_singleton_self _), own, ?_⟩
    rcases h.origin with rfl | ⟨_, _, _, below⟩
    · exact cheap
    · exact FloatOrder.lt_trans cheap below

theorem found_of_search {otherwise : κ} {candidates : List (κ × Plan)} {best : Float × κ}
    (h : candidates.foldlM (better cost) (Estimate.infinity, otherwise) = .ok best) :
    Found cost otherwise candidates best := by
  induction candidates using List.reverseRecOn generalizing best with
  | nil =>
    cases h
    exact ⟨by simp [NoneBelow], .inl rfl⟩
  | append_singleton candidates candidate ih =>
    rw [List.foldlM_append, bind_eq_ok_iff] at h
    obtain ⟨before, earlier, last⟩ := h
    rw [List.foldlM_cons, bind_eq_ok_iff] at last
    obtain ⟨after, taken, done⟩ := last
    cases done
    obtain ⟨c, own, choice⟩ := bind_eq_ok_iff.1 taken
    cases choice
    split
    · next cheap => exact (ih earlier).take own cheap
    · next dear => exact (ih earlier).keep own dear

/-- Candidates of which none is better leave the best as it is. -/
theorem search_keeps {candidates : List (κ × Plan)} {best : Float × κ}
    (h : NoneBelow cost best.1 candidates) :
    candidates.foldlM (better cost) best = .ok best := by
  induction candidates with
  | nil => rfl
  | cons candidate candidates ih =>
    obtain ⟨⟨c, own, dear⟩, rest⟩ := List.forall_mem_cons.1 h
    have kept : better cost best candidate = .ok best := by
      rw [better, own]
      exact congrArg Except.ok (if_neg dear)
    rw [List.foldlM_cons, kept]
    exact ih rest

/-- A search among the same joins finds the first of them if that is the one found before, and has
the label that stands for there being none. -/
theorem cheapest_first {κ' : Type} {otherwise k : κ} {candidates : List (κ × Plan)}
    {again : List (κ' × Plan)} (first : κ' × Plan)
    (h : cheapest cost otherwise candidates = .ok k) (head : again.head? = some first)
    (chosen : ∀ p, (k, p) ∈ candidates → p = first.2)
    (same : ∀ candidate ∈ again, ∃ k, (k, candidate.2) ∈ candidates) :
    cheapest cost first.1 again = .ok first.1 := by
  rw [cheapest_eq, bind_eq_ok_iff] at h
  obtain ⟨best, search, label⟩ := h
  cases label
  obtain ⟨least, origin⟩ := found_of_search search
  have noneBelow : NoneBelow cost best.1 again := by
    intro candidate mem
    obtain ⟨k, listed⟩ := same candidate mem
    exact least _ listed
  suffices found : ∃ x, again.foldlM (better cost) (Estimate.infinity, first.1) =
      .ok (x, first.1) by
    obtain ⟨x, found⟩ := found
    rw [cheapest_eq, found]
    rfl
  rcases origin with rfl | ⟨p, mem, own, below⟩
  · exact ⟨Estimate.infinity, search_keeps noneBelow⟩
  · refine ⟨best.1, ?_⟩
    obtain ⟨others, rfl⟩ := List.head?_eq_some_iff.1 head
    have taken : better cost (Estimate.infinity, first.1) first = .ok (best.1, first.1) := by
      rw [better, ← chosen p mem, own]
      exact congrArg Except.ok (if_pos below)
    rw [List.foldlM_cons, taken]
    exact search_keeps (List.forall_mem_cons.1 noneBelow).2

end Search

section Order

variable {ps : List Plan}

theorem of_ok {α : Type} {P : α → Prop} {x : Except Error α} (h : SatisfiesM P x) {a : α}
    (gives : x = .ok a) : P a :=
  SatisfiesM_Except_eq.1 h a gives

/-- A chain grows by the places that the search gives. -/
theorem grows_of_grow {chain q : Plan} (h : grow cost chain ps = .ok q) :
    ∃ qs, Grows (fun chain ps i => cheapest cost 0 (nextJoins chain ps) = .ok i) chain ps qs ∧
      q = qs.foldl join chain := by
  refine of_ok (grow_grows cost (fun chain ps nonempty => ?_) chain ps) h
  exact SatisfiesM_Except_eq.2 fun i found =>
    ⟨of_ok (cheapest_place cost chain nonempty) found, found⟩

/-- Growing a chain by the plans in the order in which they were taken gives the same again. -/
theorem grow_again {chain : Plan} {qs : List Plan}
    (h : Grows (fun chain ps i => cheapest cost 0 (nextJoins chain ps) = .ok i) chain ps qs) :
    grow cost chain qs = .ok (qs.foldl join chain) := by
  induction h with
  | done chain =>
    rw [grow]
    rfl
  | @step chain ps qs i place found rest ih =>
    have all : (ps[i] :: qs).Perm ps :=
      (rest.perm.cons _).trans (List.getElem_cons_eraseIdx_perm place)
    have first : cheapest cost 0 (nextJoins chain (ps[i] :: qs)) = .ok 0 := by
      refine cheapest_first (0, join chain ps[i]) found rfl ?_ ?_
      · intro p mem
        obtain ⟨r, here, rfl⟩ := mem_nextJoins_iff.1 mem
        rw [List.getElem?_eq_getElem place] at here
        cases here
        rfl
      · rintro ⟨k, p⟩ mem
        obtain ⟨r, there, rfl⟩ := mem_nextJoins_iff.1 mem
        obtain ⟨k', place', rfl⟩ := List.getElem_of_mem (all.mem_iff.1 (List.mem_of_getElem? there))
        exact ⟨k', mem_nextJoins_iff.2 ⟨_, List.getElem?_eq_getElem place', rfl⟩⟩
    rw [grow_of_nonempty cost chain (by simp), first]
    exact ih

/-- The joins of two of the plans are the same for all orders of these. -/
theorem mem_pairJoins_of_perm {qs : List Plan} (same : qs.Perm ps) {k : Nat × Nat} {p : Plan}
    (h : (k, p) ∈ pairJoins qs) : ∃ k', (k', p) ∈ pairJoins ps := by
  obtain ⟨apart, l, r, first, second, rfl⟩ := mem_pairJoins_iff.1 h
  obtain ⟨i, place, rfl⟩ := List.getElem_of_mem (same.mem_iff.1 (List.mem_of_getElem? first))
  have others : (qs.eraseIdx k.1).Perm (ps.eraseIdx i) := by
    have whole := (perm_eraseIdx first).trans same
    exact (whole.trans (List.getElem_cons_eraseIdx_perm place).symm).cons_inv
  have other : r ∈ qs.eraseIdx k.1 := List.mem_eraseIdx_iff_getElem?.2 ⟨k.2, apart.symm, second⟩
  obtain ⟨j, apart', second'⟩ := List.mem_eraseIdx_iff_getElem?.1 (others.mem_iff.1 other)
  exact ⟨(i, j), mem_pairJoins_iff.2
    ⟨apart'.symm, _, r, List.getElem?_eq_getElem place, second', rfl⟩⟩

/-- The greedy search on the operands of the chain that it gave gives this chain. -/
theorem greedyOrder?_again {found : Option Plan} (two : 2 ≤ ps.length)
    (h : greedyOrder? cost ps = .ok found) : ∃ l r qs, (l :: r :: qs).Perm ps ∧
      found = some (qs.foldl join (join l r)) ∧ greedyOrder? cost (l :: r :: qs) = .ok found := by
  rw [greedyOrder?, bind_eq_ok_iff] at h
  obtain ⟨⟨i, j⟩, chosen, h⟩ := h
  obtain ⟨apart, l, r, hi, hj⟩ := of_ok (cheapest_pair cost two) chosen
  simp only [hi, hj] at h
  rw [map_eq_ok_iff] at h
  obtain ⟨q, grown, rfl⟩ := h
  obtain ⟨qs, grows, rfl⟩ := grows_of_grow grown
  have again := grow_again grows
  have all : (l :: r :: qs).Perm ps :=
    ((grows.perm.cons r).cons l).trans (perm_eraseIdx_eraseIdx apart hi hj)
  refine ⟨l, r, qs, all, rfl, ?_⟩
  have first : cheapest cost (0, 1) (pairJoins (l :: r :: qs)) = .ok (0, 1) := by
    refine cheapest_first ((0, 1), join l r) chosen rfl ?_ ?_
    · intro p mem
      obtain ⟨_, l', r', hi', hj', rfl⟩ := mem_pairJoins_iff.1 mem
      cases hi.symm.trans hi'
      cases hj.symm.trans hj'
      rfl
    · exact fun candidate mem => mem_pairJoins_of_perm all mem
  rw [greedyOrder?, first]
  exact congrArg (some <$> ·) again

/-- The plan stands for itself among reordered operands. -/
def IsSettled (cost : Plan → Except Error Float) (p : Plan) : Prop :=
  p.reorderedOperands cost = .ok [p]

theorem reorderJoins_join (left right : Plan) :
    (join left right).reorderJoins cost = do
      let operands ← (join left right).reorderedOperands cost
      return (← greedyOrder? cost operands).getD (join left right) := by
  rw [reorderJoins, reorderedOperands, bind_assoc]
  simp only [bind_assoc, pure_bind]

/-- The operands of a chain of settled plans are these plans. -/
theorem reorderedOperands_foldl {chain : Plan} {ls : List Plan}
    (first : chain.reorderedOperands cost = .ok ls) (each : ∀ p ∈ ps, IsSettled cost p) :
    (ps.foldl join chain).reorderedOperands cost = .ok (ls ++ ps) := by
  induction ps generalizing chain ls with
  | nil => rw [List.foldl_nil, List.append_nil, first]
  | cons p ps ih =>
    obtain ⟨own, others⟩ := List.forall_mem_cons.1 each
    have joined : (join chain p).reorderedOperands cost = .ok (ls ++ [p]) := by
      rw [reorderedOperands, first, own]
      rfl
    rw [List.foldl_cons, ih joined others, List.append_assoc, List.singleton_append]

/-- A chain is a join if two plans are joined in it. -/
theorem exists_join_of_foldl (l r : Plan) (ps : List Plan) :
    ∃ left right, ps.foldl join (join l r) = join left right := by
  induction ps using List.reverseRecOn with
  | nil => exact ⟨l, r, rfl⟩
  | append_singleton ps p _ => exact ⟨ps.foldl join (join l r), p, List.foldl_append ..⟩

/-- A reordered plan is reordered to itself, and reordered operands are settled. -/
theorem reorderJoins_again_and_operands (p : Plan) :
    (∀ q, p.reorderJoins cost = .ok q → q.reorderJoins cost = .ok q) ∧
    (∀ qs, p.reorderedOperands cost = .ok qs → ∀ q ∈ qs, IsSettled cost q) := by
  induction p with
  | pattern leaf =>
    constructor
    · intro q h
      rw [reorderJoins] at h
      cases h
      rw [reorderJoins]
      rfl
    · intro qs h
      rw [reorderedOperands] at h
      cases h
      refine List.forall_mem_singleton.2 ?_
      rw [IsSettled, reorderedOperands]
      rfl
  | filter c input ih =>
    constructor
    · intro q h
      rw [reorderJoins, bind_eq_ok_iff] at h
      obtain ⟨inner, reordered, same⟩ := h
      cases same
      rw [reorderJoins, ih.1 inner reordered]
      rfl
    · intro qs h
      rw [reorderedOperands, bind_eq_ok_iff] at h
      obtain ⟨inner, reordered, same⟩ := h
      cases same
      refine List.forall_mem_singleton.2 ?_
      rw [IsSettled, reorderedOperands, ih.1 inner reordered]
      rfl
  | join left right ihl ihr =>
    constructor
    · intro q h
      rw [reorderJoins, bind_eq_ok_iff] at h
      obtain ⟨ls, hl, h⟩ := h
      obtain ⟨rs, hr, h⟩ := bind_eq_ok_iff.1 h
      obtain ⟨found, greedy, same⟩ := bind_eq_ok_iff.1 h
      have two : 2 ≤ (ls ++ rs).length := by
        have fromLeft := (of_ok (reordered_reorderJoins_and_operands cost left).2 hl).nonempty
        have fromRight := (of_ok (reordered_reorderJoins_and_operands cost right).2 hr).nonempty
        have := List.length_pos_iff.2 fromLeft
        have := List.length_pos_iff.2 fromRight
        rw [List.length_append]
        omega
      obtain ⟨l, r, qs, all, rfl, again⟩ := greedyOrder?_again two greedy
      cases same
      have settled : ∀ p ∈ l :: r :: qs, IsSettled cost p := by
        intro p mem
        exact List.forall_mem_append.2 ⟨ihl.2 ls hl, ihr.2 rs hr⟩ p (all.mem_iff.1 mem)
      obtain ⟨first, rest⟩ := List.forall_mem_cons.1 settled
      have operands : (qs.foldl join (join l r)).reorderedOperands cost = .ok (l :: r :: qs) :=
        reorderedOperands_foldl first rest
      obtain ⟨left', right', chain⟩ := exists_join_of_foldl l r qs
      rw [Option.getD_some]
      rw [chain] at operands again ⊢
      rw [reorderJoins_join, operands]
      exact congrArg (fun x => (fun found => found.getD (join left' right')) <$> x) again
    · intro qs h
      rw [reorderedOperands, bind_eq_ok_iff] at h
      obtain ⟨ls, hl, h⟩ := h
      obtain ⟨rs, hr, same⟩ := bind_eq_ok_iff.1 h
      cases same
      exact List.forall_mem_append.2 ⟨ihl.2 ls hl, ihr.2 rs hr⟩

theorem reorderJoins_again {p q : Plan} (h : p.reorderJoins cost = .ok q) :
    q.reorderJoins cost = .ok q :=
  (reorderJoins_again_and_operands p).1 q h

theorem optimize_again {p q : Plan} (h : p.optimize cost = .ok q) : q.optimize cost = .ok q := by
  have form := of_ok (reordered_reorderJoins cost _) h
  have pushed : q.IsPushedDown :=
    form.pushedDown (IsPushedDown.toLeftDeep p.pushDownFilters_isPushedDown)
  rw [optimize, pushed.pushDownFilters_eq, form.leftDeep.toLeftDeep_eq]
  exact reorderJoins_again h

end Order

section Reading

variable {cost : Plan → Reading Float} {answers : Plan → Except Error Float}

section

variable (known : ∀ p, Gives (cost p) (answers p))

include known

theorem gives_cheapest {κ : Type} (otherwise : κ) (candidates : List (κ × Plan)) :
    Gives (cheapest cost otherwise candidates) (cheapest answers otherwise candidates) := by
  have search (best : Float × κ) :
      Gives (candidates.foldlM (better cost) best) (candidates.foldlM (better answers) best) := by
    induction candidates generalizing best with
    | nil => exact .pure best
    | cons candidate candidates ih =>
      rw [List.foldlM_cons, List.foldlM_cons]
      exact Gives.bind_result ((known _).bind_result fun _ => .pure _) ih
  exact (search _).bind_result fun _ => .pure _

theorem gives_grow (chain : Plan) (ps : List Plan) :
    Gives (grow cost chain ps) (grow answers chain ps) := by
  fun_induction grow answers chain ps with
  | case1 chain ps none =>
    rw [grow, if_pos none]
    exact .pure chain
  | case2 chain ps nonempty ih =>
    rw [grow, if_neg nonempty]
    refine (gives_cheapest known _ _).bind_result fun i => ?_
    split
    · next place => exact ih i place
    · exact .pure chain

theorem gives_greedyOrder? (ps : List Plan) :
    Gives (greedyOrder? cost ps) (greedyOrder? answers ps) := by
  rw [greedyOrder?, greedyOrder?]
  refine (gives_cheapest known _ _).bind_result fun k => ?_
  obtain ⟨i, j⟩ := k
  dsimp only
  split
  · exact (gives_grow known _ _).map some
  · exact .pure none

theorem gives_reorderJoins_and_operands (p : Plan) :
    Gives (p.reorderJoins cost) (p.reorderJoins answers) ∧
    Gives (p.reorderedOperands cost) (p.reorderedOperands answers) := by
  induction p with
  | pattern leaf =>
    simp only [reorderJoins, reorderedOperands]
    exact ⟨.pure _, .pure _⟩
  | filter c input ih =>
    simp only [reorderJoins, reorderedOperands]
    exact ⟨ih.1.bind_result fun _ => .pure _, ih.1.bind_result fun _ => .pure _⟩
  | join left right ihl ihr =>
    simp only [reorderJoins, reorderedOperands]
    constructor
    · refine ihl.2.bind_result fun ls => ihr.2.bind_result fun rs => ?_
      exact (gives_greedyOrder? known _).bind_result fun _ => .pure _
    · exact ihl.2.bind_result fun ls => ihr.2.bind_result fun rs => .pure _

/-- Reordering with costs that are read gives what it gives with the costs themselves. -/
theorem gives_reorderJoins (p : Plan) : Gives (p.reorderJoins cost) (p.reorderJoins answers) :=
  (gives_reorderJoins_and_operands known p).1

end

/-- Costs that are read, but are the same whenever they are, do not change the second time. -/
theorem gives_reorderJoins_again {p q : Plan} (steady : ∀ p, (cost p).Steady)
    (h : Gives (p.reorderJoins cost) (.ok q)) : Gives (q.reorderJoins cost) (.ok q) := by
  obtain ⟨answers, known⟩ := Classical.axiomOfChoice steady
  have computed := h.unique (gives_reorderJoins known p)
  exact reorderJoins_again computed.symm ▸ gives_reorderJoins known q

theorem gives_optimize_again {p q : Plan} (steady : ∀ p, (cost p).Steady)
    (h : Gives (p.optimize cost) (.ok q)) : Gives (q.optimize cost) (.ok q) := by
  obtain ⟨answers, known⟩ := Classical.axiomOfChoice steady
  have computed := h.unique (gives_reorderJoins known _)
  exact optimize_again (p := p) computed.symm ▸ gives_reorderJoins known _

end Reading

/-- Optimizing an optimized plan gives the identical plan, and so does reordering a reordered one:
whatever the costs are, and also when they are estimated from a source that is read, of which only
its answering one thing to each question is asked. Statistics kept in a store are such a source. -/
theorem optimize_idempotent (p : Plan) :
    (∀ (cost : Plan → Except Error Float) (q : Plan),
      (p.optimize cost = .ok q → q.optimize cost = .ok q) ∧
      (p.reorderJoins cost = .ok q → q.reorderJoins cost = .ok q)) ∧
    (∀ source : StatisticsSource Reading, source.Steady → ∀ q : Plan,
      (Gives (p.optimize source.planSize) (.ok q) →
        Gives (q.optimize source.planSize) (.ok q)) ∧
      (Gives (p.reorderJoins source.planSize) (.ok q) →
        Gives (q.reorderJoins source.planSize) (.ok q))) ∧
    ∀ (ix : Index) (store : Store), (ix.storedStatistics store).Steady := by
  refine ⟨fun cost q => ⟨optimize_again, reorderJoins_again⟩, ?_, Index.storedStatistics_steady⟩
  intro source steady q
  have each := source.planSize_steady steady
  exact ⟨gives_optimize_again each, gives_reorderJoins_again each⟩

end QuadIndex.Plan
