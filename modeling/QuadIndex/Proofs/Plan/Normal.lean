import Mathlib.Data.List.Permutation
import Mathlib.Data.Sym.Sym2
import QuadIndex.Proofs.Plan.Scope

/-!
# Plans in normal form

A plan is pushed down if no filter of it stands directly over a join of two patterns, and left-deep
if no join of it has a join on its right, at every level. Each of the first two steps of optimizing
gives plans of its form and leaves those of its form as they are. Whether a plan is a join of two
patterns can be read off its leaves in their scopes (`isPatternPair_iff_scopes`), and so a step that
keeps these leaves the filters that can be moved as they are (`movable_filter_of_perm`).
-/

namespace QuadIndex.Plan

/-- The plan is a join of two patterns. -/
def isPatternPair : Plan → Bool
  | join (pattern _) (pattern _) => true
  | _ => false

/-- No filter of the plan stands directly over a join of two patterns. -/
def IsPushedDown : Plan → Prop
  | pattern _ => True
  | filter _ input => input.isPatternPair = false ∧ input.IsPushedDown
  | join left right => left.IsPushedDown ∧ right.IsPushedDown

/-- The filters of the plan that stand directly over a join of two patterns, each with these. -/
def movable : Plan → List (Condition × Sym2 Pattern)
  | pattern _ => []
  | filter c (join (pattern l) (pattern r)) => [(c, s(l, r))]
  | filter _ input => input.movable
  | join left right => left.movable ++ right.movable

/-- No join of the plan has a join on its right. -/
def IsLeftDeep : Plan → Prop
  | pattern _ => True
  | filter _ input => input.IsLeftDeep
  | join left right => left.IsLeftDeep ∧ right.isJoin = false ∧ right.IsLeftDeep

section PatternPair

variable {p q left right : Plan} {c : Condition}

theorem map_scopes_ne_nil (p : Plan) : p.scopes.map (·.2) ≠ [] := by
  intro none
  exact p.scopes_ne_nil (List.map_eq_nil_iff.1 none)

/-- A plan with one leaf and no condition around it is a pattern. -/
theorem eq_pattern_of_scopes (h : p.scopes.map (·.2) = [[]]) : ∃ leaf, p = pattern leaf := by
  cases p with
  | pattern leaf => exact ⟨leaf, rfl⟩
  | filter c input => simp [scopes_filter, List.map_eq_singleton_iff] at h
  | join left right =>
    rw [scopes_join, List.map_append] at h
    rcases List.append_eq_singleton_iff.1 h with ⟨none, _⟩ | ⟨_, none⟩
    · exact absurd none left.map_scopes_ne_nil
    · exact absurd none right.map_scopes_ne_nil

theorem isPatternPair_iff_scopes : p.isPatternPair = true ↔ p.scopes.map (·.2) = [[], []] := by
  constructor
  · intro h
    unfold isPatternPair at h
    split at h
    · rfl
    · cases h
  · intro h
    cases p with
    | pattern leaf => cases h
    | filter c input => simp [scopes_filter, List.map_eq_cons_iff] at h
    | join left right =>
      rw [scopes_join, List.map_append] at h
      rcases List.append_eq_cons_iff.1 h with ⟨none, _⟩ | ⟨rest, first, second⟩
      · exact absurd none left.map_scopes_ne_nil
      · rcases List.append_eq_singleton_iff.1 second.symm with ⟨rfl, only⟩ | ⟨_, none⟩
        · obtain ⟨l, rfl⟩ := eq_pattern_of_scopes first
          obtain ⟨r, rfl⟩ := eq_pattern_of_scopes only
          rfl
        · exact absurd none right.map_scopes_ne_nil

/-- Plans with the same leaves in their scopes are both joins of two patterns, or neither is. -/
theorem isPatternPair_of_perm (h : q.scopes.Perm p.scopes) :
    q.isPatternPair = p.isPatternPair := by
  have conditions := h.map (·.2)
  rw [Bool.eq_iff_iff, isPatternPair_iff_scopes, isPatternPair_iff_scopes]
  constructor
  · intro pair
    rw [pair] at conditions
    exact List.perm_replicate (n := 2).1 conditions.symm
  · intro pair
    rw [pair] at conditions
    exact List.perm_replicate (n := 2).1 conditions

theorem exists_of_isPatternPair (h : p.isPatternPair = true) :
    ∃ l r, p = join (pattern l) (pattern r) := by
  unfold isPatternPair at h
  split at h
  · exact ⟨_, _, rfl⟩
  · cases h

end PatternPair

section Movable

variable {p q : Plan}

/-- A filter over anything but a join of two patterns stays where it is. -/
theorem movable_filter (c : Condition) (h : p.isPatternPair = false) :
    (filter c p).movable = p.movable := by
  rw [movable]
  rintro l r rfl
  cases h

theorem isPushedDown_iff_movable : p.IsPushedDown ↔ p.movable = [] := by
  induction p with
  | pattern leaf => exact iff_of_true trivial rfl
  | filter c input ih =>
    cases pair : input.isPatternPair with
    | true =>
      obtain ⟨l, r, rfl⟩ := exists_of_isPatternPair pair
      exact iff_of_false (fun h => Bool.noConfusion h.1) (List.cons_ne_nil _ _)
    | false => rw [movable_filter c pair, IsPushedDown, ih, and_iff_right pair]
  | join left right ihl ihr => rw [IsPushedDown, movable, ihl, ihr, List.append_eq_nil_iff]

/-- Over the same leaves in their scopes, a filter can be moved in both plans or in neither. -/
theorem movable_filter_of_perm (c : Condition) (same : q.scopes.Perm p.scopes)
    (inner : q.movable.Perm p.movable) : (filter c q).movable.Perm (filter c p).movable := by
  have alike := isPatternPair_of_perm same
  cases pair : p.isPatternPair with
  | false => rwa [movable_filter c pair, movable_filter c (alike.trans pair)]
  | true =>
    obtain ⟨l, r, rfl⟩ := exists_of_isPatternPair pair
    obtain ⟨l', r', rfl⟩ := exists_of_isPatternPair (alike.trans pair)
    have leaves : [l', r'].Perm [l, r] := same.map Prod.fst
    have both : s(l', r') = s(l, r) := by
      rcases List.perm_pair.1 leaves with h | h
      · cases h
        rfl
      · cases h
        exact Sym2.eq_swap
    exact .of_eq (congrArg (fun both => [(c, both)]) both)

theorem movable_foldl (chain : Plan) (ps : List Plan) :
    (ps.foldl join chain).movable = chain.movable ++ ps.flatMap movable := by
  induction ps generalizing chain with
  | nil => exact (List.append_nil _).symm
  | cons p ps ih => rw [List.foldl_cons, ih, movable, List.append_assoc, List.flatMap_cons]

end Movable

section PushDown

theorem pushDownFilters_isPushedDown (p : Plan) : p.pushDownFilters.IsPushedDown := by
  fun_induction pushDownFilters p with
  | case1 leaf => trivial
  | case2 c l r => exact ⟨⟨rfl, trivial⟩, ⟨rfl, trivial⟩⟩
  | case3 c input other ih =>
    have apart : input.isPatternPair = false := by
      unfold isPatternPair
      split
      · exact (other _ _ rfl).elim
      · rfl
    refine ⟨?_, ih⟩
    rw [isPatternPair_of_perm (.of_eq input.scopes_pushDownFilters), apart]
  | case4 left right ihl ihr => exact ⟨ihl, ihr⟩

theorem IsPushedDown.pushDownFilters_eq {p : Plan} (h : p.IsPushedDown) : p.pushDownFilters = p := by
  fun_induction Plan.pushDownFilters p with
  | case1 leaf => rfl
  | case2 c l r => cases h.1
  | case3 c input _ ih => rw [ih h.2]
  | case4 left right ihl ihr => rw [ihl h.1, ihr h.2]

end PushDown

section LeftDeep

variable {p chain : Plan}

theorem joinOnto_of_not_isJoin (h : p.isJoin = false) (chain : Plan) :
    p.joinOnto chain = join chain p.toLeftDeep := by
  cases p with
  | pattern leaf => rw [joinOnto, toLeftDeep]
  | filter c input => rw [joinOnto, toLeftDeep]
  | join left right => cases h

theorem isLeftDeep_toLeftDeep_and_joinOnto (p : Plan) : p.toLeftDeep.IsLeftDeep ∧
    ∀ chain : Plan, chain.IsLeftDeep → (p.joinOnto chain).IsLeftDeep := by
  induction p with
  | pattern leaf =>
    refine ⟨by rw [toLeftDeep]; trivial, fun chain deep => ?_⟩
    rw [joinOnto]
    exact ⟨deep, rfl, trivial⟩
  | filter c input ih =>
    refine ⟨by rw [toLeftDeep]; exact ih.1, fun chain deep => ?_⟩
    rw [joinOnto]
    exact ⟨deep, rfl, ih.1⟩
  | join left right ihl ihr =>
    refine ⟨by rw [toLeftDeep]; exact ihr.2 _ ihl.1, fun chain deep => ?_⟩
    rw [joinOnto]
    exact ihr.2 _ (ihl.2 _ deep)

theorem toLeftDeep_isLeftDeep (p : Plan) : p.toLeftDeep.IsLeftDeep :=
  p.isLeftDeep_toLeftDeep_and_joinOnto.1

theorem IsLeftDeep.toLeftDeep_eq (h : p.IsLeftDeep) : p.toLeftDeep = p := by
  induction p with
  | pattern leaf => rw [Plan.toLeftDeep]
  | filter c input ih => rw [Plan.toLeftDeep, ih h]
  | join left right ihl ihr =>
    rw [Plan.toLeftDeep, joinOnto_of_not_isJoin h.2.1, ihl h.1, ihr h.2.2]

theorem IsLeftDeep.foldl {ps : List Plan} (h : chain.IsLeftDeep)
    (each : ∀ p ∈ ps, p.isJoin = false ∧ p.IsLeftDeep) : (ps.foldl join chain).IsLeftDeep := by
  induction ps generalizing chain with
  | nil => exact h
  | cons p ps ih =>
    obtain ⟨first, rest⟩ := List.forall_mem_cons.1 each
    exact ih ⟨h, first⟩ rest

/-- Turning joins into chains keeps the filters that can be moved. -/
theorem movable_toLeftDeep_and_joinOnto (p : Plan) : p.toLeftDeep.movable.Perm p.movable ∧
    ∀ chain : Plan, (p.joinOnto chain).movable.Perm (chain.movable ++ p.movable) := by
  induction p with
  | pattern leaf =>
    refine ⟨by rw [toLeftDeep], fun chain => ?_⟩
    rw [joinOnto]
    exact .refl _
  | filter c input ih =>
    have deep : (filter c input.toLeftDeep).movable.Perm (filter c input).movable :=
      movable_filter_of_perm c (.of_eq input.scopes_toLeftDeep) ih.1
    refine ⟨by rwa [toLeftDeep], fun chain => ?_⟩
    rw [joinOnto]
    exact deep.append_left _
  | join left right ihl ihr =>
    refine ⟨?_, fun chain => ?_⟩
    · rw [toLeftDeep]
      exact (ihr.2 _).trans (ihl.1.append_right _)
    · rw [joinOnto, movable, ← List.append_assoc]
      exact (ihr.2 _).trans ((ihl.2 _).append_right _)

theorem movable_toLeftDeep (p : Plan) : p.toLeftDeep.movable.Perm p.movable :=
  p.movable_toLeftDeep_and_joinOnto.1

theorem IsPushedDown.toLeftDeep (h : p.IsPushedDown) : p.toLeftDeep.IsPushedDown := by
  rw [isPushedDown_iff_movable] at h ⊢
  exact List.perm_nil.1 (h ▸ p.movable_toLeftDeep)

end LeftDeep

end QuadIndex.Plan
