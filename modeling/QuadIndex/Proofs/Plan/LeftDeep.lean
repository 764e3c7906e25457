import QuadIndex.Proofs.Plan.Normal

/-!
# Chains of joins

Joins that stand directly in one another form a tree, and what the tree puts together are its
operands: plans that are no joins themselves, but may have further trees under their filters.
Left-deep form joins the rewritten operands of a tree one after another (`joinAll?_toLeftDeep`). So
at every level the trees have the operands that they had, in their order (`toLeftDeep_chains`).
-/

namespace QuadIndex.Plan

/-- The operands of the tree of joins that the plan is, if it is one. -/
def ownTree (p : Plan) : List (List Plan) := if p.isJoin then [p.operands] else []

/-- The operands of each tree of joins that stands under a filter of the plan. -/
def innerTrees : Plan → List (List Plan)
  | pattern _ => []
  | filter _ input => input.ownTree ++ input.innerTrees
  | join left right => left.innerTrees ++ right.innerTrees

/-- The operands of each tree of joins in the plan. Every tree is as large as can be: the one around
it, if there is one, has a filter in between. -/
def joinTrees (p : Plan) : List (List Plan) := p.ownTree ++ p.innerTrees

theorem leaves_eq_scopes (p : Plan) : p.leaves = p.scopes.map (·.1) := by
  induction p with
  | pattern leaf => rfl
  | filter c input ih => rw [leaves, ih, scopes_filter, List.map_map, Function.comp_def]
  | join left right ihl ihr => rw [leaves, ihl, ihr, scopes_join, List.map_append]

theorem leaves_toLeftDeep (p : Plan) : p.toLeftDeep.leaves = p.leaves := by
  rw [leaves_eq_scopes, scopes_toLeftDeep, ← leaves_eq_scopes]

theorem isJoin_toLeftDeep (p : Plan) : p.toLeftDeep.isJoin = p.isJoin := by
  have onto (p chain : Plan) : (p.joinOnto chain).isJoin = true := by
    induction p generalizing chain with
    | pattern leaf => rw [joinOnto]; rfl
    | filter c input => rw [joinOnto]; rfl
    | join left right _ ihr => rw [joinOnto, ihr]
  cases p with
  | pattern leaf => rw [toLeftDeep]
  | filter c input => rw [toLeftDeep]; rfl
  | join left right => rw [toLeftDeep, onto]; rfl

/-- The chain grows by the rewritten operands of the plan, one after another. -/
theorem joinOnto_eq_foldl (p chain : Plan) :
    p.joinOnto chain = (p.operands.map toLeftDeep).foldl join chain := by
  induction p generalizing chain with
  | pattern leaf => rw [joinOnto_of_not_isJoin rfl]; rfl
  | filter c input => rw [joinOnto_of_not_isJoin rfl]; rfl
  | join left right ihl ihr =>
    rw [joinOnto, ihl, ihr, operands, List.map_append, List.foldl_append]

/-- The plan in left-deep form is the join of its rewritten operands in their order. -/
theorem joinAll?_toLeftDeep (p : Plan) :
    joinAll? (p.operands.map toLeftDeep) = some p.toLeftDeep := by
  induction p with
  | pattern leaf => rfl
  | filter c input => rfl
  | join left right ihl _ =>
    rw [toLeftDeep, joinOnto_eq_foldl, operands, List.map_append]
    cases first : left.operands.map toLeftDeep with
    | nil => rw [first] at ihl; cases ihl
    | cons q qs =>
      rw [first] at ihl
      rw [← Option.some.inj ihl, List.cons_append, joinAll?, List.foldl_append]

theorem operands_joinOnto (p chain : Plan) :
    (p.joinOnto chain).operands = chain.operands ++ p.operands.map toLeftDeep := by
  induction p generalizing chain with
  | pattern leaf => rw [joinOnto_of_not_isJoin rfl, toLeftDeep]; rfl
  | filter c input => rw [joinOnto_of_not_isJoin rfl, toLeftDeep]; rfl
  | join left right ihl ihr =>
    rw [joinOnto, ihr, ihl, operands, List.map_append, List.append_assoc]

theorem operands_toLeftDeep (p : Plan) : p.toLeftDeep.operands = p.operands.map toLeftDeep := by
  induction p with
  | pattern leaf => rfl
  | filter c input => rfl
  | join left right ihl _ =>
    rw [toLeftDeep, operands_joinOnto, ihl, operands, List.map_append]

theorem ownTree_toLeftDeep (p : Plan) :
    p.toLeftDeep.ownTree = p.ownTree.map (·.map toLeftDeep) := by
  rw [ownTree, ownTree, isJoin_toLeftDeep, operands_toLeftDeep]
  cases p.isJoin <;> rfl

/-- The trees under the filters of the plan stand behind those of the chain that it is joined onto. -/
theorem innerTrees_toLeftDeep_and_joinOnto (p : Plan) :
    p.toLeftDeep.innerTrees = p.innerTrees.map (·.map toLeftDeep) ∧
    ∀ chain : Plan, (p.joinOnto chain).innerTrees =
      chain.innerTrees ++ p.innerTrees.map (·.map toLeftDeep) := by
  induction p with
  | pattern leaf =>
    refine ⟨rfl, fun chain => ?_⟩
    rw [joinOnto]
    rfl
  | filter c input ih =>
    have deep : (filter c input.toLeftDeep).innerTrees =
        (filter c input).innerTrees.map (·.map toLeftDeep) := by
      rw [innerTrees, ownTree_toLeftDeep, ih.1, innerTrees, List.map_append]
    refine ⟨by rw [toLeftDeep, deep], fun chain => ?_⟩
    rw [joinOnto, ← deep]
    rfl
  | join left right ihl ihr =>
    refine ⟨?_, fun chain => ?_⟩
    · rw [toLeftDeep, ihr.2, ihl.1, innerTrees, List.map_append]
    · rw [joinOnto, ihr.2, ihl.2, innerTrees, List.map_append, List.append_assoc]

theorem joinTrees_toLeftDeep (p : Plan) :
    p.toLeftDeep.joinTrees = p.joinTrees.map (·.map toLeftDeep) := by
  rw [joinTrees, ownTree_toLeftDeep, p.innerTrees_toLeftDeep_and_joinOnto.1, joinTrees,
    List.map_append]

/-- Every plan gets a left-deep form: at no level has a join of it a join on its right, it reads the
same patterns in the same order, and every tree of joins in it, at any level, is one of the plan with
the same operands in the same order, each in its own left-deep form. The plan is its own left-deep
form exactly if it has that shape. -/
theorem toLeftDeep_chains (p : Plan) :
    p.toLeftDeep.IsLeftDeep ∧ p.toLeftDeep.leaves = p.leaves ∧
    joinAll? (p.operands.map toLeftDeep) = some p.toLeftDeep ∧
    p.toLeftDeep.joinTrees = p.joinTrees.map (·.map toLeftDeep) ∧
    (p.toLeftDeep = p ↔ p.IsLeftDeep) := by
  refine ⟨p.toLeftDeep_isLeftDeep, p.leaves_toLeftDeep, p.joinAll?_toLeftDeep,
    p.joinTrees_toLeftDeep, fun same => ?_, fun deep => deep.toLeftDeep_eq⟩
  rw [← same]
  exact p.toLeftDeep_isLeftDeep

end QuadIndex.Plan
