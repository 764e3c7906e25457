import QuadIndex.Plan.Estimate

/-!
# Optimizing plans

Filters over a join of two patterns are moved to the patterns, every tree of joins becomes a chain
that takes its operands one by one, and these are put into the order that a greedy search finds
cheapest. The cost of a plan is a parameter of that search.
-/

namespace QuadIndex.Plan

/-- The plan with every filter over a join of two patterns moved to both of them. -/
def pushDownFilters : Plan → Plan
  | pattern p => pattern p
  | filter c (join (pattern l) (pattern r)) => join (filter c (pattern l)) (filter c (pattern r))
  | filter c input => filter c input.pushDownFilters
  | join left right => join left.pushDownFilters right.pushDownFilters

mutual

/-- The plan with the operands of every tree of joins joined one after another, in their order. -/
def toLeftDeep : Plan → Plan
  | pattern p => pattern p
  | filter c input => filter c input.toLeftDeep
  | join left right => right.joinOnto left.toLeftDeep

/-- The operands of the plan joined one after another onto a chain. -/
def joinOnto : Plan → Plan → Plan
  | pattern p, chain => join chain (pattern p)
  | filter c input, chain => join chain (filter c input.toLeftDeep)
  | join left right, chain => right.joinOnto (left.joinOnto chain)

end

section Order

variable {m : Type → Type} [Monad m] (cost : Plan → m Float)

/-- The label of the first of the cheapest plans, or the given one if no plan costs less than
infinity. -/
def cheapest {κ : Type} (otherwise : κ) (candidates : List (κ × Plan)) : m κ := do
  let best ← candidates.foldlM
    (fun (best : Float × κ) (label, p) => do
      let c ← cost p
      return if c < best.1 then (c, label) else best)
    (Estimate.infinity, otherwise)
  return best.2

/-- The joins of two of the plans with their places: for each pair of places, by the first and then
by the second, both ways round. -/
def pairJoins (ps : List Plan) : List ((Nat × Nat) × Plan) :=
  ps.zipIdx.flatMap fun (l, i) =>
    (ps.zipIdx.drop (i + 1)).flatMap fun (r, j) => [((i, j), join l r), ((j, i), join r l)]

/-- The chain with all plans joined onto it, each time the one that makes the cheapest join. -/
def grow (chain : Plan) (ps : List Plan) : m Plan :=
  if ps.isEmpty then pure chain
  else do
    let i ← cheapest cost 0 (ps.zipIdx.map fun (p, i) => (i, join chain p))
    if h : i < ps.length then grow (join chain ps[i]) (ps.eraseIdx i) else return chain
termination_by ps.length
decreasing_by rw [List.length_eraseIdx_of_lt h]; omega

/-- The chain of the plans that begins with the cheapest join of two of them and grows by the
cheapest joins; none of fewer than two. -/
def greedyOrder? (ps : List Plan) : m (Option Plan) := do
  let (i, j) ← cheapest cost (0, 1) (pairJoins ps)
  match ps[i]?, ps[j]? with
  | some l, some r => some <$> grow cost (join l r) ((ps.eraseIdx (max i j)).eraseIdx (min i j))
  | _, _ => return none

mutual

/-- The plan with the operands of every tree of joins in greedy order, the inner trees first. -/
def reorderJoins : Plan → m Plan
  | pattern p => pure (pattern p)
  | filter c input => do return filter c (← reorderJoins input)
  | join left right => do
    let l ← reorderedOperands left
    let r ← reorderedOperands right
    return (← greedyOrder? cost (l ++ r)).getD (join left right)

/-- The operands of the plan, each with its own joins reordered. -/
def reorderedOperands : Plan → m (List Plan)
  | pattern p => pure [pattern p]
  | filter c input => do return [filter c (← reorderJoins input)]
  | join left right => do return (← reorderedOperands left) ++ (← reorderedOperands right)

end

/-- The plan after all three steps, when debug messages are off. With them on, the new plan's own
cost is asked for once more, to be written to the log, and that request can fail too. -/
def optimize (p : Plan) : m Plan := reorderJoins cost p.pushDownFilters.toLeftDeep

end Order

end QuadIndex.Plan
