import QuadIndex.Model.Pattern

/-!
# Query plans

A plan reads patterns, filters what a plan yields and joins two plans on their subject. The operands
of a plan are what its uppermost joins put together, the leaves all the patterns it reads.
-/

namespace QuadIndex

/-- A comparison of a variable with a value. -/
inductive Comparison where
  | eq
  | ne
  | lt
  | le
  | gt
  | ge
  deriving DecidableEq, Repr

/-- A condition on the variables of a plan. -/
inductive Condition where
  | compare (operator : Comparison) (name : String) (value : Value)
  | regex (name : String) (expression : String)
  | all (conditions : List Condition)
  | any (conditions : List Condition)
  deriving Repr

/-- A plan of a query. -/
inductive Plan where
  | pattern (p : Pattern)
  | filter (condition : Condition) (input : Plan)
  | join (left right : Plan)
  deriving Repr

namespace Plan

/-- The plan is a join. -/
def isJoin : Plan → Bool
  | join _ _ => true
  | _ => false

/-- The join of plans in their order, each one with all before it; none of no plans. -/
def joinAll? : List Plan → Option Plan
  | [] => none
  | p :: ps => some (ps.foldl join p)

/-- The patterns that the plan reads, from left to right. -/
def leaves : Plan → List Pattern
  | pattern p => [p]
  | filter _ input => input.leaves
  | join left right => left.leaves ++ right.leaves

/-- The plans that the uppermost joins put together, from left to right. -/
def operands : Plan → List Plan
  | join left right => left.operands ++ right.operands
  | p => [p]

/-- The constant predicates of the leaves, from left to right. -/
def predicates (p : Plan) : List Iri := p.leaves.filterMap fun leaf => leaf.predicate.constant?

end Plan

end QuadIndex
