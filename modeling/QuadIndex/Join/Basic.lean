import QuadIndex.Join.Iterative
import QuadIndex.Plan.Optimize
import QuadIndex.Statistics.Stored

/-!
# Joins on subjects

Both ways to join give the same subjects; probing may give one of them again. Which way is taken for
a plan depends on the estimated number of subjects that counting would have to hold.
-/

namespace QuadIndex

/-- A way to join. -/
inductive JoinAlgorithm where
  | hash
  | iterative
  deriving DecidableEq, Repr

/-- The way to join that suits the estimated size of the first pattern: counting holds up to a
hundred thousand subjects. -/
def JoinAlgorithm.select (size : Float) : JoinAlgorithm :=
  if size ≤ 100000.0 then .hash else .iterative

/-- The subjects of a join still to come. -/
inductive JoinResults where
  | collected (subjects : Collected Iri)
  | streamed (subjects : SubjectStream)

namespace JoinResults

/-- The next subject or error, and the results after it. -/
def next : JoinResults → Reading (Option (Except Error Iri) × JoinResults)
  | collected c =>
    let (item, c) := c.next
    return (item.map .ok, collected c)
  | streamed s => do
    let (item, s) ← s.next
    return (item, streamed s)

/-- Closes the results, and gives them as they are after that. -/
def close : JoinResults → Reading Unit
  | collected _ => return
  | streamed s => s.close

/-- The results once closed. -/
def closed : JoinResults → JoinResults
  | collected c => collected c.close
  | streamed s => streamed s.ended

/-- A bound on the results still to come. -/
def fuel : JoinResults → Nat
  | collected c => c.size
  | streamed s => (s.outer.map QuadScan.fuel).getD 0 + 1

/-- All results up to the first end, at most the given number, and the results after them. -/
def take : Nat → JoinResults → Reading (List (Except Error Iri) × JoinResults)
  | 0, r => return ([], r)
  | limit + 1, r => do
    match ← r.next with
    | (none, r) => return ([], r)
    | (some item, r) => do
      let (items, r) ← take limit r
      return (item :: items, r)

/-- All results up to the first end, and the results after them. -/
def drain (r : JoinResults) : Reading (List (Except Error Iri) × JoinResults) :=
  take (r.fuel + 1) r

end JoinResults

namespace Index

/-- Joins patterns in the given way. -/
def join (ix : Index) (store : Store) (algorithm : JoinAlgorithm) (ps : List JoinPattern) :
    Reading JoinResults :=
  match algorithm with
  | .hash => do return .collected (.ofList (← ix.hashJoin store ps))
  | .iterative => do return .streamed (← ix.iterativeJoin store ps)

/-- What becomes of a plan: its optimized form, the estimated size of that, the way to join that the
size of its first pattern suggests, and the subjects that have every constant predicate of the
plan. -/
structure Execution where
  plan : Plan
  cost : Float
  algorithm : JoinAlgorithm
  results : JoinResults

/-- Optimizes a plan with the stored statistics and joins its predicates. The size of the whole plan
is estimated only once the join has begun, so a join that cannot begin reads no statistics for it. -/
def execute (ix : Index) (store : Store) (p : Plan) : Reading Execution := do
  let source := ix.storedStatistics store
  let plan ← p.optimize source.planSize
  let first ← match plan.leaves with
    | [] => pure 0
    | leaf :: _ => source.patternSize leaf
  let algorithm := JoinAlgorithm.select first
  let results ← ix.join store algorithm (plan.predicates.map fun i => { predicate := i })
  let cost ← source.planSize plan
  return ⟨plan, cost, algorithm, results⟩

end Index

end QuadIndex
