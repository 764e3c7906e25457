import QuadIndex.Query.Scan
import QuadIndex.Statistics.Source

/-!
# Collecting statistics

One pass over all quads in the order of their subjects. The quads of a subject come together, so how
often a subject has two predicates is known, and can be added up, as soon as the subject changes.
-/

namespace QuadIndex

/-- All statistics of a store. The pairs of predicates are ordered. -/
structure Snapshot where
  size : UInt64 := 0
  cardinalities : Cardinalities := []
  selectivities : Entries (Iri × Iri) Float := []

/-- What has been counted so far: the snapshot but for its selectivities, the number of pairs of
quads that share their subject for each pair of predicates, and the predicates of the last subject
with their numbers of quads. -/
structure Tally where
  size : UInt64 := 0
  cardinalities : Cardinalities := []
  products : Entries (Iri × Iri) UInt64 := []
  subject : Option Iri := none
  predicates : Entries Iri UInt64 := []

namespace Tally

/-- All pairs of an element and one that comes later. -/
def pairs {α : Type} : List α → List (α × α)
  | [] => []
  | a :: as => as.map (fun b => (a, b)) ++ pairs as

/-- The tally with the pairs of predicates of the last subject added up. -/
def fold (t : Tally) : Tally :=
  { t with
    products := (pairs t.predicates).foldl
      (fun ps (a, b) => ps.add (orderedPair a.1 b.1) (a.2 * b.2)) t.products
    predicates := [] }

/-- The tally with the last subject and its pairs settled if another one comes. -/
def turn (t : Tally) (subject : Iri) : Tally :=
  if t.subject = some subject then t else { t.fold with subject := some subject }

/-- The values that a quad has for each kind of cardinality. -/
def keys (q : Quad) : List (CardinalityKind × List Value) :=
  let s := Value.iri q.subject
  let p := Value.iri q.predicate
  [(.subject, [s]), (.predicate, [p]), (.object, [q.object]), (.subjectPredicate, [s, p]),
    (.predicateObject, [p, q.object]), (.subjectObject, [s, q.object])]

/-- The tally with one more quad. -/
def add (t : Tally) (q : Quad) : Tally :=
  let t := t.turn q.subject
  { t with
    size := t.size + 1
    cardinalities := (keys q).foldl (fun cs key => cs.add key 1) t.cardinalities
    predicates := t.predicates.add q.predicate 1 }

/-- The fraction that the given number of pairs is of all pairs of quads of two predicates. -/
def selectivity (product left right : UInt64) : Float :=
  product.toFloat / (left.toFloat * right.toFloat)

/-- The snapshot of all quads counted. -/
def finish (t : Tally) : Snapshot :=
  let t := t.fold
  { size := t.size
    cardinalities := t.cardinalities
    selectivities := t.products.filterMap fun ((a, b), product) => do
      let left ← t.cardinalities.get? (.predicate, [.iri a])
      let right ← t.cardinalities.get? (.predicate, [.iri b])
      return ((a, b), selectivity product left right) }

end Tally

/-- Counts all quads of the store. -/
def Index.collect (ix : Index) (store : Store) : Reading Snapshot := do
  let scan ← ix.query store {}
  let (items, scan) := scan.drain
  let tally := items.foldlM (fun (t : Tally) item => item.map t.add) {}
  scan.close
  return (← tally).finish

end QuadIndex
