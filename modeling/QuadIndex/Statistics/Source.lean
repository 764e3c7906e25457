import QuadIndex.Model.Value
import QuadIndex.Statistics.Entries
import QuadIndex.Statistics.Kind

/-!
# Sources of statistics

A source answers how many quads carry given values, how many there are, and which fraction of the
pairs of quads of two predicates share their subject. Looking that up may read from a store, so a
source answers in a monad of its own; statistics held in memory answer in any.
-/

namespace QuadIndex

/-- Where an estimate finds its numbers. -/
structure StatisticsSource (m : Type → Type) where
  cardinality : CardinalityKind → List Value → m (Option UInt64)
  tableSize : m (Option UInt64)
  joinSelectivity : Iri → Iri → m (Option Float)

/-- Two IRIs, the smaller first. -/
def orderedPair (a b : Iri) : Iri × Iri := if (compare a b).isLE then (a, b) else (b, a)

/-- Counts of quads by the values they carry. -/
abbrev Cardinalities := Entries (CardinalityKind × List Value) UInt64

/-- Statistics held in memory. -/
structure Statistics where
  size : Option UInt64 := none
  cardinalities : Cardinalities := []
  selectivities : Entries (Iri × Iri) Float := []

namespace Statistics

/-- The statistics with a count put in. -/
def setCardinality (s : Statistics) (kind : CardinalityKind) (values : List Value) (n : UInt64) :
    Statistics :=
  { s with cardinalities := s.cardinalities.set (kind, values) n }

/-- The statistics with the selectivity of two predicates put in, in whichever order. -/
def setSelectivity (s : Statistics) (a b : Iri) (x : Float) : Statistics :=
  { s with selectivities := s.selectivities.set (orderedPair a b) x }

/-- The statistics as a source. -/
def source {m : Type → Type} [Monad m] (s : Statistics) : StatisticsSource m where
  cardinality kind values := pure (s.cardinalities.get? (kind, values))
  tableSize := pure s.size
  joinSelectivity a b := pure (s.selectivities.get? (orderedPair a b))

end Statistics

end QuadIndex
