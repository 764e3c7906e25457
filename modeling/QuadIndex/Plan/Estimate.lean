import QuadIndex.Plan.Basic
import QuadIndex.Statistics.Source

/-!
# Estimates of the size of results

A pattern is estimated by the count for its constants, or by the number of all quads where there is
no such count. A filter keeps a fixed fraction, and a join the fraction of pairs that its predicates
are known to share. Numbers are binary64 and are combined from left to right.
-/

namespace QuadIndex

/-- The float of the given bits. -/
abbrev float64 (bits : UInt64) : Float := Float.ofBits bits

namespace Estimate

/-- Stands for the size of a pattern without constants: the largest number. -/
def unbounded : Float := float64 0x7fefffffffffffff

/-- Stands for the size of a pattern without a count: the number below the largest. -/
def unknown : Float := float64 0x7feffffffffffffe

/-- Infinity. -/
def infinity : Float := float64 0x7ff0000000000000

/-- The selectivity of joins about which nothing is known. -/
def defaultSelectivity : Float := 1.0

/-- The smaller of two numbers, the first if they are equal; what is no number is passed over. -/
def smaller (a b : Float) : Float := if a.isNaN || b < a then b else a

/-- The kind and the values of the count for the constants of a pattern, its context aside. Where
all three positions are constants the object is left out. -/
def countKey? (p : Pattern) : Option (CardinalityKind × List Value) :=
  match p.subject.constant?, p.predicate.constant?, p.object.constant? with
  | some s, some p, _ => some (.subjectPredicate, [.iri s, .iri p])
  | some s, none, some o => some (.subjectObject, [.iri s, o])
  | some s, none, none => some (.subject, [.iri s])
  | none, some p, some o => some (.predicateObject, [.iri p, o])
  | none, some p, none => some (.predicate, [.iri p])
  | none, none, some o => some (.object, [o])
  | none, none, none => none

mutual

/-- The fraction that a condition keeps: of all conditions the product, and of any the sum, but at
most everything. -/
def fraction : Condition → Float
  | .compare .eq _ _ => 0.1
  | .compare .ne _ _ => 0.9
  | .compare .lt _ _ | .compare .le _ _ | .compare .gt _ _ | .compare .ge _ _ => 0.3
  | .regex _ expression => if expression.toList.head? = some '^' then 0.1 else 0.5
  | .all conditions => product 1.0 conditions
  | .any conditions => smaller (sum (float64 0x8000000000000000) conditions) 1.0

/-- A number times the fractions of conditions. -/
def product (x : Float) : List Condition → Float
  | [] => x
  | c :: cs => product (x * fraction c) cs

/-- A number plus the fractions of conditions. -/
def sum (x : Float) : List Condition → Float
  | [] => x
  | c :: cs => sum (x + fraction c) cs

end

end Estimate

namespace StatisticsSource

variable {m : Type → Type} [Monad m] (source : StatisticsSource m)

/-- The number of all quads, zero where it is not known. -/
def size : m Float := do
  return ((← source.tableSize).getD 0).toFloat

/-- The count for the constants of a pattern, or what stands for there being none. -/
def count (p : Pattern) : m Float :=
  match Estimate.countKey? p with
  | none => pure Estimate.unbounded
  | some (kind, values) => do
    match ← source.cardinality kind values with
    | some n => return n.toFloat
    | none => return Estimate.unknown

/-- The estimated number of quads that match a pattern. -/
def patternSize (p : Pattern) : m Float := do
  let n ← source.count p
  if n == Estimate.unbounded || n == Estimate.unknown then source.size else return n

/-- The smallest selectivity that is known of any predicate of one plan with any of another. -/
def selectivity (left right : Plan) : m Float := do
  let pairs := left.predicates.flatMap fun a => right.predicates.map fun b => (a, b)
  let best ← pairs.foldlM
    (fun (best : Option Float) (a, b) => do
      match ← source.joinSelectivity a b with
      | none => return best
      | some x => return some (match best with
        | none => x
        | some y => Estimate.smaller y x))
    none
  return best.getD Estimate.defaultSelectivity

/-- The estimated number of rows of a plan. -/
def planSize : Plan → m Float
  | .pattern p => source.patternSize p
  | .filter condition input => do
    let n ← planSize input
    return n * Estimate.fraction condition
  | .join left right => do
    let l ← planSize left
    let r ← planSize right
    let s ← source.selectivity left right
    return l + l * r * s

end StatisticsSource

end QuadIndex
