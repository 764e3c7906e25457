/-!
# Kinds of cardinalities

A cardinality counts the quads that carry given values in one or two positions.
-/

namespace QuadIndex

/-- The positions that a cardinality fixes. -/
inductive CardinalityKind where
  | subject
  | predicate
  | object
  | subjectPredicate
  | predicateObject
  | subjectObject
  deriving DecidableEq, Repr, Ord

namespace CardinalityKind

/-- Every kind, in the order of the type. -/
def all : List CardinalityKind :=
  [subject, predicate, object, subjectPredicate, predicateObject, subjectObject]

/-- The name of the kind. -/
def name : CardinalityKind → String
  | subject => "Subject"
  | predicate => "Predicate"
  | object => "Object"
  | subjectPredicate => "SubjectPredicate"
  | predicateObject => "PredicateObject"
  | subjectObject => "SubjectObject"

/-- The short name of the kind in stored keys. -/
def tag : CardinalityKind → String
  | subject => "s"
  | predicate => "p"
  | object => "o"
  | subjectPredicate => "sp"
  | predicateObject => "po"
  | subjectObject => "so"

/-- How many values the kind takes. -/
def arity : CardinalityKind → Nat
  | subject | predicate | object => 1
  | subjectPredicate | predicateObject | subjectObject => 2

end CardinalityKind

end QuadIndex
