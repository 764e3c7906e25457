import QuadIndex.Model.Value

/-!
# Quads and fragments of quads

A quad states a predicate of a subject with an object, in a named graph or in the default graph.
-/

namespace QuadIndex

/-- A statement. Without a context it stands in the default graph. -/
structure Quad where
  subject : Iri
  predicate : Iri
  object : Value
  context : Option Iri := none
  deriving DecidableEq, Ord, Repr, Inhabited

/-- A quad with any position left open. -/
structure Fragment where
  subject : Option Iri := none
  predicate : Option Iri := none
  object : Option Value := none
  context : Option Iri := none
  deriving DecidableEq, Ord, Repr, Inhabited

namespace Quad

/-- The quad as a fragment with every position filled, but for the context in the default graph. -/
def toFragment (q : Quad) : Fragment :=
  ⟨some q.subject, some q.predicate, some q.object, q.context⟩

/-- The quad with its parts named. -/
def inspect (q : Quad) : String :=
  let context := match q.context with
    | none => "None"
    | some g => "Some(" ++ g.bracketed ++ ")"
  "Quad \x7b subject: " ++ q.subject.bracketed ++ ", predicate: " ++ q.predicate.bracketed ++
    ", object: " ++ q.object.inspect ++ ", context: " ++ context ++ " \x7d"

end Quad

/-- The fragment with only a subject. -/
def Fragment.ofSubject (s : Iri) : Fragment := { subject := some s }

end QuadIndex
