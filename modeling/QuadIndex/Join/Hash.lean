import QuadIndex.Query.Scan
import QuadIndex.Statistics.Entries
import QuadIndex.Store.Collected

/-!
# Joins by counting

The subjects that match every pattern, found in rounds, one for each pattern. A round counts on each
subject that it finds and that the round before left; subjects without a count of this round are
dropped. Nothing more is read once no subject is left.
-/

namespace QuadIndex

/-- What a subject must have: a predicate, and an object if one is given. -/
structure JoinPattern where
  predicate : Iri
  object : Option Value := none
  deriving DecidableEq, Repr

/-- The pattern of all quads that a join pattern finds, or of those of one subject. -/
def JoinPattern.toPattern (p : JoinPattern) (subject : Option Iri := none) : Pattern where
  subject := (subject.map Term.constant).getD .unbound
  predicate := .constant p.predicate
  object := (p.object.map Term.constant).getD .unbound

/-- The pattern of a predicate with any object. -/
def JoinPattern.ofPredicate (predicate : Iri) : JoinPattern := { predicate }

/-- The pattern of a predicate with an object. -/
def JoinPattern.ofPair (pair : Iri × Value) : JoinPattern := ⟨pair.1, some pair.2⟩

namespace HashJoin

/-- Subjects with the last round that found them. -/
abbrev Rounds := Entries Iri Nat

/-- The subjects after a round has found one. The first round takes all, a later one only counts
those of the round before. -/
def count (round : Nat) (table : Rounds) (subject : Iri) : Rounds :=
  match table.get? subject with
  | none => if round = 0 then table.set subject 0 else table
  | some last => if last + 1 = round then table.set subject round else table

/-- The subjects that the round has found. -/
def survivors (round : Nat) (table : Rounds) : Rounds := table.filter fun e => e.2 = round

/-- The subjects after a round over the items of a scan. -/
def countItems (round : Nat) (table : Rounds) (items : List (Except Error Quad)) :
    Except Error Rounds :=
  items.foldlM (fun table item => item.map fun q => count round table q.subject) table

/-- The subjects after the rounds of all patterns, from the given round on. -/
def rounds (ix : Index) (store : Store) (round : Nat) (table : Rounds) :
    List JoinPattern → Reading Rounds
  | [] => return table
  | p :: ps => do
    let scan ← ix.query store p.toPattern
    let (items, scan) := scan.drain
    let counted := countItems round table items
    let closed ← scan.close.attempt
    closeAll [counted.map fun _ => (), closed]
    let table := survivors round (← counted)
    if table.isEmpty then return table else rounds ix store (round + 1) table ps

end HashJoin

/-- The subjects that match every pattern, each of them once. -/
def Index.hashJoin (ix : Index) (store : Store) (ps : List JoinPattern) : Reading (List Iri) := do
  return (← HashJoin.rounds ix store 0 [] ps).map (·.1)

/-- The subjects that have every predicate, as fragments of quads. -/
def Index.hashJoinPredicates (ix : Index) (store : Store) (predicates : List Iri) :
    Reading (List Fragment) := do
  return (← ix.hashJoin store (predicates.map .ofPredicate)).map Fragment.ofSubject

/-- The subjects that have every predicate with the object that stands with it. -/
def Index.hashJoinPairs (ix : Index) (store : Store) (pairs : List (Iri × Value)) :
    Reading (List Iri) :=
  ix.hashJoin store (pairs.map .ofPair)

end QuadIndex
