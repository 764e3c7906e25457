import QuadIndex.Join.Hash

/-!
# Joins by probing

The subjects that match the first pattern are taken one by one as they are read, and for each of them
the other patterns are probed until one fails. Of a subject that comes several times in a row only
the first is taken. The first failure ends the results.
-/

namespace QuadIndex

/-- The subjects of a join still to come: the scan of the first pattern, which is gone once it has
ended, failed or been closed, the other patterns, and the subject taken last. -/
structure SubjectStream where
  index : Index
  store : Store
  outer : Option QuadScan
  probes : List JoinPattern
  last : Option Iri := none

namespace SubjectStream

/-- Every pattern has a quad of the subject. -/
def matchesAll (ix : Index) (store : Store) (subject : Iri) : List JoinPattern → Reading Bool
  | [] => return true
  | p :: ps => do
    if ← ix.contains store (p.toPattern (some subject)) then matchesAll ix store subject ps
    else return false

/-- The stream once its scan is gone. -/
def ended (s : SubjectStream) : SubjectStream := { s with outer := none }

/-- The next subject or error of the stream whose first scan is `outer`, and the stream after it. -/
def advance (s : SubjectStream) (outer : QuadScan) (last : Option Iri) :
    Reading (Option (Except Error Iri) × SubjectStream) :=
  match _h : outer.next with
  | (none, outer') => do
    match ← outer'.close.attempt with
    | .ok () => return (none, s.ended)
    | .error e => return (some (.error e), s.ended)
  | (some (.error e), outer') => do
    let _ ← outer'.close.attempt
    return (some (.error e), s.ended)
  | (some (.ok q), outer') =>
    if last = some q.subject then s.advance outer' last
    else do
      match ← (matchesAll s.index s.store q.subject s.probes).attempt with
      | .ok true =>
        return (some (.ok q.subject), { s with outer := some outer', last := some q.subject })
      | .ok false => s.advance outer' (some q.subject)
      | .error e => do
        let _ ← outer'.close.attempt
        return (some (.error e), s.ended)
termination_by outer.fuel
decreasing_by all_goals exact QuadScan.fuel_next_lt _h

/-- The next subject or error, and the stream after it. -/
def next (s : SubjectStream) : Reading (Option (Except Error Iri) × SubjectStream) :=
  match s.outer with
  | none => return (none, s)
  | some outer => s.advance outer s.last

/-- Closes the stream. Closing it again does nothing. -/
def close (s : SubjectStream) : Reading Unit :=
  match s.outer with
  | none => return
  | some outer => outer.close

end SubjectStream

/-- Opens the stream of the subjects that match every pattern. Of no patterns it is empty. -/
def Index.iterativeJoin (ix : Index) (store : Store) (ps : List JoinPattern) :
    Reading SubjectStream :=
  match ps with
  | [] => return ⟨ix, store, none, [], none⟩
  | p :: probes => do
    let outer ← ix.query store p.toPattern
    return ⟨ix, store, some outer, probes, none⟩

end QuadIndex
