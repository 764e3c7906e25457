import QuadIndex.Bytes.Word
import QuadIndex.Statistics.Collector

/-!
# Statistics kept in a table

Every number has a key of its own, which begins with the name of what it is: a count with its kind
and its values, a selectivity with its two predicates in order, and the number of all quads. Numbers
are words of 64 bits.
-/

namespace QuadIndex.Index

/-- The beginning of the keys of all counts of a kind. -/
def kindKey (kind : CardinalityKind) : Bytes :=
  Text.utf8 "card" ++ Bytes.componentEnd :: Text.utf8 kind.tag

/-- The key of a count. -/
def cardinalityKey (ix : Index) (kind : CardinalityKind) (values : List Value) :
    Except Error Bytes := do
  if values.length ≠ kind.arity then .error (.encoding (.wrongArity kind values.length))
  else
    let parts ← values.mapM ix.codec.registry.encode
    return kindKey kind ++ parts.flatMap fun part => Bytes.componentEnd :: part

/-- The key of a selectivity. -/
def selectivityKey (a b : Iri) : Except Error Bytes := do
  let (a, b) := orderedPair a b
  let first ← a.encode
  let second ← b.encode
  return Text.utf8 "sel" ++ Bytes.componentEnd :: (first ++ Bytes.componentEnd :: second)

/-- The key of the number of all quads. -/
def sizeKey : Bytes := Text.utf8 "size"

/-- The writes that put down a snapshot. -/
def writesOf (ix : Index) (s : Snapshot) : Except Error (List Mutation) := do
  let cardinalities ← s.cardinalities.mapM fun ((kind, values), n) => do
    return Mutation.put (← ix.cardinalityKey kind values) (Word.encode n)
  let selectivities ← s.selectivities.mapM fun ((a, b), x) => do
    return Mutation.put (← selectivityKey a b) (Word.encode x.toBits)
  return cardinalities ++ selectivities ++ [.put sizeKey (Word.encode s.size)]

/-- The writes that replace the stored statistics by a snapshot. Of several numbers under one key the
last counts. -/
def replacement (ix : Index) (store : Store) (s : Snapshot) : Reading (List Mutation) := do
  let fresh := Table.empty.applyAll (← ix.writesOf s)
  let cursor ← store.scan ix.settings.statisticsTable .full none
  let (items, cursor) := cursor.drain
  let keys := items.mapM fun item => item.map (·.1)
  cursor.close
  return fresh.replacing (← keys)

/-- Replaces the stored statistics by a snapshot, in one write. -/
def replaceStatistics (ix : Index) (store : Store) (s : Snapshot) : Reading Store := do
  store.write ix.settings.statisticsTable (← ix.replacement store s)

/-- The number of stored counts of a kind. -/
def countEntries (ix : Index) (store : Store) (kind : CardinalityKind) : Reading Nat := do
  let lead := kindKey kind ++ [Bytes.componentEnd]
  let cursor ← store.scan ix.settings.statisticsTable (.startingWith lead) none
  let (items, cursor) := cursor.drain
  let keys := items.mapM fun item => item.map (·.1)
  let keys ← keys
  cursor.close
  return keys.length

/-- The word stored under a key. -/
def storedWord? (ix : Index) (store : Store) (key : Bytes) : Reading (Option UInt64) := do
  match ← store.get? ix.settings.statisticsTable key with
  | none => return none
  | some value =>
    match Word.decode? value with
    | some w => return some w
    | none => throw (.invalidKey .invalidStatistic)

/-- The stored statistics as a source. -/
def storedStatistics (ix : Index) (store : Store) : StatisticsSource Reading where
  cardinality kind values := do ix.storedWord? store (← ix.cardinalityKey kind values)
  tableSize := ix.storedWord? store sizeKey
  joinSelectivity a b := do
    return (← ix.storedWord? store (← selectivityKey a b)).map Float.ofBits

/-- Counts all quads and stores the statistics. -/
def refresh (ix : Index) (store : Store) : Reading (Snapshot × Store) := do
  let snapshot ← ix.collect store
  return (snapshot, ← ix.replaceStatistics store snapshot)

end QuadIndex.Index
