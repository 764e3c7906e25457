import QuadIndex.Path.Access
import QuadIndex.Settings
import QuadIndex.Store.Basic

/-!
# The index and its write path

An index keeps every quad in three tables of a store, one for each layout. All quads of a call are
encoded before any of them is written, and the tables are written together.
-/

namespace QuadIndex

/-- How quads are encoded, and what the tables are called and look like. -/
structure Index where
  codec : Codec := {}
  settings : Settings := Settings.ofTemporary

namespace Index

/-- Fingerprints lead the rows of the index. -/
def hashed (ix : Index) : Bool := ix.settings.hashed

/-- The name of the table of a layout. -/
def table (ix : Index) (l : Layout) : String := ix.settings.table l

/-- The form of the rows of a layout. -/
def form (ix : Index) (l : Layout) : RowForm := ⟨l, ix.hashed⟩

/-- The writes that a kind of change to quads makes to the tables. -/
def batches (ix : Index) (change : Bytes → Mutation) (quads : List Quad) :
    Except Error (List Batch) := do
  let cells ← quads.mapM fun q => ix.codec.cells ix.hashed q
  return Layout.all.map fun l =>
    ⟨ix.table l, cells.flatMap fun ofLayouts =>
      (ofLayouts.filter fun c => c.1 = l).map fun c => change c.2.key⟩

/-- Makes a kind of change to quads, all of which are encoded first. -/
def write (ix : Index) (store : Store) (change : Bytes → Mutation) (quads : List Quad) :
    Written Store :=
  .after (ix.batches change quads) store store.writeAll

/-- Adds quads. Quads that are there already stay. -/
def add (ix : Index) (store : Store) (quads : List Quad) : Written Store :=
  ix.write store (fun key => .put key []) quads

/-- Removes quads. Quads that are not there are passed over. -/
def remove (ix : Index) (store : Store) (quads : List Quad) : Written Store :=
  ix.write store .delete quads

/-- The index with its tables and its mode. -/
def inspect (ix : Index) : String :=
  "QueryEngine \x7b tables: [" ++
    ", ".intercalate (Layout.all.map fun l => Text.quoted (ix.table l)) ++
    "], hashed: " ++ toString ix.hashed ++ " \x7d"

end Index

end QuadIndex
