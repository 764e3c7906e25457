import QuadIndex.Error
import QuadIndex.Store.Writes

/-!
# Stores of named tables

A store has a table under every name, at first an empty one. Writes to several tables are gathered
table by table and made together, or none of them is made. A call that writes always leaves a store,
also where it fails. A store may be set to fail, which shows how its users deal with that.
-/

namespace QuadIndex

/-- The failures that a store is set to show: at opening, in the midst and at the end of scans of one
table, and in all writes. -/
structure Faults where
  table : Option String := none
  opening : Bool := false
  after : Option Nat := none
  closing : Bool := false
  writing : Bool := false
  deriving DecidableEq, Repr

/-- Tables by name, and the failures set. -/
structure Store where
  tables : String → Table := fun _ => .empty
  faults : Faults := {}

/-- What a call that writes comes to: its result, and what it leaves. -/
structure Written (σ : Type) where
  result : Except Error Unit
  left : σ

/-- A call that computes first what it is to write, and goes no further where that fails. -/
def Written.after {α σ : Type} (x : Except Error α) (s : σ) (call : α → Written σ) : Written σ :=
  match x with
  | .error e => ⟨.error e, s⟩
  | .ok a => call a

/-- Writes to one table. -/
structure Batch where
  table : String
  mutations : List Mutation
  deriving DecidableEq, Repr

namespace Batch

/-- The batches by increasing name of their tables, with one more, whose writes follow those to the
same table. -/
def gather (groups : List Batch) (b : Batch) : List Batch :=
  match groups with
  | [] => [b]
  | g :: rest =>
    if g.table = b.table then { g with mutations := g.mutations ++ b.mutations } :: rest
    else if b.table < g.table then b :: g :: rest
    else g :: gather rest b

/-- One batch for each table with writes, by increasing name, with all the writes to it in their
order. -/
def grouped (batches : List Batch) : List Batch :=
  (batches.foldl gather []).filter fun g => !g.mutations.isEmpty

end Batch

namespace Store

/-- The store with one table replaced. -/
def setTable (s : Store) (name : String) (t : Table) : Store :=
  { s with tables := fun n => if n = name then t else s.tables n }

/-- Writes to one table, of which the last under each key is made. -/
def write (s : Store) (table : String) (ms : List Mutation) : Written Store :=
  if s.faults.writing then ⟨.error (.backingStore "write failed"), s⟩
  else if ms.isEmpty then ⟨.ok (), s⟩
  else ⟨.ok (), s.setTable table ((s.tables table).applyAll ms)⟩

/-- The store after batches for different tables. The tables are opened first, and each is paired with
its writes, which are made one after another. -/
def commit (s : Store) (groups : List Batch) : Store :=
  let views := groups.map fun g => (g.table, s.tables g.table)
  (views.zip (groups.map (·.mutations))).foldl
    (fun s (view, ms) => s.setTable view.1 (ms.foldl Table.apply view.2)) s

/-- Writes to any number of tables. -/
def writeAll (s : Store) (batches : List Batch) : Written Store :=
  if s.faults.writing then ⟨.error (.backingStore "write failed"), s⟩
  else
    let groups := Batch.grouped batches
    ⟨.ok (), if groups.isEmpty then s else s.commit groups⟩

/-- The number of entries of a table. -/
def size (s : Store) (table : String) : Nat := (s.tables table).size

end Store

end QuadIndex
