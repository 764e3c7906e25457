import Mathlib.Data.Set.Defs
import QuadIndex.Proofs.Store.Sequential
import QuadIndex.Store.Cursor

/-!
# What writes leave alone, and what scans look at

Writes change the tables that they are for and nothing else (`left_writeAll_frame`), and what they
leave in a table depends on that table alone (`left_writeAll_congr`). A scan looks at one table and at
the failures that the store is set to show (`scan_congr`).
-/

namespace QuadIndex

namespace Store

variable {N : Set String} {s t u : Store} {name : String}

/-- The stores are set to fail alike, and have the same tables under the names. -/
structure AgreeOn (N : Set String) (s t : Store) : Prop where
  faults : s.faults = t.faults
  tables {name : String} : name ∈ N → s.tables name = t.tables name

theorem AgreeOn.refl (s : Store) : s.AgreeOn N s := ⟨rfl, fun _ => rfl⟩

theorem AgreeOn.trans (h : s.AgreeOn N t) (h' : t.AgreeOn N u) : s.AgreeOn N u :=
  ⟨h.faults.trans h'.faults, fun mem => (h.tables mem).trans (h'.tables mem)⟩

/-- Writes change the tables that they are for and nothing else. -/
theorem left_writeAll_frame {batches : List Batch} (others : ∀ b ∈ batches, b.table ∉ N)
    (s : Store) : (s.writeAll batches).left.AgreeOn N s := by
  rw [writeAll_eq]
  split
  · exact .refl s
  · refine ⟨faults_applyEach s _, fun {name} mem => ?_⟩
    have unnamed : ∀ b ∈ batches, b.table ≠ name := fun b own same => others b own (same ▸ mem)
    rw [tables_applyEach_writes, Batch.writesTo_of_forall_ne unnamed]
    rfl

/-- What writes leave in a table depends on that table alone. -/
theorem left_writeAll_congr (h : s.AgreeOn N t) (batches : List Batch) :
    (s.writeAll batches).left.AgreeOn N (t.writeAll batches).left := by
  rw [writeAll_eq, writeAll_eq, h.faults]
  split
  · exact h
  · refine ⟨?_, fun {name} mem => ?_⟩
    · exact (faults_applyEach s _).trans (h.faults.trans (faults_applyEach t _).symm)
    · rw [tables_applyEach_writes, tables_applyEach_writes, h.tables mem]

/-- A scan looks at its table and at the failures set. -/
theorem scan_congr (faults : s.faults = t.faults) (tables : s.tables name = t.tables name)
    (range : ByteRange) (filter : Option KeyExpression) (known : Regex.Properties) :
    s.scan name range filter known = t.scan name range filter known := by
  unfold scan
  rw [faults, tables]

end Store

end QuadIndex
