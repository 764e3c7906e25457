import Mathlib.Data.Set.Insert
import Mathlib.Tactic.Tauto
import QuadIndex.Proofs.Store.Sequential

/-!
# Tables that hold sets of keys

A table of empty values is a set of keys, and writes of one kind add keys to it or take keys away
(`Holds.putAll`, `Holds.deleteAll`). Batches for tables of different names do not get in each other's
way (`writeAll_of_nodup`).
-/

namespace QuadIndex

namespace Table

/-- The table has exactly the keys of a set, with empty values. -/
def Holds (t : Table) (keys : Set Bytes) : Prop :=
  ∀ key value, t.get? key = some value ↔ value = [] ∧ key ∈ keys

variable {t u : Table} {K : Set Bytes}

theorem empty_holds : empty.Holds ∅ := by
  intro key value
  simp [empty, get?]

theorem Holds.mem_entries (h : t.Holds K) {e : Bytes × Bytes} :
    e ∈ t.entries ↔ e.2 = [] ∧ e.1 ∈ K := by
  obtain ⟨key, value⟩ := e
  rw [← get?_eq_some_iff, h key value]

/-- A set of keys has one table. -/
theorem Holds.unique (h : t.Holds K) (h' : u.Holds K) : t = u := by
  refine ext_get? fun key => Option.ext fun value => ?_
  rw [h key value, h' key value]

theorem Holds.put (h : t.Holds K) (key : Bytes) : (t.put key []).Holds (insert key K) := by
  intro other value
  rw [get?_eq_some_iff, mem_put, ← get?_eq_some_iff, h other value, Set.mem_insert_iff]
  by_cases same : other = key <;> simp [same]

theorem Holds.erase (h : t.Holds K) (key : Bytes) : (t.erase key).Holds (K \ {key}) := by
  intro other value
  rw [get?_eq_some_iff, mem_erase, ← get?_eq_some_iff, h other value]
  simp only [Set.mem_sdiff, Set.mem_singleton_iff]
  tauto

theorem Holds.putAll (h : t.Holds K) (keys : List Bytes) :
    (t.applyAll (keys.map fun key => .put key [])).Holds (K ∪ {key | key ∈ keys}) := by
  rw [applyAll_eq_foldl]
  induction keys generalizing t K with
  | nil => simpa using h
  | cons key keys ih =>
    have same : K ∪ {other | other ∈ key :: keys} = insert key K ∪ {other | other ∈ keys} := by
      ext other
      simp only [Set.mem_union, Set.mem_ofPred_eq, List.mem_cons, Set.mem_insert_iff]
      tauto
    rw [List.map_cons, List.foldl_cons, same]
    exact ih (h.put key)

theorem Holds.deleteAll (h : t.Holds K) (keys : List Bytes) :
    (t.applyAll (keys.map .delete)).Holds (K \ {key | key ∈ keys}) := by
  rw [applyAll_eq_foldl]
  induction keys generalizing t K with
  | nil =>
    have same : K \ {key | key ∈ ([] : List Bytes)} = K := by
      ext other
      simp
    rw [same]
    exact h
  | cons key keys ih =>
    have same : K \ {other | other ∈ key :: keys} = (K \ {key}) \ {other | other ∈ keys} := by
      ext other
      simp only [Set.mem_sdiff, Set.mem_ofPred_eq, List.mem_cons, Set.mem_singleton_iff]
      tauto
    rw [List.map_cons, List.foldl_cons, same]
    exact ih (h.erase key)

end Table

namespace Batch

variable {batches : List Batch} {name : String}

/-- Of batches for different tables, a table has the writes of its own. -/
theorem writesTo_of_nodup (h : (batches.map (·.table)).Nodup) (name : String) :
    writesTo name batches = (batches.find? fun b => b.table = name).elim [] (·.mutations) := by
  induction batches with
  | nil => rfl
  | cons b batches ih =>
    rw [List.map_cons, List.nodup_cons] at h
    rw [writesTo_cons]
    by_cases own : b.table = name
    · subst own
      have others : ∀ other ∈ batches, other.table ≠ b.table := fun other mem eq =>
        h.1 (List.mem_map.2 ⟨other, mem, eq⟩)
      rw [writesTo_singleton_self, writesTo_of_forall_ne others, List.append_nil,
        List.find?_cons_of_pos (by simp), Option.elim_some]
    · rw [writesTo_singleton_of_ne own, List.nil_append, ih h.2,
        List.find?_cons_of_neg (by simpa using own)]

end Batch

namespace Store

/-- Batches for different tables are written, each to its table. -/
theorem writeAll_of_nodup {s : Store} {batches : List Batch} (working : s.faults = {})
    (h : (batches.map (·.table)).Nodup) :
    ∃ s', s.writeAll batches = ⟨.ok (), s'⟩ ∧ s'.faults = {} ∧ ∀ name, s'.tables name =
      ((batches.find? fun b => b.table = name).elim (s.tables name) fun b =>
        (s.tables name).applyAll b.mutations) := by
  refine ⟨s.applyEach (Batch.writes batches), ?_, ?_, fun name => ?_⟩
  · rw [writeAll_eq, working]
    rfl
  · rw [faults_applyEach, working]
  · rw [tables_applyEach_writes, Batch.writesTo_of_nodup h]
    cases batches.find? fun b => b.table = name with
    | none => rfl
    | some b => exact (Table.applyAll_eq_foldl _ _).symm

end Store

end QuadIndex
