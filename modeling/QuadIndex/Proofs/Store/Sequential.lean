import QuadIndex.Store.Basic

/-!
# Writes made together

Writes to several tables are gathered table by table. Each batch that is gathered puts its writes after
those to the same table and leaves the others alone (`writesTo_gather`), so in the end each table has
its writes of all batches in their order (`writesTo_grouped`). The groups are for different tables, so
none of them sees what another one has written (`tables_commit`). The main result
`writeAll_sequential` is that the store is left as if all writes were made one after another.
-/

namespace QuadIndex

namespace Batch

variable {groups batches : List Batch} {b : Batch} {name : String}

/-- All writes of batches in their order, each with the name of its table. -/
def writes (batches : List Batch) : List (String × Mutation) :=
  batches.flatMap fun b => b.mutations.map fun m => (b.table, m)

/-- The writes of batches to one table, in their order. -/
def writesTo (name : String) (batches : List Batch) : List Mutation :=
  (writes batches).filterMap fun w => if w.1 = name then some w.2 else none

theorem writesTo_cons (b : Batch) (batches : List Batch) :
    writesTo name (b :: batches) = writesTo name [b] ++ writesTo name batches := by
  simp only [writesTo, writes, List.flatMap_cons, List.flatMap_nil, List.append_nil,
    List.filterMap_append]

theorem writesTo_singleton_self (b : Batch) : writesTo b.table [b] = b.mutations := by
  simp only [writesTo, writes, List.flatMap_cons, List.flatMap_nil, List.append_nil,
    List.filterMap_map, Function.comp_def, ↓reduceIte, List.filterMap_some]

theorem writesTo_singleton_of_ne (other : b.table ≠ name) : writesTo name [b] = [] := by
  simp [writesTo, writes, other]

/-- A table that no batch is for has no writes. -/
theorem writesTo_of_forall_ne (h : ∀ b ∈ batches, b.table ≠ name) : writesTo name batches = [] := by
  induction batches with
  | nil => rfl
  | cons b batches ih =>
    rw [List.forall_mem_cons] at h
    rw [writesTo_cons, writesTo_singleton_of_ne h.1, ih h.2, List.nil_append]

/-- Writes to different tables may be made in either order. -/
theorem writesTo_append_comm (apart : ∀ g ∈ groups, g.table ≠ b.table) :
    writesTo name [b] ++ writesTo name groups = writesTo name groups ++ writesTo name [b] := by
  by_cases own : b.table = name
  · have none : writesTo name groups = [] :=
      writesTo_of_forall_ne fun g mem same => apart g mem (same.trans own.symm)
    rw [none, List.append_nil, List.nil_append]
  · rw [writesTo_singleton_of_ne own, List.append_nil, List.nil_append]

/-! ## Groups -/

/-- The batches are for different tables, by increasing name. -/
def Increasing (groups : List Batch) : Prop := groups.Pairwise fun g h => g.table < h.table

/-- Gathering brings in no name but that of the batch. -/
theorem forall_mem_gather {P : String → Prop} (h : ∀ g ∈ groups, P g.table) (own : P b.table) :
    ∀ g ∈ gather groups b, P g.table := by
  induction groups with
  | nil => simpa [gather] using own
  | cons g groups ih =>
    rw [List.forall_mem_cons] at h
    rw [gather]
    split
    · exact List.forall_mem_cons.2 h
    · split
      · exact List.forall_mem_cons.2 ⟨own, List.forall_mem_cons.2 h⟩
      · exact List.forall_mem_cons.2 ⟨h.1, ih h.2⟩

theorem Increasing.forall_lt {g : Batch} (h : Increasing (g :: groups)) (before : b.table < g.table) :
    ∀ other ∈ g :: groups, b.table < other.table :=
  List.forall_mem_cons.2 ⟨before, fun other mem =>
    String.lt_trans before ((List.pairwise_cons.1 h).1 other mem)⟩

theorem Increasing.gather (h : Increasing groups) (b : Batch) :
    Increasing (Batch.gather groups b) := by
  induction groups with
  | nil => exact List.pairwise_singleton ..
  | cons g groups ih =>
    obtain ⟨first, rest⟩ := List.pairwise_cons.1 h
    rw [Batch.gather]
    split
    · exact List.pairwise_cons.2 ⟨first, rest⟩
    · next other =>
      split
      · next before => exact List.pairwise_cons.2 ⟨h.forall_lt before, h⟩
      · next notBefore =>
        have after : g.table < b.table := Std.lt_of_le_of_ne (String.not_lt.1 notBefore) other
        exact List.pairwise_cons.2 ⟨forall_mem_gather first after, ih rest⟩

/-- A batch that is gathered puts its writes after those to the same table. -/
theorem writesTo_gather (h : Increasing groups) (b : Batch) :
    writesTo name (gather groups b) = writesTo name groups ++ writesTo name [b] := by
  induction groups with
  | nil => rfl
  | cons g groups ih =>
    obtain ⟨first, rest⟩ := List.pairwise_cons.1 h
    rw [gather]
    split
    · next same =>
      have joined : writesTo name [{ g with mutations := g.mutations ++ b.mutations }] =
          writesTo name [g] ++ writesTo name [b] := by
        simp [writesTo, writes, same]
      have apart : ∀ other ∈ groups, other.table ≠ b.table := fun other mem eq =>
        String.lt_irrefl _ (eq ▸ same ▸ first other mem)
      rw [writesTo_cons _ groups, joined, writesTo_cons g groups, List.append_assoc,
        writesTo_append_comm apart, List.append_assoc]
    · split
      · next before =>
        rw [writesTo_cons]
        exact writesTo_append_comm fun other mem eq =>
          String.lt_irrefl _ (eq ▸ h.forall_lt before other mem)
      · rw [writesTo_cons, ih rest, writesTo_cons g groups, List.append_assoc]

/-- Batches that are gathered one after another are for different tables, and each table has its writes
of all of them. -/
theorem foldl_gather (h : Increasing groups) (batches : List Batch) :
    Increasing (batches.foldl gather groups) ∧
    ∀ name, writesTo name (batches.foldl gather groups) =
      writesTo name groups ++ writesTo name batches := by
  induction batches generalizing groups with
  | nil => exact ⟨h, fun name => (List.append_nil _).symm⟩
  | cons b batches ih =>
    obtain ⟨increasing, all⟩ := ih (h.gather b)
    refine ⟨increasing, fun name => ?_⟩
    rw [List.foldl_cons, all, writesTo_gather h, writesTo_cons b batches, List.append_assoc]

/-- Groups without writes do not count. -/
theorem writesTo_filter (groups : List Batch) :
    writesTo name (groups.filter fun g => !g.mutations.isEmpty) = writesTo name groups := by
  induction groups with
  | nil => rfl
  | cons g groups ih =>
    rw [writesTo_cons g groups, ← ih]
    by_cases none : g.mutations = []
    · have nothing : writesTo name [g] = [] := by simp [writesTo, writes, none]
      rw [List.filter_cons_of_neg (by simp [none]), nothing, List.nil_append]
    · rw [List.filter_cons_of_pos (by simpa using none), writesTo_cons]

theorem increasing_grouped (batches : List Batch) : Increasing (grouped batches) :=
  (foldl_gather .nil batches).1.filter _

theorem writesTo_grouped (batches : List Batch) :
    writesTo name (grouped batches) = writesTo name batches := by
  rw [grouped, writesTo_filter, (foldl_gather .nil batches).2]
  rfl

end Batch

namespace Store

open Batch

variable {s t : Store} {groups batches others : List Batch} {name : String}

/-- Stores are the same where they have the same tables and are set to fail alike. -/
theorem ext_tables (faults : s.faults = t.faults) (tables : ∀ name, s.tables name = t.tables name) :
    s = t := by
  obtain ⟨_, _⟩ := s
  obtain ⟨_, _⟩ := t
  cases faults
  exact congrArg (Store.mk · _) (funext tables)

@[simp]
theorem tables_setTable_self (s : Store) (name : String) (table : Table) :
    (s.setTable name table).tables name = table :=
  if_pos rfl

theorem tables_setTable_of_ne {other : String} (apart : other ≠ name) (s : Store) (table : Table) :
    (s.setTable name table).tables other = s.tables other :=
  if_neg apart

/-! ## Writes one by one -/

/-- The store after writes to tables, one after another. -/
def applyEach (s : Store) (writes : List (String × Mutation)) : Store :=
  writes.foldl (fun s (name, m) => s.setTable name ((s.tables name).apply m)) s

theorem faults_applyEach (s : Store) (writes : List (String × Mutation)) :
    (s.applyEach writes).faults = s.faults := by
  induction writes generalizing s with
  | nil => rfl
  | cons w writes ih => exact ih _

theorem tables_applyEach (s : Store) (writes : List (String × Mutation)) (name : String) :
    (s.applyEach writes).tables name =
      (writes.filterMap fun w => if w.1 = name then some w.2 else none).foldl Table.apply
        (s.tables name) := by
  induction writes generalizing s with
  | nil => rfl
  | cons w writes ih =>
    refine (ih (s.setTable w.1 ((s.tables w.1).apply w.2))).trans ?_
    by_cases own : w.1 = name
    · subst own
      simp
    · simp [tables_setTable_of_ne (Ne.symm own), own]

/-- A table has the writes to it. -/
theorem tables_applyEach_writes (s : Store) (batches : List Batch) (name : String) :
    (s.applyEach (writes batches)).tables name =
      (writesTo name batches).foldl Table.apply (s.tables name) :=
  tables_applyEach s (writes batches) name

/-! ## Writes made together -/

theorem commit_eq (s : Store) (groups : List Batch) :
    s.commit groups = groups.foldl (fun t g =>
      t.setTable g.table (g.mutations.foldl Table.apply (s.tables g.table))) s := by
  rw [commit, List.zip_map', List.foldl_map]

/-- What tables that were opened before have after groups for different tables. -/
theorem tables_foldl_setTable (h : Increasing groups) (opened : String → Table)
    (current : ∀ g ∈ groups, s.tables g.table = opened g.table) :
    (groups.foldl (fun t g => t.setTable g.table (g.mutations.foldl Table.apply (opened g.table)))
        s).tables name =
      (writesTo name groups).foldl Table.apply (s.tables name) := by
  -- Tables are opened once, so on the way the store agrees with them for the groups still to come.
  induction groups generalizing s with
  | nil => rfl
  | cons g groups ih =>
    obtain ⟨first, rest⟩ := List.pairwise_cons.1 h
    rw [List.forall_mem_cons] at current
    have apart : ∀ other ∈ groups, other.table ≠ g.table := fun other mem eq =>
      String.lt_irrefl _ (eq ▸ first other mem)
    rw [List.foldl_cons, ih rest, writesTo_cons]
    · by_cases own : g.table = name
      · subst own
        rw [writesTo_of_forall_ne apart, writesTo_singleton_self, List.append_nil,
          tables_setTable_self, current.1]
        rfl
      · rw [writesTo_singleton_of_ne own, List.nil_append, tables_setTable_of_ne (Ne.symm own)]
    · intro other mem
      rw [tables_setTable_of_ne (apart other mem), current.2 other mem]

theorem tables_commit (h : Increasing groups) (s : Store) (name : String) :
    (s.commit groups).tables name = (writesTo name groups).foldl Table.apply (s.tables name) := by
  rw [commit_eq, tables_foldl_setTable h s.tables fun _ _ => rfl]

theorem faults_commit (s : Store) (groups : List Batch) : (s.commit groups).faults = s.faults := by
  rw [commit_eq]
  generalize s.tables = opened
  induction groups generalizing s with
  | nil => rfl
  | cons g groups ih => exact ih _

/-- Writes made together are the writes one by one, of all batches in their order. -/
theorem writeAll_eq (s : Store) (batches : List Batch) :
    s.writeAll batches = if s.faults.writing then ⟨.error (.backingStore "write failed"), s⟩
      else ⟨.ok (), s.applyEach (writes batches)⟩ := by
  have together : s.commit (grouped batches) = s.applyEach (writes batches) := by
    refine ext_tables ?_ fun name => ?_
    · rw [faults_commit, faults_applyEach]
    · rw [tables_commit (increasing_grouped batches), writesTo_grouped, tables_applyEach_writes]
  unfold writeAll
  split
  · rfl
  · dsimp only
    split
    · next none =>
      rw [← together, List.isEmpty_iff.1 none]
      rfl
    · rw [together]

/-- Writes that fail leave the store as it was. -/
theorem left_of_writeAll_error {s : Store} {e : Error}
    (failed : (s.writeAll batches).result = .error e) : (s.writeAll batches).left = s := by
  rw [writeAll_eq] at failed ⊢
  split at failed
  · next faulty => rw [if_pos faulty]
  · cases failed

/-- Batches with the same writes to each table are the same writes. -/
theorem writeAll_congr (same : ∀ name, writesTo name others = writesTo name batches) (s : Store) :
    s.writeAll others = s.writeAll batches := by
  have after : s.applyEach (writes others) = s.applyEach (writes batches) := by
    refine ext_tables ?_ fun name => ?_
    · rw [faults_applyEach, faults_applyEach]
    · rw [tables_applyEach_writes, tables_applyEach_writes, same]
  rw [writeAll_eq, writeAll_eq, after]

/-- Writes to one table change that table alone. -/
theorem applyEach_writes_singleton (s : Store) (table : String) (ms : List Mutation) :
    s.applyEach (writes [⟨table, ms⟩]) = s.setTable table ((s.tables table).applyAll ms) := by
  refine ext_tables (faults_applyEach s _) fun name => ?_
  rw [tables_applyEach_writes, Table.applyAll_eq_foldl]
  by_cases own : table = name
  · subst own
    rw [tables_setTable_self, writesTo_singleton_self ⟨table, ms⟩]
  · rw [tables_setTable_of_ne (Ne.symm own), writesTo_singleton_of_ne (b := ⟨table, ms⟩) own]
    rfl

/-- Writes to one table are one batch. -/
theorem write_eq_writeAll (s : Store) (table : String) (ms : List Mutation) :
    s.write table ms = s.writeAll [⟨table, ms⟩] := by
  rw [writeAll_eq, write]
  split
  · rfl
  · split
    · next none =>
      rw [List.isEmpty_iff.1 none]
      rfl
    · rw [applyEach_writes_singleton]

/-- Where the store does not fail, writes to one table are made in it. -/
theorem write_of_working {s : Store} (working : s.faults = {}) (table : String)
    (ms : List Mutation) :
    s.write table ms = ⟨.ok (), s.setTable table ((s.tables table).applyAll ms)⟩ := by
  rw [write_eq_writeAll, writeAll_eq, applyEach_writes_singleton, working]
  rfl

/-- Writes made together leave the store as it was if it is set to fail, and else every table as the
writes of all batches to it, one after another in their order: tables that no batch is for are left
alone, and it does not matter how the writes to a table are spread over batches. Writes to one table,
of which only the last under each key is made, are the same as one batch of them. -/
theorem writeAll_sequential (s : Store) (batches : List Batch) :
    (s.writeAll batches = if s.faults.writing then ⟨.error (.backingStore "write failed"), s⟩
      else ⟨.ok (), s.applyEach (writes batches)⟩) ∧
    (∀ name, (s.applyEach (writes batches)).tables name =
      (writesTo name batches).foldl Table.apply (s.tables name)) ∧
    (∀ name, (∀ b ∈ batches, b.table ≠ name) →
      (s.applyEach (writes batches)).tables name = s.tables name) ∧
    (∀ others, (∀ name, writesTo name others = writesTo name batches) →
      s.writeAll others = s.writeAll batches) ∧
    ∀ name ms, s.write name ms = s.writeAll [⟨name, ms⟩] := by
  refine ⟨writeAll_eq s batches, tables_applyEach_writes s batches, fun name unnamed => ?_,
    fun others same => writeAll_congr same s, write_eq_writeAll s⟩
  rw [tables_applyEach_writes, writesTo_of_forall_ne unnamed]
  rfl

end Store

end QuadIndex
