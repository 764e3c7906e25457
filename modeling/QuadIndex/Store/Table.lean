import QuadIndex.Bytes.Range

/-!
# Ordered tables

A table holds values under byte-string keys, in the order of the keys and at most one for each. So it
is determined by what `get?` finds in it, and `put` and `erase` change that for one key alone.
-/

namespace QuadIndex

/-- One write to a table. -/
inductive Mutation where
  | put (key value : Bytes)
  | delete (key : Bytes)
  deriving DecidableEq, Repr

/-- The key that the write is about. -/
def Mutation.key : Mutation → Bytes
  | put key _ => key
  | delete key => key

/-- A table, as its entries by increasing key. -/
structure Table where
  entries : List (Bytes × Bytes)
  sorted : entries.Pairwise fun a b => a.1 < b.1

namespace Table

/-- The table without entries. -/
def empty : Table := ⟨[], .nil⟩

/-- The value under a key. -/
def get? (t : Table) (key : Bytes) : Option Bytes :=
  (t.entries.find? fun e => e.1 = key).map (·.2)

/-- The table with a value put under a key. -/
def put (t : Table) (key value : Bytes) : Table where
  entries := t.entries.filter (fun e => e.1 < key) ++
    (key, value) :: t.entries.filter (fun e => key < e.1)
  sorted := by
    rw [List.pairwise_append]
    refine ⟨t.sorted.filter _, ?_, ?_⟩
    · rw [List.pairwise_cons]
      exact ⟨fun e he => by simpa using (List.mem_filter.1 he).2, t.sorted.filter _⟩
    · intro a ha b hb
      have ha : a.1 < key := by simpa using (List.mem_filter.1 ha).2
      rcases List.mem_cons.1 hb with rfl | hb
      · exact ha
      · exact List.lt_trans ha (by simpa using (List.mem_filter.1 hb).2)

/-- The table without what is under a key. -/
def erase (t : Table) (key : Bytes) : Table :=
  ⟨t.entries.filter fun e => e.1 ≠ key, t.sorted.filter _⟩

/-- The table after a write. -/
def apply (t : Table) : Mutation → Table
  | .put key value => t.put key value
  | .delete key => t.erase key

/-- The entries whose keys lie in a range. -/
def inRange (t : Table) (r : ByteRange) : List (Bytes × Bytes) :=
  t.entries.filter fun e => r.contains e.1

/-- The number of entries. -/
def size (t : Table) : Nat := t.entries.length

theorem get?_eq_some_iff {t : Table} {key value : Bytes} :
    t.get? key = some value ↔ (key, value) ∈ t.entries := by
  obtain ⟨entries, sorted⟩ := t
  simp only [get?]
  induction entries with
  | nil => simp
  | cons e es ih =>
    obtain ⟨he, hes⟩ := List.pairwise_cons.1 sorted
    by_cases hk : e.1 = key
    · have : ∀ v, (key, v) ∉ es := fun v hv => List.lt_irrefl _ (hk ▸ he _ hv)
      subst hk
      simp [this, eq_comm, Prod.ext_iff]
    · have : (key, value) ≠ e := fun h => hk (h ▸ rfl)
      rw [List.find?_cons_of_neg (by simp [hk]), ih hes]
      simp [this]

/-- Tables with the same values under all keys are the same. -/
theorem ext_get? {t u : Table} (h : ∀ key, t.get? key = u.get? key) : t = u := by
  have mem (e : Bytes × Bytes) : e ∈ t.entries ↔ e ∈ u.entries := by
    obtain ⟨key, value⟩ := e
    rw [← get?_eq_some_iff, ← get?_eq_some_iff, h]
  have nodup (t : Table) : t.entries.Nodup := t.sorted.imp fun {a b} hab (h : a = b) =>
    List.lt_irrefl a.1 (h ▸ hab : a.1 < a.1)
  have perm := (List.perm_ext_iff_of_nodup (nodup t) (nodup u)).2 mem
  have : t.entries = u.entries :=
    perm.eq_of_pairwise (fun a b _ _ hab hba => (List.lt_irrefl _ (List.lt_trans hab hba)).elim)
      t.sorted u.sorted
  obtain ⟨entries, sorted⟩ := t
  cases this
  rfl

theorem mem_put {t : Table} {key value : Bytes} {e : Bytes × Bytes} :
    e ∈ (t.put key value).entries ↔ e = (key, value) ∨ e.1 ≠ key ∧ e ∈ t.entries := by
  have order : e.1 ≠ key ↔ e.1 < key ∨ key < e.1 := by
    constructor
    · intro h
      by_cases hlt : e.1 < key
      · exact .inl hlt
      · exact .inr (Std.lt_of_le_of_ne (List.not_lt.1 hlt) (Ne.symm h))
    · rintro (h | h) rfl <;> exact List.lt_irrefl _ h
  simp only [put, List.mem_append, List.mem_cons, List.mem_filter, decide_eq_true_eq, order]
  grind

theorem mem_erase {t : Table} {key : Bytes} {e : Bytes × Bytes} :
    e ∈ (t.erase key).entries ↔ e.1 ≠ key ∧ e ∈ t.entries := by
  simp [erase, and_comm]

theorem get?_put_self (t : Table) (key value : Bytes) : (t.put key value).get? key = some value :=
  get?_eq_some_iff.2 (mem_put.2 (.inl rfl))

theorem get?_put_of_ne (t : Table) {key other : Bytes} (value : Bytes) (h : other ≠ key) :
    (t.put key value).get? other = t.get? other :=
  Option.ext fun v => by simp [get?_eq_some_iff, mem_put, h]

theorem get?_erase_self (t : Table) (key : Bytes) : (t.erase key).get? key = none := by
  simp [Option.eq_none_iff_forall_ne_some, get?_eq_some_iff, mem_erase]

theorem get?_erase_of_ne (t : Table) {key other : Bytes} (h : other ≠ key) :
    (t.erase key).get? other = t.get? other :=
  Option.ext fun v => by simp [get?_eq_some_iff, mem_erase, h]

end Table

end QuadIndex
