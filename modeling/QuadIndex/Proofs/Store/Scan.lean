import QuadIndex.Proofs.Bytes.Order
import QuadIndex.Proofs.Store.Reading

/-!
# Scans of a store that does not fail

Such a scan has all entries of its range, and a lookup finds what is in the table. Where all keys of a
table are deleted and others put in their place, exactly these are found (`get?_replaced_eq`).
-/

namespace QuadIndex

open Bytes Reading

theorem ByteRange.contains_single_iff {key other : Bytes} :
    (⟨key, key ++ [0x00]⟩ : ByteRange).contains other = true ↔ other = key := by
  rw [contains_iff]
  constructor
  · rintro ⟨le, lt⟩
    obtain ⟨rest, rfl⟩ := prefix_of_between (a := []) (by simpa using le) lt
    have least : rest < [0x00] := (append_lt_append_iff key).1 lt
    cases rest with
    | nil => exact List.append_nil key
    | cons b rest => simp [List.cons_lt_cons_iff] at least
  · rintro rfl
    refine ⟨List.le_refl _, ?_⟩
    have less : other ++ [] < other ++ [0x00] :=
      (append_lt_append_iff other).2 (List.nil_lt_cons _ _)
    rwa [List.append_nil] at less

namespace Cursor

/-- All items of a scan that does not fail. -/
theorem drain_working (entries : List (Bytes × Bytes)) :
    drain ⟨entries, none, false⟩ = (entries.map .ok, ⟨[], none, false⟩) := by
  induction entries with
  | nil =>
    rw [drain]
    rfl
  | cons entry entries ih =>
    rw [drain]
    change (_ :: (drain ⟨entries, none, false⟩).1, (drain ⟨entries, none, false⟩).2) = _
    rw [ih]
    rfl

theorem close_working (entries : List (Bytes × Bytes)) :
    Gives (close ⟨entries, none, false⟩) (.ok ()) := fun _ => rfl

end Cursor

/-- No entry lies in an empty range. -/
theorem Table.inRange_of_isEmpty {t : Table} {range : ByteRange} (empty : range.isEmpty = true) :
    t.inRange range = [] := by
  apply List.filter_eq_nil_iff.2
  intro entry _ contained
  obtain ⟨le, lt⟩ := ByteRange.contains_iff.1 contained
  exact of_decide_eq_true empty (Std.lt_of_le_of_lt le lt)

namespace Store

variable {store : Store} (working : store.faults = {})

include working

theorem faults_working (table : String) :
    (if store.faults.table = some table then store.faults else {}) = ({} : Faults) := by
  rw [working]
  split <;> rfl

/-- A scan of a store that does not fail has the entries of its range. -/
theorem scan_gives (table : String) (range : ByteRange) :
    Gives (store.scan table range none)
      (.ok ⟨(store.tables table).inRange range, none, false⟩) := by
  unfold scan
  dsimp only
  rw [faults_working working table]
  split
  · next empty =>
    rw [Table.inRange_of_isEmpty empty]
    intro _
    rfl
  · intro _
    rfl

/-- A scan with an expression has the entries of its range whose keys match. It fails only where the
text of the expression is none. -/
theorem scan_filtered_gives (table : String) (range : ByteRange) (e : KeyExpression)
    (known : Regex.Properties) :
    (∀ r, e.compile known = .ok r → Gives (store.scan table range (some e) known)
      (.ok ⟨((store.tables table).inRange range).filter fun entry => r.isMatch entry.1,
        none, false⟩)) ∧
    ((∃ c, Gives (store.scan table range (some e) known) (.ok c)) ∨
      Gives (store.scan table range (some e) known) (.error .invalidExpression)) := by
  unfold scan
  dsimp only
  rw [faults_working working table]
  split
  · next empty =>
    rw [Table.inRange_of_isEmpty empty]
    exact ⟨fun r _ _ => rfl, .inl ⟨_, fun _ => rfl⟩⟩
  · cases compiled : e.compile known with
    | error fault =>
      have invalid : fault = .invalidExpression := by
        unfold KeyExpression.compile at compiled
        split at compiled
        · cases compiled
        · cases compiled
          rfl
      subst invalid
      refine ⟨fun r same => ?_, .inr fun _ => rfl⟩
      cases same
    | ok r =>
      refine ⟨fun r' same => ?_, .inl ⟨_, fun _ => rfl⟩⟩
      cases same
      exact fun _ => rfl

/-- A lookup finds what is in the table. -/
theorem get?_gives (table : String) (key : Bytes) :
    Gives (store.get? table key) (.ok ((store.tables table).get? key)) := by
  have own : ∀ entry, entry ∈ (store.tables table).inRange ⟨key, key ++ [0x00]⟩ ↔
      entry ∈ (store.tables table).entries ∧ entry.1 = key := by
    intro entry
    rw [Table.inRange, List.mem_filter, ByteRange.contains_single_iff]
  refine (scan_gives working table ⟨key, key ++ [0x00]⟩).bind ?_
  cases found : (store.tables table).inRange ⟨key, key ++ [0x00]⟩ with
  | nil =>
    have none : (store.tables table).get? key = none := by
      rw [Option.eq_none_iff_forall_ne_some]
      intro value there
      have mem := (own (key, value)).2 ⟨Table.get?_eq_some_iff.1 there, rfl⟩
      rw [found] at mem
      cases mem
    rw [none]
    exact (Cursor.close_working []).bind (.pure _)
  | cons entry rest =>
    obtain ⟨mem, same⟩ := (own entry).1 (found ▸ .head _)
    obtain ⟨other, value⟩ := entry
    obtain rfl : other = key := same
    rw [Table.get?_eq_some_iff.2 mem]
    refine (Cursor.close_working rest).bind ?_
    rw [if_pos rfl]
    exact .pure _

end Store

namespace Table

open Mutation

variable {t : Table} {fresh : List Mutation} {key : Bytes}

/-- The table with its entries below 0xff replaced by what new writes leave. -/
def replaced (t : Table) (fresh : List Mutation) : Table :=
  t.applyAll ((empty.applyAll fresh).replacing ((t.inRange .full).map (·.1)))

theorem mem_of_lastOn? {ms : List Mutation} {m : Mutation} (h : lastOn? ms key = some m) :
    m ∈ ms ∧ m.key = key := by
  induction ms with
  | nil => cases h
  | cons first ms ih =>
    rw [lastOn?_cons, Option.or_eq_some_iff] at h
    rcases h with later | ⟨_, own⟩
    · exact ⟨.tail _ (ih later).1, (ih later).2⟩
    · split at own
      · next same =>
        cases own
        exact ⟨.head _, same⟩
      · cases own

theorem lastOn?_append (ms ws : List Mutation) (key : Bytes) :
    lastOn? (ms ++ ws) key = (lastOn? ws key).or (lastOn? ms key) := by
  induction ms with
  | nil =>
    have none : lastOn? [] key = none := rfl
    rw [List.nil_append, none, Option.or_none]
  | cons m ms ih => rw [List.cons_append, lastOn?_cons, ih, lastOn?_cons, Option.or_assoc]

/-- The writes that put all entries of a table leave under each key what is there. -/
theorem lastOn?_puts (t : Table) (key : Bytes) :
    lastOn? (t.entries.map fun e => .put e.1 e.2) key = (t.get? key).map (.put key) := by
  cases last : lastOn? (t.entries.map fun e => .put e.1 e.2) key with
  | some m =>
    obtain ⟨mem, same⟩ := mem_of_lastOn? last
    obtain ⟨e, there, rfl⟩ := List.mem_map.1 mem
    obtain rfl : e.1 = key := same
    rw [get?_eq_some_iff.2 there]
    rfl
  | none =>
    have absent := lastOn?_eq_none_iff.1 last
    simp only [List.any_map, List.any_eq_false, Function.comp_apply] at absent
    have nothing : t.get? key = none := Option.eq_none_iff_forall_ne_some.2 fun value there =>
      absent _ (get?_eq_some_iff.1 there) (beq_self_eq_true key)
    rw [nothing]
    rfl

/-- Where the old keys are those of a table, only what the new one has is found in it afterwards. -/
theorem get?_applyAll_replacing {fresh : Table} {old : List Bytes}
    (covers : ∀ value, t.get? key = some value → key ∈ old) :
    (t.applyAll (fresh.replacing old)).get? key = fresh.get? key := by
  rw [replacing, get?_applyAll, lastOn?_append, lastOn?_puts]
  cases found : fresh.get? key with
  | some value => rfl
  | none =>
    rw [Option.map_none, Option.none_or]
    cases deleted : lastOn? ((old.filter fun key => (fresh.get? key).isNone).map .delete) key with
    | some m =>
      obtain ⟨_, _, rfl⟩ := List.mem_map.1 (mem_of_lastOn? deleted).1
      rfl
    | none =>
      rw [Option.elim_none, Option.eq_none_iff_forall_ne_some]
      intro value there
      have stale : key ∈ old.filter fun key => (fresh.get? key).isNone :=
        List.mem_filter.2 ⟨covers value there, by rw [found]; rfl⟩
      have absent := lastOn?_eq_none_iff.1 deleted
      simp only [List.any_map, List.any_eq_false, Function.comp_apply] at absent
      exact absent _ stale (beq_self_eq_true key)

/-- Only the new writes are found. -/
theorem get?_replaced (low : ∀ value, (key, value) ∈ t.entries → key < [0xff]) :
    (t.replaced fresh).get? key = (lastOn? fresh key).bind fun m => m.kept.map (·.2) := by
  rw [replaced, get?_applyAll_replacing, get?_applyAll]
  · cases lastOn? fresh key <;> rfl
  · intro value there
    have mem := get?_eq_some_iff.1 there
    exact List.mem_map_of_mem (List.mem_filter.2
      ⟨mem, ByteRange.contains_iff.2 ⟨List.nil_le _, low value mem⟩⟩)

/-- What is found is what has been put, if no key has been put with two values. -/
theorem get?_replaced_eq {found : Option Bytes}
    (low : ∀ value, (key, value) ∈ t.entries → key < [0xff])
    (puts : ∀ m ∈ fresh, ∃ key value, m = .put key value)
    (each : ∀ value, .put key value ∈ fresh ↔ found = some value) :
    (t.replaced fresh).get? key = found := by
  rw [get?_replaced low]
  cases last : lastOn? fresh key with
  | some m =>
    obtain ⟨mem, same⟩ := mem_of_lastOn? last
    obtain ⟨other, value, rfl⟩ := puts m mem
    obtain rfl : other = key := same
    exact ((each value).1 mem).symm
  | none =>
    have absent := lastOn?_eq_none_iff.1 last
    simp only [List.any_eq_false] at absent
    cases found with
    | none => rfl
    | some value => exact absurd (beq_self_eq_true key) (absent _ ((each value).2 rfl))

end Table

end QuadIndex
