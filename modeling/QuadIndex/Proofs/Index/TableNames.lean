import QuadIndex.Settings

/-!
# Names of tables

The tables of a store are called by its prefix and what they hold. Under different prefixes two of
these names are the same only where one prefix is the other with an "s" behind it: then "spo" behind
the shorter one is "po" behind the longer one (`table_eq_table_iff`).
-/

namespace QuadIndex.Settings

variable {s t : Settings} {l k : Layout}

/-- Texts that end in equally long parts are the same where all parts are. -/
theorem append_inj_of_length {a b : String} (x y : String)
    (length : x.toList.length = y.toList.length) : a ++ x = b ++ y ↔ a = b ∧ x = y := by
  constructor
  · intro same
    have lists : a.toList ++ x.toList = b.toList ++ y.toList := by
      rw [← String.toList_append, same, String.toList_append]
    have parts := List.append_inj' lists length
    exact ⟨String.toList_inj.1 parts.1, String.toList_inj.1 parts.2⟩
  · rintro ⟨rfl, rfl⟩
    rfl

/-- The name of a table of statistics ends in another letter than those of layouts do. -/
theorem table_ne_statisticsTable (s t : Settings) (l : Layout) : s.table l ≠ t.statisticsTable := by
  intro same
  have last : l.name.toList.getLast?.or s.tablePrefix.toList.getLast? = some 's' := by
    rw [← List.getLast?_append, ← String.toList_append]
    show (s.table l).toList.getLast? = _
    rw [same, statisticsTable, String.toList_append, List.getLast?_append]
    rfl
  cases l <;> exact absurd (Option.some.inj last) (by decide)

theorem statisticsTable_inj : s.statisticsTable = t.statisticsTable ↔ s.tablePrefix = t.tablePrefix :=
  (append_inj_of_length "stats" "stats" rfl).trans (and_iff_left rfl)

/-- Where the longer name is cut so that both have two letters behind, it is "spo" and the shorter one
"po". -/
theorem table_eq_po_iff : s.table l = t.table .po ↔
    (l = .spo ∧ t.tablePrefix = s.tablePrefix ++ "s") ∨ (l = .po ∧ s.tablePrefix = t.tablePrefix) := by
  cases l with
  | spo =>
    have cut : s.table .spo = (s.tablePrefix ++ "s") ++ "po" := by
      rw [String.append_assoc]
      rfl
    rw [cut, table, append_inj_of_length "po" Layout.po.name rfl]
    simp [Layout.name, eq_comm]
  | po =>
    rw [table, table, append_inj_of_length _ _ rfl]
    simp
  | osp =>
    have cut : s.table .osp = (s.tablePrefix ++ "o") ++ "sp" := by
      rw [String.append_assoc]
      rfl
    rw [cut, table, append_inj_of_length "sp" Layout.po.name rfl]
    simp [Layout.name]

/-- Under different prefixes two tables of layouts have one name only where one prefix is the other
with an "s" behind it. -/
theorem table_eq_table_iff (apart : s.tablePrefix ≠ t.tablePrefix) : s.table l = t.table k ↔
    (l = .spo ∧ k = .po ∧ t.tablePrefix = s.tablePrefix ++ "s") ∨
    (l = .po ∧ k = .spo ∧ s.tablePrefix = t.tablePrefix ++ "s") := by
  by_cases second : k = .po
  · subst second
    rw [table_eq_po_iff]
    simp [apart]
  · by_cases first : l = .po
    · subst first
      rw [eq_comm, table_eq_po_iff]
      simp [apart.symm, second]
    · -- Both names have three letters behind the prefix.
      have length : l.name.toList.length = k.name.toList.length := by
        cases l <;> cases k <;> first | rfl | contradiction
      rw [table, table, append_inj_of_length _ _ length]
      simp [apart, first, second]

end QuadIndex.Settings
