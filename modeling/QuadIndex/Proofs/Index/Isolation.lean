import QuadIndex.Proofs.Index.TableNames
import QuadIndex.Proofs.Query.Answer
import QuadIndex.Proofs.Statistics.Steady
import QuadIndex.Proofs.Store.Frame

/-!
# Two indexes over one store

Two indexes over one store write to the tables of their own prefixes (`perform_frame`) and read there
only (`query_congr`, `storedStatistics_congr`). So calls on one do not show in what the other reads, in
whatever order both are called (`interleave_isolated`), with one exception: under the prefixes `p` and
`p ++ "s"` the table of subjects of the first is the table of predicates of the second.
-/

namespace QuadIndex

open Reading

/-- A call that writes to the tables of an index. -/
inductive Call where
  | change (c : Change)
  | replace (s : Snapshot)

namespace Index

variable {ix jx : Index} {s t : Store} {N : Set String}

/-- What a call on a store comes to. -/
def outcome (ix : Index) (store : Store) : Call → Written Store
  | .change c => ix.change store c
  | .replace s => .after ((ix.replaceStatistics store s).run.run {}).1 store fun next => ⟨.ok (), next⟩

/-- The store that a call leaves. -/
def perform (ix : Index) (store : Store) (c : Call) : Store := (ix.outcome store c).left

/-- The store after calls on two indexes in any order. -/
def interleave (ix jx : Index) (store : Store) (calls : List (Call ⊕ Call)) : Store :=
  calls.foldl (fun store c => c.elim (ix.perform store) (jx.perform store)) store

/-- The names of the tables of an index. -/
def tableNames (ix : Index) : Set String :=
  {name | (∃ l, name = ix.table l) ∨ name = ix.settings.statisticsTable}

/-! ### What calls write -/

/-- What replacing the statistics comes to does not depend on the scans counted before. -/
theorem exists_outcome_replace (ix : Index) (store : Store) (s : Snapshot) :
    ∃ r, Gives (ix.replaceStatistics store s) r ∧
      ix.outcome store (.replace s) = .after r store fun next => ⟨.ok (), next⟩ := by
  have steady : (ix.replaceStatistics store s).Steady := by
    refine Steady.bind ?_ fun ms => .written _
    refine Steady.bind (.lift _) fun fresh => (store.scan_steady _ _ _).bind fun cursor => ?_
    refine (Store.close_steady _).bind fun _ => Steady.bind ?_ fun _ => .pure _
    exact .mapM fun item => .lift _
  exact ⟨_, steady.gives_run, rfl⟩

/-- The batches that a call writes. -/
def batchesOf (ix : Index) (store : Store) : Call → Except Error (List Batch)
  | .change c => ix.batches c.mutation c.quads
  | .replace s =>
    ((ix.replacement store s).run.run {}).1.map fun ms => [⟨ix.settings.statisticsTable, ms⟩]

/-- A call makes its writes together, and fails without any where it does not get so far. -/
theorem outcome_eq (ix : Index) (store : Store) (c : Call) :
    ix.outcome store c = .after (ix.batchesOf store c) store store.writeAll := by
  cases c with
  | change c => exact ix.change_eq store c
  | replace s =>
    rw [outcome, replaceStatistics, run_bind, batchesOf]
    cases ((ix.replacement store s).run.run {}).1 with
    | error e => rfl
    | ok ms =>
      dsimp only
      rw [Gives.written, Store.write_eq_writeAll, Store.writeAll_eq]
      show Written.after _ store _ = store.writeAll _
      rw [Store.writeAll_eq]
      split <;> rfl

/-- A call writes to the tables of its index. -/
theorem table_mem_of_batchesOf {c : Call} {batches : List Batch}
    (h : ix.batchesOf s c = .ok batches) : ∀ b ∈ batches, b.table ∈ ix.tableNames := by
  intro b mem
  cases c with
  | change c =>
    rw [batchesOf, batches_eq] at h
    obtain ⟨bs, _, rfl⟩ := Result.map_eq_ok_iff.1 h
    obtain ⟨l, _, rfl⟩ := List.mem_map.1 mem
    exact .inl ⟨l, rfl⟩
  | replace snapshot =>
    rw [batchesOf] at h
    obtain ⟨ms, _, rfl⟩ := Result.map_eq_ok_iff.1 h
    obtain rfl := List.mem_singleton.1 mem
    exact .inr rfl

/-- What a call writes depends on the table of statistics alone. -/
theorem batchesOf_congr (h : s.AgreeOn N t) (mem : ix.settings.statisticsTable ∈ N) (c : Call) :
    ix.batchesOf s c = ix.batchesOf t c := by
  cases c with
  | change c => rfl
  | replace snapshot =>
    have same : ix.replacement s snapshot = ix.replacement t snapshot := by
      unfold replacement
      rw [Store.scan_congr h.faults (h.tables mem)]
    rw [batchesOf, batchesOf, same]

/-- A call leaves alone what is under other names. -/
theorem perform_frame (ix : Index) (store : Store) (c : Call) :
    (ix.perform store c).AgreeOn ix.tableNamesᶜ store := by
  rw [perform, outcome_eq]
  cases written : ix.batchesOf store c with
  | error e => exact .refl store
  | ok batches =>
    refine Store.left_writeAll_frame (fun b mem => ?_) store
    exact Set.notMem_compl_iff.2 (table_mem_of_batchesOf written b mem)

/-- Stores that are alike stay so when one call is made on both. -/
theorem perform_congr (h : s.AgreeOn N t) (mem : ix.settings.statisticsTable ∈ N) (c : Call) :
    (ix.perform s c).AgreeOn N (ix.perform t c) := by
  rw [perform, perform, outcome_eq, outcome_eq, batchesOf_congr h mem]
  cases ix.batchesOf t c with
  | error e => exact h
  | ok batches => exact Store.left_writeAll_congr h batches

/-- Calls on two indexes leave, in what the first does not write, what the calls on the second alone
leave there. -/
theorem interleave_agrees (apart : jx.settings.statisticsTable ∉ ix.tableNames)
    (h : s.AgreeOn ix.tableNamesᶜ t) (calls : List (Call ⊕ Call)) :
    (ix.interleave jx s calls).AgreeOn ix.tableNamesᶜ
      ((calls.filterMap Sum.getRight?).foldl jx.perform t) := by
  induction calls generalizing s t with
  | nil => exact h
  | cons c calls ih =>
    cases c with
    | inl c => exact ih ((ix.perform_frame s c).trans h)
    | inr c => exact ih (perform_congr h apart c)

/-! ### What is read -/

theorem statisticsTable_notMem (apart : ix.settings.tablePrefix ≠ jx.settings.tablePrefix) :
    jx.settings.statisticsTable ∉ ix.tableNames := by
  rintro (⟨l, same⟩ | same)
  · exact ix.settings.table_ne_statisticsTable jx.settings l same.symm
  · exact apart (Settings.statisticsTable_inj.1 same).symm

/-- A query looks at the table of its plan. -/
theorem query_congr (faults : s.faults = t.faults) {p : Pattern}
    (tables : ∀ plan, ix.codec.plan ix.hashed p = .ok plan →
      s.tables (ix.table plan.form.layout) = t.tables (ix.table plan.form.layout))
    (filter : Option KeyExpression) (known : Regex.Properties) :
    ix.query s p filter known = ix.query t p filter known := by
  cases planned : ix.codec.plan ix.hashed p with
  | error e =>
    unfold query
    rw [planned]
    rfl
  | ok plan =>
    unfold query
    rw [planned, lift_ok_bind, lift_ok_bind, Store.scan_congr faults (tables plan planned)]

/-- Whether some quad matches is found out by a query. -/
theorem contains_congr {p : Pattern} (same : ix.query s p = ix.query t p) :
    ix.contains s p = ix.contains t p := by
  unfold contains
  rw [same]

theorem storedWord?_congr (faults : s.faults = t.faults)
    (tables : s.tables ix.settings.statisticsTable = t.tables ix.settings.statisticsTable)
    (key : Bytes) : ix.storedWord? s key = ix.storedWord? t key := by
  unfold storedWord? Store.get?
  rw [Store.scan_congr faults tables]

/-- Lookups of statistics look at the table of statistics. -/
theorem storedStatistics_congr (faults : s.faults = t.faults)
    (tables : s.tables ix.settings.statisticsTable = t.tables ix.settings.statisticsTable) :
    ix.storedStatistics s = ix.storedStatistics t ∧
      ix.countEntries s = ix.countEntries t := by
  have words : ix.storedWord? s = ix.storedWord? t :=
    funext fun key => storedWord?_congr faults tables key
  refine ⟨?_, funext fun kind => ?_⟩
  · unfold storedStatistics
    rw [words]
  · unfold countEntries
    dsimp only
    rw [Store.scan_congr faults tables]

/-- A table of the second index is one of the first only where its prefix is that of the first with an
"s" behind it, or the other way round. -/
theorem table_mem_tableNames_iff (apart : ix.settings.tablePrefix ≠ jx.settings.tablePrefix)
    {l : Layout} : jx.table l ∈ ix.tableNames ↔
      (l = .po ∧ jx.settings.tablePrefix = ix.settings.tablePrefix ++ "s") ∨
      (l = .spo ∧ ix.settings.tablePrefix = jx.settings.tablePrefix ++ "s") := by
  constructor
  · rintro (⟨k, same⟩ | same)
    · rcases (Settings.table_eq_table_iff apart.symm).1 same with ⟨first, _, longer⟩ |
        ⟨second, _, longer⟩
      · exact .inr ⟨first, longer⟩
      · exact .inl ⟨second, longer⟩
    · exact absurd same (jx.settings.table_ne_statisticsTable ix.settings l)
  · rintro (⟨rfl, longer⟩ | ⟨rfl, longer⟩)
    · exact .inl ⟨.spo, (Settings.table_eq_table_iff apart.symm).2 (.inr ⟨rfl, rfl, longer⟩)⟩
    · exact .inl ⟨.po, (Settings.table_eq_table_iff apart.symm).2 (.inl ⟨rfl, rfl, longer⟩)⟩

/-- Whatever calls are made on two indexes with different prefixes over one store, lookups of the
statistics of the second are those after its own calls alone, and so are its queries, but for those
that read a table which the first one shares. Only where one prefix is the other with an "s" behind it
there is such a table: it holds the rows by subject under the shorter prefix, and is read for rows by
predicate under the longer one. -/
theorem interleave_isolated (ix jx : Index)
    (apart : ix.settings.tablePrefix ≠ jx.settings.tablePrefix) (store : Store)
    (calls : List (Call ⊕ Call)) :
    let reached := ix.interleave jx store calls
    let own := (calls.filterMap Sum.getRight?).foldl jx.perform store
    jx.storedStatistics reached = jx.storedStatistics own ∧
    jx.countEntries reached = jx.countEntries own ∧
    (∀ p, (∀ plan, jx.codec.plan jx.hashed p = .ok plan →
        jx.table plan.form.layout ∉ ix.tableNames) →
      (∀ filter known, jx.query reached p filter known = jx.query own p filter known) ∧
        jx.contains reached p = jx.contains own p) ∧
    ∀ l, jx.table l ∈ ix.tableNames ↔
      (l = .po ∧ jx.settings.tablePrefix = ix.settings.tablePrefix ++ "s") ∨
      (l = .spo ∧ ix.settings.tablePrefix = jx.settings.tablePrefix ++ "s") := by
  intro reached own
  have unshared := statisticsTable_notMem apart
  have agree : reached.AgreeOn ix.tableNamesᶜ own := interleave_agrees unshared (.refl store) calls
  obtain ⟨lookups, counts⟩ := storedStatistics_congr agree.faults (agree.tables unshared)
  refine ⟨lookups, counts, fun p others => ?_, fun l => table_mem_tableNames_iff apart⟩
  have same := query_congr (p := p) agree.faults fun plan planned =>
    agree.tables (others plan planned)
  exact ⟨same, contains_congr (same none .none)⟩

/-- A query of an empty store finds nothing. -/
theorem query_empty (settings : Settings) {p : Pattern}
    (encodes : p.Encodes (standard settings).codec) :
    ∃ scan, Gives ((standard settings).query {} p) (.ok scan) ∧ scan.drain.1 = [] := by
  obtain ⟨_, scan, found, _, gives, yields, members, _⟩ :=
    (standard settings).empty_keeps.query Registry.standard_lawful Fingerprint.standard_delimited
      encodes
  obtain ⟨_, drained, _⟩ := yields.drain
  have none : found = [] := by
    refine List.eq_nil_iff_forall_not_mem.2 fun w mem => ?_
    obtain ⟨⟨_, held, _⟩, _⟩ := (members w).1 mem
    exact held
  exact ⟨scan, gives, by rw [drained, none]; rfl⟩

/-- A quad of one index is not found through the other. -/
theorem interleave_isolated_letters :
    let ix := standard { tablePrefix := "a" }
    let jx := standard { tablePrefix := "b" }
    let q : Quad := ⟨⟨"s"⟩, ⟨"p"⟩, .iri ⟨"o"⟩, none⟩
    ∃ scan, Gives (jx.query (ix.interleave jx {} [.inl (.change (.add [q]))]) {}) (.ok scan) ∧
      scan.drain.1 = [] := by
  intro ix jx q
  have apart : ix.settings.tablePrefix ≠ jx.settings.tablePrefix := by decide
  obtain ⟨_, _, queries, shared⟩ := interleave_isolated ix jx apart {} [.inl (.change (.add [q]))]
  obtain ⟨same, _⟩ := queries {} fun plan _ => by
    rw [shared]
    rintro (⟨_, longer⟩ | ⟨_, longer⟩)
    · exact absurd longer (by decide)
    · exact absurd longer (by decide)
  rw [same none .none]
  exact query_empty _ (Pattern.exists_encode_iff.1 ⟨_, rfl⟩)

/-- Valid prefixes of which one is the other with an "s" behind it are not apart: a quad that is added
under the shorter one is found under the longer one, with its parts mixed up. -/
theorem prefixes_mixed_up :
    let ix := standard { tablePrefix := "kb" }
    let jx := standard { tablePrefix := "kbs" }
    let q : Quad := ⟨⟨"s"⟩, ⟨"Ip"⟩, .iri ⟨"o"⟩, none⟩
    let p : Pattern := { predicate := .constant ⟨"s"⟩ }
    ix.settings.validate = .ok () ∧ jx.settings.validate = .ok () ∧
      (∃ scan, Gives (jx.query {} p) (.ok scan) ∧ scan.drain.1 = []) ∧
      ∃ scan, Gives (jx.query (ix.perform {} (.change (.add [q]))) p) (.ok scan) ∧
        scan.drain.1 = [.ok ⟨⟨"Io"⟩, ⟨"s"⟩, .iri ⟨"p"⟩, none⟩] := by
  intro ix jx q p
  have encodes : p.Encodes jx.codec := Pattern.exists_encode_iff.1 ⟨_, rfl⟩
  refine ⟨rfl, rfl, query_empty _ encodes, ?_⟩
  let row : Bytes := [0x73, 0x00, 0x49, 0x70, 0x00, 0x49, 0x6f, 0x01, 0x01]
  have bytes : ∃ b, ix.codec.bytes q = .ok b ∧ b.key ix.codec.fingerprint (ix.form .spo) = row :=
    ⟨_, rfl, rfl⟩
  obtain ⟨b, bytes, key⟩ := bytes
  have all : (Change.add [q]).quads.mapM ix.codec.bytes = .ok [b] :=
    Result.mapM_eq_ok_iff.2 (congrArg (fun r => [r]) bytes)
  obtain ⟨store, written, kept, _⟩ := ix.empty_keeps.change Registry.standard_lawful
    Fingerprint.standard_delimited all
  have reached : ix.perform {} (.change (.add [q])) = store := by
    rw [perform, outcome, written]
  -- The table of subjects of the one index is the table of predicates of the other.
  have table : store.tables (jx.table .po) = Table.empty.put row [] := by
    show store.tables (ix.table .spo) = _
    refine (kept.table .spo).unique fun other value => ?_
    rw [Table.empty_holds.put row other value]
    simp [Change.effect, key]
  have planned : ∃ plan, jx.codec.plan jx.hashed p = .ok plan ∧ plan.form = ⟨.po, false⟩ ∧
      (Table.empty.put row []).inRange plan.range = [(row, [])] := ⟨_, rfl, rfl, rfl⟩
  obtain ⟨plan, planned, form, entries⟩ := planned
  have encoded : ∃ s, p.encode jx.codec = .ok s ∧
      QuadScan.accept jx.codec ⟨.po, false⟩ s (row, []) =
        .ok (some ⟨⟨"Io"⟩, ⟨"s"⟩, .iri ⟨"p"⟩, none⟩) := ⟨_, rfl, rfl⟩
  obtain ⟨s, encoded, accepted⟩ := encoded
  have opened := query_opens kept.faults planned encoded
  rw [form, table, entries] at opened
  rw [reached]
  refine ⟨_, opened, ?_⟩
  have yields : QuadScan.Yields ⟨jx.codec, ⟨.po, false⟩, s, some ⟨[(row, [])], none, false⟩⟩
      [⟨⟨"Io"⟩, ⟨"s"⟩, .iri ⟨"p"⟩, none⟩] :=
    ⟨_, rfl, [some ⟨⟨"Io"⟩, ⟨"s"⟩, .iri ⟨"p"⟩, none⟩], congrArg (fun r => [r]) accepted, rfl⟩
  obtain ⟨_, drained, _⟩ := yields.drain
  rw [drained]
  rfl

end Index

end QuadIndex
