import QuadIndex.Proofs.Key.Registered
import QuadIndex.Proofs.Statistics.Stored
import QuadIndex.Proofs.Statistics.Tally

/-!
# A snapshot replaces all statistics

Where the numbers of a snapshot have keys, and no two of them the same, putting it down leaves its own
numbers in the table and nothing else, and each of them is found under what it is about
(`replaced_statistics`). The keys of the counts of a kind have a beginning of their own, so these
counts can be told in number as well.

The one thing to be asked for is that of two values that a count is about the first is not written with
a delimiter. Only a coding beside the standard ones can do that, and then the counts of different
values may share a key (`replaced_colliding`).
-/

namespace QuadIndex

open Bytes Result Reading

namespace Table

variable {t : Table} {fresh : List Mutation} {key value : Bytes}

/-- A table whose keys were all deleted holds what was put afterwards, if nothing was put twice. -/
theorem get?_replaced_iff (low : ∀ e ∈ t.entries, e.1 < [0xff])
    (puts : ∀ m ∈ fresh, ∃ key value, m = .put key value)
    (once : ∀ v w, .put key v ∈ fresh → .put key w ∈ fresh → v = w) :
    (t.replaced fresh).get? key = some value ↔ .put key value ∈ fresh := by
  have low : ∀ v, (key, v) ∈ t.entries → key < [0xff] := fun v mem => low _ mem
  by_cases there : ∃ v, .put key v ∈ fresh
  · obtain ⟨v, there⟩ := there
    have each : ∀ w, .put key w ∈ fresh ↔ some v = some w := fun w => by
      rw [Option.some.injEq]
      exact ⟨once v w there, fun same => same ▸ there⟩
    rw [get?_replaced_eq low puts each, Option.some.injEq]
    exact ⟨fun same => same ▸ there, once v value there⟩
  · have each : ∀ w, .put key w ∈ fresh ↔ none = some w := fun w =>
      iff_of_false (fun mem => there ⟨w, mem⟩) nofun
    rw [get?_replaced_eq low puts each]
    exact iff_of_false nofun fun mem => there ⟨value, mem⟩

end Table

namespace StatisticName

variable {name : StatisticName} {kind : CardinalityKind}

/-- The keys of the counts of a kind are those with its beginning. -/
theorem lead_prefix_iff (clear : name.Clear) :
    Index.kindKey kind ++ [componentEnd] <+: name.key ↔ ∃ values, name = .count kind values := by
  have tag (k : CardinalityKind) : componentEnd ∉ Text.utf8 k.tag := by cases k <;> decide
  have start : (Index.kindKey kind ++ [componentEnd]).take 2 = (Text.utf8 "card").take 2 := by
    cases kind <;> rfl
  have other {r : Bytes} (apart : (Text.utf8 "card").take 2 ≠ r.take 2) :
      ¬ Index.kindKey kind ++ [componentEnd] <+: r := by
    intro h
    have long : 2 ≤ (Index.kindKey kind ++ [componentEnd]).length := by cases kind <;> decide
    rw [← start, List.prefix_iff_eq_take.1 h, List.take_take, Nat.min_eq_left long] at apart
    exact apart rfl
  cases name with
  | count kind' values =>
    obtain ⟨arity, _⟩ := clear
    cases values with
    | nil => cases kind' <;> cases arity
    | cons v rest =>
      have whole : (count kind' (v :: rest)).key = Text.utf8 "card" ++ componentEnd ::
          (Text.utf8 kind'.tag ++ componentEnd :: joined v rest) := by
        simp only [key, sort, parts, joined_cons]
      have begin : Index.kindKey kind ++ [componentEnd] =
          Text.utf8 "card" ++ componentEnd :: (Text.utf8 kind.tag ++ [componentEnd]) := by
        simp [Index.kindKey]
      rw [whole, begin, List.prefix_append_right_inj, List.cons_prefix_cons, delimited_prefix_iff
        (tag kind) (tag kind')]
      constructor
      · rintro ⟨_, tags⟩
        have kinds : kind = kind' := by
          cases kind <;> cases kind' <;> first | rfl | exact absurd tags (by decide)
        exact ⟨v :: rest, kinds ▸ rfl⟩
      · rintro ⟨_, same⟩
        cases same
        exact ⟨rfl, rfl⟩
  | selectivity first second =>
    have apart : (Text.utf8 "card").take 2 ≠ (Text.utf8 "sel").take 2 := by decide
    refine iff_of_false (other apart) ?_
    rintro ⟨_, same⟩
    cases same
  | size =>
    refine iff_of_false (other (by decide)) ?_
    rintro ⟨_, same⟩
    cases same

end StatisticName

namespace Index

variable {ix : Index} {s : Snapshot} {fresh : List Mutation}

/-- No two counts of the snapshot have one key, and no two selectivities. -/
structure KeysApart (ix : Index) (s : Snapshot) : Prop where
  counts : s.cardinalities.Pairwise fun e d => ∀ key,
    ix.cardinalityKey e.1.1 e.1.2 = .ok key → ix.cardinalityKey d.1.1 d.1.2 ≠ .ok key
  selectivities : s.selectivities.Pairwise fun e d => ∀ key,
    selectivityKey e.1.1 e.1.2 = .ok key → selectivityKey d.1.1 d.1.2 ≠ .ok key

/-- Of elements whose keys are all different, one is found by its key. -/
theorem eq_of_keyed {α : Type} {keyOf : α → Except Error Bytes} {xs : List α}
    (apart : xs.Pairwise fun x y => ∀ key, keyOf x = .ok key → keyOf y ≠ .ok key) {x y : α}
    (hx : x ∈ xs) (hy : y ∈ xs) {key : Bytes} (left : keyOf x = .ok key)
    (right : keyOf y = .ok key) : x = y := by
  have symmetric : Std.Symm fun x y => ∀ key, keyOf x = .ok key → keyOf y ≠ .ok key :=
    ⟨fun _ _ h key left right => h key right left⟩
  by_contra other
  exact apart.forall hx hy other key left right

/-- A snapshot has one number for what a number is about. -/
theorem KeysApart.puts_inj (apart : ix.KeysApart s) {name : StatisticName} {v w : UInt64}
    (hv : ix.Puts s name v) (hw : ix.Puts s name w) : v = w := by
  cases hv with
  | count mem arity encoded =>
    cases hw with
    | count mem' arity' encoded' =>
      have key := cardinalityKey_eq_ok_iff.2 ⟨arity, _, encoded, rfl⟩
      have key' := cardinalityKey_eq_ok_iff.2 ⟨arity', _, encoded', rfl⟩
      exact congrArg Prod.snd (eq_of_keyed apart.counts mem mem' key key')
  | selectivity mem left right =>
    cases hw with
    | selectivity mem' left' right' =>
      have key := selectivityKey_eq_ok_iff.2 ⟨_, _, left, right, rfl⟩
      have key' := selectivityKey_eq_ok_iff.2 ⟨_, _, left', right', rfl⟩
      exact congrArg (fun e => e.2.toBits) (eq_of_keyed apart.selectivities mem mem' key key')
  | size =>
    cases hw
    rfl

/-- The keys of elements with different keys are as many as the elements. -/
theorem length_eq_of_keyed {α : Type} {keyOf : α → Except Error Bytes} {xs : List α}
    (apart : xs.Pairwise fun x y => ∀ key, keyOf x = .ok key → keyOf y ≠ .ok key)
    (keyed : ∀ x ∈ xs, ∃ key, keyOf x = .ok key) {keys : List Bytes} (nodup : keys.Nodup)
    (members : ∀ key, key ∈ keys ↔ ∃ x ∈ xs, keyOf x = .ok key) : keys.length = xs.length := by
  cases all : xs.mapM keyOf with
  | error e =>
    obtain ⟨x, mem, failed⟩ := mapM_eq_error all
    obtain ⟨key, written⟩ := keyed x mem
    cases failed.symm.trans written
  | ok written =>
    have images := mapM_eq_ok_iff.1 all
    have distinct : (written.map Except.ok : List (Except Error Bytes)).Nodup := by
      rw [← images]
      refine List.pairwise_map.2 (apart.imp_of_mem fun {x y} hx _ h same => ?_)
      obtain ⟨key, own⟩ := keyed x hx
      exact h key own (same ▸ own)
    have perm : keys.Perm written := by
      refine (List.perm_ext_iff_of_nodup nodup distinct.of_map).2 fun key => ?_
      rw [members]
      constructor
      · rintro ⟨x, mem, own⟩
        obtain ⟨key', mem', own'⟩ := exists_mem_of_mapM all mem
        cases own.symm.trans own'
        exact mem'
      · exact exists_mem_of_mem_mapM all
    have length := congrArg List.length images
    rw [List.length_map, List.length_map] at length
    rw [perm.length_eq, length]

/-- A key that does not begin with 0xff lies below it. -/
theorem lt_largest {key : Bytes} (h : key.head? ≠ some 0xff) : key < [0xff] := by
  cases key with
  | nil => exact List.nil_lt_cons _ _
  | cons b rest =>
    have apart : b.toNat ≠ 255 := fun same => h (congrArg some (UInt8.toNat_inj.1 same))
    have := b.toNat_lt
    have bound : (0xff : UInt8).toNat = 255 := rfl
    rw [List.cons_lt_cons_iff, UInt8.lt_iff_toNat_lt]
    exact .inl (by omega)

/-- What at most one element has of a property, if any. -/
theorem exists_found {α : Type} {P : α → Prop} (once : ∀ a b, P a → P b → a = b) :
    ∃ found : Option α, ∀ a, found = some a ↔ P a := by
  by_cases there : ∃ a, P a
  · obtain ⟨a, holds⟩ := there
    refine ⟨some a, fun b => ?_⟩
    rw [Option.some.injEq]
    exact ⟨fun same => same ▸ holds, once a b holds⟩
  · exact ⟨none, fun a => iff_of_false nofun fun holds => there ⟨a, holds⟩⟩

/-- Under the standard codings nothing is written with a delimiter. -/
theorem leadsClear_of_known (built : ix.codec.registry.Built) {values : List Value}
    (known : ∀ v ∈ values.dropLast, ∀ c ∈ ix.codec.registry.codings,
      v.datatype? = some c.datatype → c ∈ LiteralCoding.standard) : ix.LeadsClear values :=
  fun v mem _ encoded =>
    (built.above_of_stored (Registry.stored_of_encode encoded) (known v mem)).not_mem (by decide)

theorem exists_orderedPair_encode {a b : Iri} {first second : Bytes} (left : a.encode = .ok first)
    (right : b.encode = .ok second) : ∃ low high, (orderedPair a b).1.encode = .ok low ∧
      (orderedPair a b).2.encode = .ok high := by
  unfold orderedPair
  split
  · exact ⟨_, _, left, right⟩
  · exact ⟨_, _, right, left⟩

/-- The number of counts of a kind is that of the keys in its range. -/
theorem countEntries_eq_length (ix : Index) {store : Store} (working : store.faults = {})
    (kind : CardinalityKind) : Gives (ix.countEntries store kind)
      (.ok ((store.tables ix.settings.statisticsTable).inRange
        (.startingWith (kindKey kind ++ [componentEnd]))).length) := by
  unfold countEntries
  refine (Store.scan_gives working _ _).bind ?_
  rw [Cursor.drain_working]
  refine (keys_gives _).bind ((Cursor.close_working []).bind ?_)
  rw [List.length_map]
  exact .pure _

section

variable {store : Store} (h : ix.writesOf s = .ok fresh)
  (leads : ∀ e ∈ s.cardinalities, ix.LeadsClear e.1.2)

include h leads

/-- The selectivity found for two predicates, in whichever order, is that of the entry with the same
two predicates. -/
theorem joinSelectivity_gives (working : store.faults = {}) {a b : Iri} {first second : Bytes}
    (left : a.encode = .ok first) (right : b.encode = .ok second) {found : Option UInt64}
    (each : ∀ w, found = some w ↔ ∃ c d x, ((c, d), x) ∈ s.selectivities ∧
      orderedPair c d = orderedPair a b ∧ w = x.toBits) :
    Gives ((ix.storedStatistics (ix.withStatistics store fresh)).joinSelectivity a b)
      (.ok (found.map Float.ofBits)) := by
  obtain ⟨low, high, lower, upper⟩ := exists_orderedPair_encode left right
  have key := selectivityKey_eq_ok_iff.2 ⟨low, high, lower, upper, rfl⟩
  have clear : (StatisticName.selectivity low high).Clear :=
    (Iri.encode_eq_ok_iff.1 lower).2.not_mem (by decide)
  dsimp only [storedStatistics]
  rw [key]
  refine Gives.bind (.lift rfl) (Gives.bind (a := found) ?_ (.pure _))
  refine storedWord?_withStatistics working h leads clear fun w => ?_
  rw [each]
  constructor
  · rintro ⟨c, d, x, mem, same, rfl⟩
    exact .selectivity mem (same ▸ lower) (same ▸ upper)
  · intro puts
    cases puts with
    | selectivity mem lower' upper' =>
      exact ⟨_, _, _, mem, Prod.ext (Iri.encode_injective lower' lower)
        (Iri.encode_injective upper' upper), rfl⟩

variable (apart : ix.KeysApart s)
  (low : ∀ e ∈ (store.tables ix.settings.statisticsTable).entries, e.1 < [0xff])

include apart low

/-- The table holds what the snapshot has, and nothing else. -/
theorem get?_withStatistics_iff {key value : Bytes} :
    ((ix.withStatistics store fresh).tables ix.settings.statisticsTable).get? key = some value ↔
      .put key value ∈ fresh := by
  have own : (ix.withStatistics store fresh).tables ix.settings.statisticsTable =
      (store.tables ix.settings.statisticsTable).replaced fresh := if_pos rfl
  rw [own]
  refine Table.get?_replaced_iff low (fun m mem => ?_) fun v w hv hw => ?_
  · obtain ⟨_, _, _, rfl⟩ := (mem_writesOf_iff_puts h).1 mem
    exact ⟨_, _, rfl⟩
  · obtain ⟨name, n, puts, same⟩ := (mem_writesOf_iff_puts h).1 hv
    obtain ⟨other, m, puts', same'⟩ := (mem_writesOf_iff_puts h).1 hw
    obtain ⟨rfl, rfl⟩ := Mutation.put.inj same
    obtain ⟨keys, rfl⟩ := Mutation.put.inj same'
    obtain rfl := (StatisticName.key_inj (puts.clear leads) (puts'.clear leads)).1 keys
    rw [apart.puts_inj puts puts']

/-- The keys in the range of a kind are those of the snapshot's counts of this kind. -/
theorem mem_inRange_kind_iff {kind : CardinalityKind} {key : Bytes} :
    key ∈ (((ix.withStatistics store fresh).tables ix.settings.statisticsTable).inRange
      (.startingWith (kindKey kind ++ [componentEnd]))).map (·.1) ↔
      ∃ e ∈ s.cardinalities.filter fun e => e.1.1 = kind,
        ix.cardinalityKey e.1.1 e.1.2 = .ok key := by
  have lead : ∃ b ∈ kindKey kind ++ [componentEnd], b ≠ 0xff := ⟨componentEnd, by simp, by decide⟩
  have holds (value : Bytes) : ((ix.withStatistics store fresh).tables
      ix.settings.statisticsTable).get? key = some value ↔ .put key value ∈ fresh :=
    get?_withStatistics_iff h leads apart low
  simp only [Table.inRange, List.mem_map, List.mem_filter, ByteRange.contains_startingWith_iff lead]
  constructor
  · rintro ⟨⟨_, value⟩, ⟨mem, begins⟩, rfl⟩
    obtain ⟨name, w, puts, same⟩ :=
      (mem_writesOf_iff_puts h).1 ((holds value).1 (Table.get?_eq_some_iff.2 mem))
    obtain ⟨rfl, rfl⟩ := Mutation.put.inj same
    obtain ⟨values, rfl⟩ := (StatisticName.lead_prefix_iff (puts.clear leads)).1 begins
    cases puts with
    | count mem arity encoded =>
      exact ⟨_, ⟨mem, by simp⟩, cardinalityKey_eq_ok_iff.2 ⟨arity, _, encoded, rfl⟩⟩
  · rintro ⟨⟨⟨kind', values⟩, n⟩, ⟨mem, same⟩, keyed⟩
    obtain rfl : kind' = kind := of_decide_eq_true same
    obtain ⟨arity, parts, encoded, rfl⟩ := cardinalityKey_eq_ok_iff.1 keyed
    have puts : ix.Puts s (.count kind' parts) n := .count mem arity encoded
    have written := (mem_writesOf_iff_puts h).2 ⟨_, _, puts, rfl⟩
    exact ⟨(_, Word.encode n), ⟨Table.get?_eq_some_iff.1 ((holds _).2 written),
      (StatisticName.lead_prefix_iff (puts.clear leads)).2 ⟨parts, rfl⟩⟩, rfl⟩

/-- There are as many counts of a kind as the snapshot has. -/
theorem countEntries_gives (working : store.faults = {}) (kind : CardinalityKind) :
    Gives (ix.countEntries (ix.withStatistics store fresh) kind)
      (.ok (s.cardinalities.countP fun e => e.1.1 = kind)) := by
  have working' : (ix.withStatistics store fresh).faults = {} := working
  have count := ix.countEntries_eq_length working' kind
  have nodup : ((((ix.withStatistics store fresh).tables ix.settings.statisticsTable).inRange
      (.startingWith (kindKey kind ++ [componentEnd]))).map (·.1)).Nodup := by
    refine List.pairwise_map.2 (((Table.sorted _).filter _).imp fun {e d} less same => ?_)
    rw [same] at less
    exact List.lt_irrefl _ less
  have keyed : ∀ e ∈ s.cardinalities.filter fun e => e.1.1 = kind,
      ∃ key, ix.cardinalityKey e.1.1 e.1.2 = .ok key := by
    intro e mem
    obtain ⟨arity, parts, encoded⟩ := encodes_of_writesOf h (List.mem_filter.1 mem).1
    exact ⟨_, cardinalityKey_eq_ok_iff.2 ⟨arity, parts, encoded, rfl⟩⟩
  have length := length_eq_of_keyed (apart.counts.filter _) keyed nodup
    fun _ => mem_inRange_kind_iff h leads apart low
  rw [List.length_map] at length
  rwa [length, ← List.countP_eq_length_filter] at count

/-- The keys of the table are those of the snapshot's numbers. -/
theorem exists_value_iff {key : Bytes} :
    (∃ value, ((ix.withStatistics store fresh).tables ix.settings.statisticsTable).get? key =
      some value) ↔
      (∃ x ∈ s.cardinalities, ix.cardinalityKey x.1.1 x.1.2 = .ok key) ∨
      (∃ x ∈ s.selectivities, selectivityKey x.1.1 x.1.2 = .ok key) ∨ key = sizeKey := by
  simp only [get?_withStatistics_iff h leads apart low, mem_writesOf h, countWrite_eq_ok_iff,
    selectivityWrite_eq_ok_iff, Mutation.put.injEq]
  constructor
  · rintro ⟨_, ⟨x, mem, _, keyed, rfl, _⟩ | ⟨x, mem, _, keyed, rfl, _⟩ | ⟨rfl, _⟩⟩
    · exact .inl ⟨x, mem, keyed⟩
    · exact .inr (.inl ⟨x, mem, keyed⟩)
    · exact .inr (.inr rfl)
  · rintro (⟨x, mem, keyed⟩ | ⟨x, mem, keyed⟩ | rfl)
    · exact ⟨_, .inl ⟨x, mem, key, keyed, rfl, rfl⟩⟩
    · exact ⟨_, .inr (.inl ⟨x, mem, key, keyed, rfl, rfl⟩)⟩
    · exact ⟨_, .inr (.inr ⟨rfl, rfl⟩)⟩

omit low in
/-- The count of values is that of the entry whose values have the same bytes. -/
theorem exists_cardinality (working : store.faults = {}) {kind : CardinalityKind}
    {values : List Value} {parts : List Bytes} (arity : values.length = kind.arity)
    (encoded : values.mapM ix.codec.registry.encode = .ok parts) (lead : ix.LeadsClear values) :
    ∃ found, Gives ((ix.storedStatistics (ix.withStatistics store fresh)).cardinality kind values)
        (.ok found) ∧
      ∀ n, found = some n ↔ ∃ others, ((kind, others), n) ∈ s.cardinalities ∧
        others.mapM ix.codec.registry.encode = .ok parts := by
  obtain ⟨found, each⟩ := exists_found (P := fun n => ∃ others,
      ((kind, others), n) ∈ s.cardinalities ∧ others.mapM ix.codec.registry.encode = .ok parts) <| by
    rintro v w ⟨others, mem, encoded⟩ ⟨others', mem', encoded'⟩
    exact apart.puts_inj (.count mem (encodes_of_writesOf h mem).1 encoded)
      (.count mem' (encodes_of_writesOf h mem').1 encoded')
  refine ⟨found, cardinality_gives working h leads lead arity encoded fun n => ?_, each⟩
  rw [each]
  constructor
  · rintro ⟨others, mem, encoded⟩
    exact ⟨others, mem, (encodes_of_writesOf h mem).1, encoded⟩
  · rintro ⟨others, mem, _, encoded⟩
    exact ⟨others, mem, encoded⟩

omit low in
/-- The selectivity of two predicates is that of the entry with the same two. -/
theorem exists_joinSelectivity (working : store.faults = {}) {a b : Iri} {first second : Bytes}
    (left : a.encode = .ok first) (right : b.encode = .ok second) :
    ∃ found : Option UInt64,
      Gives ((ix.storedStatistics (ix.withStatistics store fresh)).joinSelectivity a b)
        (.ok (found.map Float.ofBits)) ∧
      Gives ((ix.storedStatistics (ix.withStatistics store fresh)).joinSelectivity b a)
        (.ok (found.map Float.ofBits)) ∧
      ∀ w, found = some w ↔ ∃ c d x, ((c, d), x) ∈ s.selectivities ∧
        orderedPair c d = orderedPair a b ∧ w = x.toBits := by
  obtain ⟨low, high, lower, upper⟩ := exists_orderedPair_encode left right
  have name {c d : Iri} {x : Float} (mem : ((c, d), x) ∈ s.selectivities)
      (same : orderedPair c d = orderedPair a b) : ix.Puts s (.selectivity low high) x.toBits :=
    .selectivity mem (same ▸ lower) (same ▸ upper)
  obtain ⟨found, each⟩ := exists_found (P := fun w => ∃ c d x, ((c, d), x) ∈ s.selectivities ∧
      orderedPair c d = orderedPair a b ∧ w = x.toBits) <| by
    rintro _ _ ⟨c, d, x, mem, same, rfl⟩ ⟨c', d', x', mem', same', rfl⟩
    exact apart.puts_inj (name mem same) (name mem' same')
  exact ⟨found, joinSelectivity_gives h leads working left right each,
    joinSelectivity_gives h leads working right left (orderedPair_comm a b ▸ each), each⟩

end

/-- Putting down a snapshot whose numbers have different keys fails, and writes nothing, only where one
of them has no key. Otherwise no other table changes, the table of statistics has the keys of the
snapshot and no others, and every number is found: the number of quads, how many counts of a kind there
are, the count of values with given bytes, and the selectivity of two predicates in either order. -/
theorem replaced_statistics (ix : Index) (tables : String → Table)
    (low : ∀ e ∈ (tables ix.settings.statisticsTable).entries, e.1.head? ≠ some 0xff)
    (s : Snapshot) (apart : ix.KeysApart s)
    (leads : ∀ e ∈ s.cardinalities, ix.LeadsClear e.1.2) :
    (∃ e, Gives (ix.replaceStatistics { tables } s) (.error e) ∧
      ((∃ x ∈ s.cardinalities, ix.cardinalityKey x.1.1 x.1.2 = .error e) ∨
        ∃ x ∈ s.selectivities, selectivityKey x.1.1 x.1.2 = .error e)) ∨
    ∃ next : Store, Gives (ix.replaceStatistics { tables } s) (.ok next) ∧
      (∀ name, name ≠ ix.settings.statisticsTable → next.tables name = tables name) ∧
      (∀ key, (∃ value, (next.tables ix.settings.statisticsTable).get? key = some value) ↔
        (∃ x ∈ s.cardinalities, ix.cardinalityKey x.1.1 x.1.2 = .ok key) ∨
        (∃ x ∈ s.selectivities, selectivityKey x.1.1 x.1.2 = .ok key) ∨ key = sizeKey) ∧
      Gives (ix.storedStatistics next).tableSize (.ok (some s.size)) ∧
      (∀ kind, Gives (ix.countEntries next kind)
        (.ok (s.cardinalities.countP fun e => e.1.1 = kind))) ∧
      (∀ kind values parts, values.length = kind.arity →
        values.mapM ix.codec.registry.encode = .ok parts → ix.LeadsClear values →
        ∃ found, Gives ((ix.storedStatistics next).cardinality kind values) (.ok found) ∧
          ∀ n, found = some n ↔ ∃ others, ((kind, others), n) ∈ s.cardinalities ∧
            others.mapM ix.codec.registry.encode = .ok parts) ∧
      ∀ a b first second, a.encode = .ok first → b.encode = .ok second →
        ∃ found : Option UInt64,
          Gives ((ix.storedStatistics next).joinSelectivity a b) (.ok (found.map Float.ofBits)) ∧
          Gives ((ix.storedStatistics next).joinSelectivity b a) (.ok (found.map Float.ofBits)) ∧
          ∀ w, found = some w ↔ ∃ c d x, ((c, d), x) ∈ s.selectivities ∧
            orderedPair c d = orderedPair a b ∧ w = x.toBits := by
  have low : ∀ e ∈ (tables ix.settings.statisticsTable).entries, e.1 < [0xff] :=
    fun e mem => lt_largest (low e mem)
  have given := @replaceStatistics_gives ix { tables } rfl s
  cases h : ix.writesOf s with
  | error e =>
    rw [h] at given
    refine .inl ⟨e, given, ?_⟩
    rcases writesOf_eq_error h with ⟨x, mem, failed⟩ | ⟨x, mem, failed⟩
    · rcases bind_eq_error_iff.1 failed with failed | ⟨_, _, failed⟩
      · exact .inl ⟨x, mem, failed⟩
      · cases failed
    · rcases bind_eq_error_iff.1 failed with failed | ⟨_, _, failed⟩
      · exact .inr ⟨x, mem, failed⟩
      · cases failed
  | ok fresh =>
    rw [h] at given
    exact .inr ⟨_, given, fun name other => if_neg other,
      fun key => exists_value_iff h leads apart low, tableSize_gives rfl h leads,
      countEntries_gives h leads apart low rfl,
      fun _ _ _ => exists_cardinality h leads apart rfl,
      fun _ _ _ _ => exists_joinSelectivity h leads apart rfl⟩

/-- What the table held before is gone, and the one count of the snapshot is found. -/
theorem replaced_statistics_stale :
    let ix : Index := {}
    let stale : Table := Table.empty.put (Text.utf8 "card") []
    let s : Snapshot :=
      { size := 2
        cardinalities := [((.subject, [.iri ⟨"s"⟩]), 2)]
        selectivities := [((⟨"p"⟩, ⟨"q"⟩), 0.5)] }
    ∃ next, Gives (ix.replaceStatistics { tables := fun _ => stale } s) (.ok next) ∧
      (next.tables ix.settings.statisticsTable).get? (Text.utf8 "card") = none ∧
      Gives (ix.countEntries next .subject) (.ok 1) ∧
      Gives ((ix.storedStatistics next).cardinality .subject [.iri ⟨"s"⟩]) (.ok (some 2)) := by
  intro ix stale s
  have low : ∀ e ∈ stale.entries, e.1.head? ≠ some 0xff := by decide
  have apart : ix.KeysApart s := ⟨List.pairwise_singleton _ _, List.pairwise_singleton _ _⟩
  have standard (values : List Value) : ix.LeadsClear values :=
    .of_lawful Registry.standard_lawful values
  rcases replaced_statistics ix (fun _ => stale) low s apart fun _ _ => standard _ with
    ⟨e, _, ⟨x, mem, failed⟩ | ⟨x, mem, failed⟩⟩ | ⟨next, given, _, keys, _, entries, counts, _⟩
  · obtain rfl := List.mem_singleton.1 mem
    cases failed
  · obtain rfl := List.mem_singleton.1 mem
    cases failed
  · refine ⟨next, given, ?_, entries .subject, ?_⟩
    · refine Option.eq_none_iff_forall_ne_some.2 fun value there => ?_
      rcases (keys _).1 ⟨value, there⟩ with ⟨x, mem, keyed⟩ | ⟨x, mem, keyed⟩ | same
      · obtain rfl := List.mem_singleton.1 mem
        exact absurd (Except.ok.inj keyed) (by decide)
      · obtain rfl := List.mem_singleton.1 mem
        exact absurd (Except.ok.inj keyed) (by decide)
      · exact absurd same (by decide)
    · obtain ⟨found, gives, each⟩ :=
        counts .subject [.iri ⟨"s"⟩] [0x49 :: Text.utf8 "s"] rfl rfl (standard _)
      rwa [(each 2).2 ⟨_, .head _, rfl⟩] at gives

/-- A coding that writes a delimiter makes counts of different values share a key: the count found is
that of other values. -/
theorem replaced_colliding :
    ∃ r, Registry.standard.register .hexadecimal = .ok r ∧
      let ix : Index := { codec := { registry := r } }
      let h (digits : String) : Value := .literal LiteralCoding.hexadecimal.datatype digits
      let s : Snapshot :=
        { cardinalities := [((.subjectObject, [h "61", h "62006863"]), 7)] }
      ∃ next, Gives (ix.replaceStatistics {} s) (.ok next) ∧
        Gives ((ix.storedStatistics next).cardinality .subjectObject [h "61006862", h "63"])
          (.ok (some 7)) ∧
        ∃ parts others, [h "61006862", h "63"].mapM r.encode = .ok parts ∧
          [h "61", h "62006863"].mapM r.encode = .ok others ∧ parts ≠ others := by
  let r : Registry := ⟨LiteralCoding.standard ++ [.hexadecimal]⟩
  refine ⟨r, rfl, ?_⟩
  intro ix h s
  obtain ⟨key, keyed⟩ : ∃ key, ix.cardinalityKey .subjectObject [h "61", h "62006863"] = .ok key :=
    ⟨_, rfl⟩
  have shared : ix.cardinalityKey .subjectObject [h "61006862", h "63"] = .ok key := keyed ▸ rfl
  have other : key ≠ sizeKey := by
    obtain rfl := Except.ok.inj keyed
    decide
  have written : ix.writesOf s =
      .ok [.put key (Word.encode 7), .put sizeKey (Word.encode s.size)] := by
    rw [writesOf_eq]
    simp only [s, List.mapM_cons, countWrite, keyed]
    rfl
  have given := @replaceStatistics_gives ix {} rfl s
  rw [written] at given
  refine ⟨_, given, ?_, _, _, rfl, rfl, by decide⟩
  dsimp only [storedStatistics]
  rw [shared]
  refine Gives.bind (.lift rfl) (storedWord?_gives rfl ?_)
  refine (Table.get?_replaced_iff (t := .empty) (fun _ mem => absurd mem List.not_mem_nil)
    ?_ ?_).2 (.head _)
  · intro m mem
    rcases List.mem_cons.1 mem with rfl | mem
    · exact ⟨_, _, rfl⟩
    · obtain rfl := List.mem_singleton.1 mem
      exact ⟨_, _, rfl⟩
  · intro v w hv hw
    have own {u : Bytes} (mem : Mutation.put key u ∈ [Mutation.put key (Word.encode 7),
        .put sizeKey (Word.encode s.size)]) : u = Word.encode 7 := by simpa [other] using mem
    rw [own hv, own hw]

end Index

end QuadIndex
