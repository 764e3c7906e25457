import QuadIndex.Proofs.Key.Component
import QuadIndex.Proofs.Store.Scan
import QuadIndex.Proofs.Store.Sequential
import QuadIndex.Statistics.Stored

/-!
# Stored statistics are found again

The key of a stored number joins parts of which at most the last holds a delimiter, and the first tells
counts, selectivities and the number of all quads apart. So two numbers have one key only where they
are about the same kind and the same bytes (`StatisticName.key_inj`), and what is found under a key
after a snapshot has replaced all statistics is what the snapshot has for it (`cardinality_gives`).
-/

namespace QuadIndex

open Bytes Result Reading

/-! ## Keys -/

/-- A beginning and further parts, each after a delimiter. -/
def Bytes.joined (first : Bytes) (rest : List Bytes) : Bytes :=
  first ++ rest.flatMap fun part => componentEnd :: part

theorem Bytes.joined_cons (first part : Bytes) (rest : List Bytes) :
    joined first (part :: rest) = first ++ componentEnd :: joined part rest := by simp [joined]

/-- Joined parts of one number are told apart if no part but the last holds a delimiter. -/
theorem Bytes.joined_inj {first other : Bytes} {rest others : List Bytes}
    (length : rest.length = others.length)
    (clear : ∀ part ∈ (first :: rest).dropLast, componentEnd ∉ part)
    (clear' : ∀ part ∈ (other :: others).dropLast, componentEnd ∉ part)
    (same : joined first rest = joined other others) : first = other ∧ rest = others := by
  induction rest generalizing first other others with
  | nil =>
    obtain rfl := List.length_eq_zero_iff.1 length.symm
    exact ⟨by simpa [joined] using same, rfl⟩
  | cons part rest ih =>
    cases others with
    | nil => cases length
    | cons part' others =>
      rw [List.dropLast_cons_cons, List.forall_mem_cons] at clear clear'
      rw [joined_cons, joined_cons] at same
      obtain ⟨rfl, tails⟩ := closed_inj clear.1 clear'.1 same
      obtain ⟨rfl, rfl⟩ := ih (Nat.succ.inj length) clear.2 clear'.2 tails
      exact ⟨rfl, rfl⟩

/-- What a stored number is about, in bytes. -/
inductive StatisticName where
  | count (kind : CardinalityKind) (values : List Bytes)
  | selectivity (first second : Bytes)
  | size

namespace StatisticName

variable {s t : StatisticName}

/-- What keys of its sort begin with. -/
def sort : StatisticName → Bytes
  | count _ _ => Text.utf8 "card"
  | selectivity _ _ => Text.utf8 "sel"
  | size => Text.utf8 "size"

/-- What its key goes on with. -/
def parts : StatisticName → List Bytes
  | count kind values => Text.utf8 kind.tag :: values
  | selectivity first second => [first, second]
  | size => []

/-- The key of the number. -/
def key (s : StatisticName) : Bytes := joined s.sort s.parts

/-- The bytes are of as many values as the kind takes, and no part holds a delimiter but the last. -/
def Clear : StatisticName → Prop
  | count kind values =>
    values.length = kind.arity ∧ ∀ part ∈ values.dropLast, componentEnd ∉ part
  | selectivity first _ => componentEnd ∉ first
  | size => True

/-- Keys of different sorts differ in their first two bytes. -/
theorem take_sort_of_key (same : s.key = t.key) : s.sort.take 2 = t.sort.take 2 := by
  have lead (r : StatisticName) : r.key.take 2 = r.sort.take 2 := by cases r <;> rfl
  rw [← lead s, same, lead t]

theorem count_inj {kind kind' : CardinalityKind} {values values' : List Bytes}
    (hs : (count kind values).Clear) (ht : (count kind' values').Clear)
    (same : (count kind values).key = (count kind' values').key) : kind = kind' ∧ values = values' := by
  have card : componentEnd ∉ Text.utf8 "card" := by decide
  have tag (k : CardinalityKind) : componentEnd ∉ Text.utf8 k.tag := by cases k <;> decide
  obtain ⟨arity, clear⟩ := hs
  obtain ⟨arity', clear'⟩ := ht
  have some {k : CardinalityKind} {vs : List Bytes} (h : vs.length = k.arity) :
      ∃ v rest, vs = v :: rest := by
    cases vs with
    | nil => cases k <;> cases h
    | cons v rest => exact ⟨v, rest, rfl⟩
  obtain ⟨v, rest, rfl⟩ := some arity
  obtain ⟨v', rest', rfl⟩ := some arity'
  simp only [key, sort, parts, joined_cons] at same
  obtain ⟨tags, tails⟩ := closed_inj (tag _) (tag _) (closed_inj card card same).2
  have kinds : kind = kind' := by
    cases kind <;> cases kind' <;> first | rfl | exact absurd tags (by decide)
  subst kinds
  obtain ⟨rfl, rfl⟩ := joined_inj (Nat.succ.inj (arity.trans arity'.symm)) clear clear' tails
  exact ⟨rfl, rfl⟩

/-- Keys tell what numbers are about. -/
theorem key_inj (hs : s.Clear) (ht : t.Clear) : s.key = t.key ↔ s = t := by
  have card_sel : (Text.utf8 "card").take 2 ≠ (Text.utf8 "sel").take 2 := by decide
  have card_size : (Text.utf8 "card").take 2 ≠ (Text.utf8 "size").take 2 := by decide
  have sel_size : (Text.utf8 "sel").take 2 ≠ (Text.utf8 "size").take 2 := by decide
  constructor
  · intro same
    have sorts := take_sort_of_key same
    cases s with
    | count kind values =>
      cases t with
      | count kind' values' =>
        obtain ⟨rfl, rfl⟩ := count_inj hs ht same
        rfl
      | selectivity => exact absurd sorts card_sel
      | size => exact absurd sorts card_size
    | selectivity first second =>
      cases t with
      | count => exact absurd sorts.symm card_sel
      | selectivity first' second' =>
        have clear : componentEnd ∉ Text.utf8 "sel" := by decide
        simp only [key, sort, parts, joined_cons] at same
        obtain ⟨rfl, tails⟩ := closed_inj hs ht (closed_inj clear clear same).2
        rw [joined, joined, List.flatMap_nil, List.append_nil, List.append_nil] at tails
        rw [tails]
      | size => exact absurd sorts sel_size
    | size =>
      cases t with
      | count => exact absurd sorts.symm card_size
      | selectivity => exact absurd sorts.symm sel_size
      | size => rfl
  · rintro rfl
    rfl

/-- Keys begin with a byte below 0xff. -/
theorem key_lt_largest (s : StatisticName) : s.key < [0xff] := by
  have low : ∃ b rest, s.sort = b :: rest ∧ b < 0xff := by
    cases s <;> exact ⟨_, _, rfl, by decide⟩
  obtain ⟨b, rest, same, less⟩ := low
  rw [key, joined, same, List.cons_append, List.cons_lt_cons_iff]
  exact .inl less

end StatisticName

namespace Index

variable {ix : Index} {kind : CardinalityKind} {values : List Value} {key : Bytes} {a b : Iri}

theorem cardinalityKey_eq_ok_iff : ix.cardinalityKey kind values = .ok key ↔
    values.length = kind.arity ∧ ∃ parts, values.mapM ix.codec.registry.encode = .ok parts ∧
      key = (StatisticName.count kind parts).key := by
  have whole (parts : List Bytes) : kindKey kind ++ parts.flatMap (fun part => componentEnd :: part) =
      (StatisticName.count kind parts).key := by
    simp [kindKey, StatisticName.key, StatisticName.sort, StatisticName.parts, joined]
  unfold cardinalityKey
  split
  · next other => simp [other]
  · next same =>
    rw [bind_eq_ok_iff]
    simp only [pure, Except.pure, whole, Except.ok.injEq, not_not.1 same, true_and, eq_comm]

theorem selectivityKey_eq_ok_iff : selectivityKey a b = .ok key ↔
    ∃ first second, (orderedPair a b).1.encode = .ok first ∧
      (orderedPair a b).2.encode = .ok second ∧
      key = (StatisticName.selectivity first second).key := by
  have whole (first second : Bytes) :
      Text.utf8 "sel" ++ componentEnd :: (first ++ componentEnd :: second) =
        (StatisticName.selectivity first second).key := by
    simp [StatisticName.key, StatisticName.sort, StatisticName.parts, joined]
  unfold selectivityKey
  simp only [bind_eq_ok_iff, pure, Except.pure, whole, Except.ok.injEq]
  constructor
  · rintro ⟨first, left, second, right, same⟩
    exact ⟨first, second, left, right, same.symm⟩
  · rintro ⟨first, second, left, right, same⟩
    exact ⟨first, left, second, right, same.symm⟩

theorem sizeKey_eq : sizeKey = StatisticName.size.key := (List.append_nil _).symm

/-! ## Writes -/

/-- The write that puts down a count. -/
def countWrite (ix : Index) (e : (CardinalityKind × List Value) × UInt64) :
    Except Error Mutation := do
  return .put (← ix.cardinalityKey e.1.1 e.1.2) (Word.encode e.2)

/-- The write that puts down a selectivity. -/
def selectivityWrite (e : (Iri × Iri) × Float) : Except Error Mutation := do
  return .put (← selectivityKey e.1.1 e.1.2) (Word.encode e.2.toBits)

variable {s : Snapshot} {fresh : List Mutation} {m : Mutation}

theorem countWrite_eq_ok_iff {e : (CardinalityKind × List Value) × UInt64} :
    ix.countWrite e = .ok m ↔
      ∃ key, ix.cardinalityKey e.1.1 e.1.2 = .ok key ∧ m = .put key (Word.encode e.2) := by
  rw [countWrite, bind_eq_ok_iff]
  simp only [pure, Except.pure, Except.ok.injEq, eq_comm]

theorem selectivityWrite_eq_ok_iff {e : (Iri × Iri) × Float} : selectivityWrite e = .ok m ↔
    ∃ key, selectivityKey e.1.1 e.1.2 = .ok key ∧ m = .put key (Word.encode e.2.toBits) := by
  rw [selectivityWrite, bind_eq_ok_iff]
  simp only [pure, Except.pure, Except.ok.injEq, eq_comm]

theorem writesOf_eq (ix : Index) (s : Snapshot) : ix.writesOf s = (do
    let counts ← s.cardinalities.mapM ix.countWrite
    let selectivities ← s.selectivities.mapM selectivityWrite
    return counts ++ selectivities ++ [.put sizeKey (Word.encode s.size)]) := rfl

theorem mem_writesOf (h : ix.writesOf s = .ok fresh) : m ∈ fresh ↔
    (∃ e ∈ s.cardinalities, ix.countWrite e = .ok m) ∨
    (∃ e ∈ s.selectivities, selectivityWrite e = .ok m) ∨
    m = .put sizeKey (Word.encode s.size) := by
  simp only [writesOf_eq, bind_eq_ok_iff] at h
  obtain ⟨counts, hc, selectivities, hs, same⟩ := h
  cases same
  have image {α : Type} {f : α → Except Error Mutation} {xs : List α} {ms : List Mutation}
      (h : xs.mapM f = .ok ms) : m ∈ ms ↔ ∃ x ∈ xs, f x = .ok m := by
    refine ⟨exists_mem_of_mem_mapM h, ?_⟩
    rintro ⟨x, mem, written⟩
    obtain ⟨m', mem', written'⟩ := exists_mem_of_mapM h mem
    cases written.symm.trans written'
    exact mem'
  rw [List.mem_append, List.mem_append, List.mem_singleton, image hc, image hs, or_assoc]

/-- A snapshot is not put down only if one of its numbers has no key. -/
theorem writesOf_eq_error {e : Error} (h : ix.writesOf s = .error e) :
    (∃ x ∈ s.cardinalities, ix.countWrite x = .error e) ∨
    ∃ x ∈ s.selectivities, selectivityWrite x = .error e := by
  simp only [writesOf_eq, bind_eq_error_iff] at h
  rcases h with h | ⟨_, _, h | ⟨_, _, h⟩⟩
  · exact .inl (mapM_eq_error h)
  · exact .inr (mapM_eq_error h)
  · cases h

/-- The values of all counts that are put down have bytes. -/
theorem encodes_of_writesOf (h : ix.writesOf s = .ok fresh) {n : UInt64}
    (mem : ((kind, values), n) ∈ s.cardinalities) : values.length = kind.arity ∧
    ∃ parts, values.mapM ix.codec.registry.encode = .ok parts := by
  simp only [writesOf_eq, bind_eq_ok_iff] at h
  obtain ⟨counts, hc, _⟩ := h
  obtain ⟨m, _, written⟩ := exists_mem_of_mapM hc mem
  obtain ⟨key, encoded, _⟩ := countWrite_eq_ok_iff.1 written
  obtain ⟨arity, parts, encodes, _⟩ := cardinalityKey_eq_ok_iff.1 encoded
  exact ⟨arity, parts, encodes⟩

/-- The store with all statistics replaced by new ones. -/
def withStatistics (ix : Index) (store : Store) (fresh : List Mutation) : Store :=
  store.setTable ix.settings.statisticsTable
    ((store.tables ix.settings.statisticsTable).replaced fresh)

/-- The keys of entries that have all been read. -/
theorem keys_gives (entries : List (Bytes × Bytes)) :
    Gives ((entries.map Except.ok).mapM fun item : Except Error (Bytes × Bytes) =>
      (liftM (item.map (·.1)) : Reading Bytes)) (.ok (entries.map (·.1))) := by
  induction entries with
  | nil => exact .pure []
  | cons entry entries ih =>
    rw [List.map_cons, List.mapM_cons]
    exact Gives.bind (.lift rfl) (ih.bind (.pure _))

section

variable {store : Store} (working : store.faults = {})

include working

/-- Replacing the statistics fails only where the snapshot cannot be put down. -/
theorem replaceStatistics_gives (s : Snapshot) : Gives (ix.replaceStatistics store s)
    ((ix.writesOf s).map (ix.withStatistics store)) := by
  have planned : Gives (ix.replacement store s) ((ix.writesOf s).map fun fresh =>
      (Table.empty.applyAll fresh).replacing
        (((store.tables ix.settings.statisticsTable).inRange .full).map (·.1))) := by
    unfold replacement
    cases ix.writesOf s with
    | error e => exact Gives.bind_error (.lift rfl)
    | ok fresh =>
      refine Gives.bind (.lift rfl) ((Store.scan_gives working _ _).bind ?_)
      rw [Cursor.drain_working]
      exact (Cursor.close_working []).bind ((keys_gives _).bind (.pure _))
  unfold replaceStatistics
  cases h : ix.writesOf s with
  | error e =>
    rw [h] at planned
    exact planned.bind_error
  | ok fresh =>
    rw [h] at planned
    refine planned.bind ?_
    rw [Store.write_of_working working]
    exact .written _

/-- A word is read as it has been put down. -/
theorem storedWord?_gives {found : Option UInt64}
    (h : (store.tables ix.settings.statisticsTable).get? key = found.map Word.encode) :
    Gives (ix.storedWord? store key) (.ok found) := by
  unfold storedWord?
  refine (Store.get?_gives working _ key).bind ?_
  rw [h]
  cases found with
  | none => exact .pure _
  | some w =>
    rw [Option.map_some]
    dsimp only
    rw [Word.decode?_encode]
    exact .pure _

end

/-! ## Lookups -/

/-- What a snapshot has to be put down. -/
inductive Puts (ix : Index) (s : Snapshot) : StatisticName → UInt64 → Prop
  | count {kind : CardinalityKind} {values : List Value} {n : UInt64} {parts : List Bytes}
    (mem : ((kind, values), n) ∈ s.cardinalities) (arity : values.length = kind.arity)
    (encoded : values.mapM ix.codec.registry.encode = .ok parts) : Puts ix s (.count kind parts) n
  | selectivity {a b : Iri} {x : Float} {first second : Bytes} (mem : ((a, b), x) ∈ s.selectivities)
    (left : (orderedPair a b).1.encode = .ok first)
    (right : (orderedPair a b).2.encode = .ok second) :
    Puts ix s (.selectivity first second) x.toBits
  | size : Puts ix s .size s.size

section

variable {name : StatisticName} {w : UInt64}

/-- No value of a list but the last is written with a delimiter between parts. -/
def LeadsClear (ix : Index) (values : List Value) : Prop :=
  ∀ v ∈ values.dropLast, ∀ bs, ix.codec.registry.encode v = .ok bs → componentEnd ∉ bs

theorem LeadsClear.of_lawful (lawful : ix.codec.registry.Lawful) (values : List Value) :
    ix.LeadsClear values := fun _ _ _ encoded =>
  (Registry.above_of_stored lawful (Registry.stored_of_encode encoded)).not_mem (by decide)

theorem LeadsClear.clear (h : ix.LeadsClear values) {parts : List Bytes}
    (arity : values.length = kind.arity)
    (encoded : values.mapM ix.codec.registry.encode = .ok parts) :
    (StatisticName.count kind parts).Clear := by
  have images := mapM_eq_ok_iff.1 encoded
  refine ⟨?_, fun part mem => ?_⟩
  · rw [← arity, ← List.length_map ix.codec.registry.encode, images, List.length_map]
  · have image : Except.ok part ∈ (values.map ix.codec.registry.encode).dropLast := by
      rw [images, ← List.map_dropLast]
      exact List.mem_map.2 ⟨part, mem, rfl⟩
    rw [← List.map_dropLast] at image
    obtain ⟨v, mem', same⟩ := List.mem_map.1 image
    exact h v mem' part same

theorem Puts.clear (clear : ∀ e ∈ s.cardinalities, ix.LeadsClear e.1.2) (h : ix.Puts s name w) :
    name.Clear := by
  cases h with
  | count mem arity encoded => exact (clear _ mem).clear arity encoded
  | selectivity _ left _ => exact (Iri.encode_eq_ok_iff.1 left).2.not_mem (by decide)
  | size => exact trivial

/-- The writes of a snapshot put down what it has. -/
theorem mem_writesOf_iff_puts (h : ix.writesOf s = .ok fresh) :
    m ∈ fresh ↔ ∃ name w, ix.Puts s name w ∧ m = .put name.key (Word.encode w) := by
  rw [mem_writesOf h]
  constructor
  · rintro (⟨e, mem, written⟩ | ⟨e, mem, written⟩ | rfl)
    · obtain ⟨key, encoded, rfl⟩ := countWrite_eq_ok_iff.1 written
      obtain ⟨arity, parts, encodes, rfl⟩ := cardinalityKey_eq_ok_iff.1 encoded
      exact ⟨_, _, .count mem arity encodes, rfl⟩
    · obtain ⟨key, encoded, rfl⟩ := selectivityWrite_eq_ok_iff.1 written
      obtain ⟨first, second, left, right, rfl⟩ := selectivityKey_eq_ok_iff.1 encoded
      exact ⟨_, _, .selectivity mem left right, rfl⟩
    · exact ⟨_, _, .size, by rw [sizeKey_eq]⟩
  · rintro ⟨name, w, puts, rfl⟩
    cases puts with
    | count mem arity encoded =>
      have key := cardinalityKey_eq_ok_iff.2 ⟨arity, _, encoded, rfl⟩
      exact .inl ⟨_, mem, countWrite_eq_ok_iff.2 ⟨_, key, rfl⟩⟩
    | selectivity mem left right =>
      have key := selectivityKey_eq_ok_iff.2 ⟨_, _, left, right, rfl⟩
      exact .inr (.inl ⟨_, mem, selectivityWrite_eq_ok_iff.2 ⟨_, key, rfl⟩⟩)
    | size => exact .inr (.inr (by rw [sizeKey_eq]))

variable {store : Store} {found : Option UInt64} (working : store.faults = {})
  (h : ix.writesOf s = .ok fresh) (leads : ∀ e ∈ s.cardinalities, ix.LeadsClear e.1.2)

include working h leads

/-- What is found under a key is what the snapshot has for it. -/
theorem storedWord?_withStatistics (clear : name.Clear)
    (each : ∀ w, found = some w ↔ ix.Puts s name w) :
    Gives (ix.storedWord? (ix.withStatistics store fresh) name.key) (.ok found) := by
  have working' : (ix.withStatistics store fresh).faults = {} := working
  apply storedWord?_gives working'
  have own : (ix.withStatistics store fresh).tables ix.settings.statisticsTable =
      (store.tables ix.settings.statisticsTable).replaced fresh := if_pos rfl
  rw [own]
  refine Table.get?_replaced_eq (fun _ _ => name.key_lt_largest) (fun m mem => ?_) fun value => ?_
  · obtain ⟨_, _, _, rfl⟩ := (mem_writesOf_iff_puts h).1 mem
    exact ⟨_, _, rfl⟩
  · rw [mem_writesOf_iff_puts h, Option.map_eq_some_iff]
    constructor
    · rintro ⟨other, w, puts, same⟩
      obtain ⟨keys, rfl⟩ := Mutation.put.inj same
      obtain rfl := (StatisticName.key_inj clear (puts.clear leads)).1 keys
      exact ⟨w, (each w).2 puts, rfl⟩
    · rintro ⟨w, there, rfl⟩
      exact ⟨name, w, (each w).1 there, rfl⟩

theorem tableSize_gives :
    Gives (ix.storedStatistics (ix.withStatistics store fresh)).tableSize (.ok (some s.size)) := by
  dsimp only [storedStatistics]
  rw [sizeKey_eq]
  refine storedWord?_withStatistics working h leads trivial fun w => ?_
  constructor
  · intro same
    cases same
    exact .size
  · intro puts
    cases puts
    rfl

/-- The count found for values is that of the entry whose values have the same bytes. -/
theorem cardinality_gives {parts : List Bytes} (lead : ix.LeadsClear values)
    (arity : values.length = kind.arity)
    (encoded : values.mapM ix.codec.registry.encode = .ok parts)
    (each : ∀ n, found = some n ↔ ∃ others, ((kind, others), n) ∈ s.cardinalities ∧
      others.length = kind.arity ∧ others.mapM ix.codec.registry.encode = .ok parts) :
    Gives ((ix.storedStatistics (ix.withStatistics store fresh)).cardinality kind values)
      (.ok found) := by
  have key := cardinalityKey_eq_ok_iff.2 ⟨arity, parts, encoded, rfl⟩
  dsimp only [storedStatistics]
  rw [key]
  refine Gives.bind (.lift rfl) ?_
  refine storedWord?_withStatistics working h leads (lead.clear arity encoded) fun n => ?_
  rw [each]
  constructor
  · rintro ⟨others, mem, arity, encoded⟩
    exact .count mem arity encoded
  · intro puts
    cases puts with
    | count mem arity encoded => exact ⟨_, mem, arity, encoded⟩

end

end Index

end QuadIndex
