import QuadIndex.Index.Basic
import QuadIndex.Proofs.Key.Quad
import QuadIndex.Proofs.Store.Keys

/-!
# Runs of changes to an index

Whatever calls are made on an empty store, its three tables hold the storage keys of one set of quads
(`run_stores`). A call either fails before it writes anything, because a quad has no bytes, or it
adds the canonical forms of its quads to that set or takes them away. What carries the induction is
the set of the bytes of the quads: it determines the three tables, and two of its members are never
stored under one key or read back as one quad.
-/

namespace QuadIndex

open Bytes Result

/-- A call that changes an index. -/
inductive Change where
  | add (quads : List Quad)
  | remove (quads : List Quad)

namespace Change

/-- The quads of the call. -/
def quads : Change → List Quad
  | add quads => quads
  | remove quads => quads

/-- The write that the call makes for a key. -/
def mutation : Change → Bytes → Mutation
  | add _, key => .put key []
  | remove _, key => .delete key

/-- The set after the call, which adds the given elements to it or takes them away. -/
def effect {α : Type} : Change → Set α → Set α → Set α
  | add _, given, set => set ∪ given
  | remove _, given, set => set \ given

end Change

/-- A call changes a table of keys as it changes the set that the keys come from, if no element of
that set shares its key with another one that the call is about. -/
theorem Change.holds {α : Type} (c : Change) {t : Table} {keyOf : α → Bytes} {T : Set α}
    (h : t.Holds {key | ∃ a ∈ T, key = keyOf a}) {given : List α}
    (distinct : ∀ a ∈ T, ∀ b ∈ given, keyOf a = keyOf b → a = b) :
    (t.applyAll (given.map fun a => c.mutation (keyOf a))).Holds
      {key | ∃ a ∈ c.effect {a | a ∈ given} T, key = keyOf a} := by
  cases c with
  | add =>
    have same : {key | ∃ a ∈ T ∪ {a | a ∈ given}, key = keyOf a} =
        {key | ∃ a ∈ T, key = keyOf a} ∪ {key | key ∈ given.map keyOf} := by
      ext key
      simp only [Set.mem_union, Set.mem_ofPred_eq, List.mem_map]
      constructor
      · rintro ⟨a, ha | ha, rfl⟩
        · exact .inl ⟨a, ha, rfl⟩
        · exact .inr ⟨a, ha, rfl⟩
      · rintro (⟨a, ha, rfl⟩ | ⟨a, ha, rfl⟩)
        · exact ⟨a, .inl ha, rfl⟩
        · exact ⟨a, .inr ha, rfl⟩
    have writes := h.putAll (given.map keyOf)
    rw [List.map_map, ← same] at writes
    exact writes
  | remove =>
    have same : {key | ∃ a ∈ T \ {a | a ∈ given}, key = keyOf a} =
        {key | ∃ a ∈ T, key = keyOf a} \ {key | key ∈ given.map keyOf} := by
      ext key
      simp only [Set.mem_sdiff, Set.mem_ofPred_eq, List.mem_map]
      constructor
      · rintro ⟨a, ⟨ha, kept⟩, rfl⟩
        refine ⟨⟨a, ha, rfl⟩, ?_⟩
        rintro ⟨b, hb, same⟩
        exact kept (distinct a ha b hb same.symm ▸ hb)
      · rintro ⟨⟨a, ha, rfl⟩, kept⟩
        exact ⟨a, ⟨ha, fun given => kept ⟨a, given, rfl⟩⟩, rfl⟩
    have writes := h.deleteAll (given.map keyOf)
    rw [List.map_map, ← same] at writes
    exact writes

/-- The canonical forms of quads. -/
def Codec.canonicalSet (c : Codec) (quads : List Quad) : Set Quad :=
  {w | ∃ q ∈ quads, c.canonical q = .ok w}

namespace Index

/-- Makes a call on a store. -/
def change (ix : Index) (store : Store) : Change → Written Store
  | .add quads => ix.add store quads
  | .remove quads => ix.remove store quads

/-- The store that a call leaves, and the set of the quads that it should hold: a call that fails has
no effect on that set. -/
def step (ix : Index) (s : Store × Set Quad) (c : Change) : Store × Set Quad :=
  let written := ix.change s.1 c
  (written.left, match written.result with
    | .ok () => c.effect (ix.codec.canonicalSet c.quads) s.2
    | .error _ => s.2)

/-- The store and the set of the quads that it should hold after calls on an empty store. -/
def run (ix : Index) (cs : List Change) : Store × Set Quad := cs.foldl ix.step ({}, ∅)

/-- The quad of an entry of the table of a layout. -/
def readEntry (ix : Index) (l : Layout) (entry : Bytes × Bytes) : Except Error Quad := do
  ix.codec.decode (ix.form l) (← Cell.ofKey entry.1 entry.2)

/-- The tables of all layouts hold the storage keys of the quads of a set, with empty values, and the
quads that their entries are read back as are those of the set. -/
structure Stores (ix : Index) (store : Store) (S : Set Quad) : Prop where
  keys (l : Layout) (key value : Bytes) :
    (store.tables (ix.table l)).get? key = some value ↔
      value = [] ∧ ∃ w ∈ S, ∃ b, ix.codec.StoredAs w b ∧
        key = b.key ix.codec.fingerprint (ix.form l)
  readable (l : Layout) : ∀ entry ∈ (store.tables (ix.table l)).entries,
    ∃ w, ix.readEntry l entry = .ok w
  read (l : Layout) (w : Quad) : w ∈ S ↔
    ∃ entry ∈ (store.tables (ix.table l)).entries, ix.readEntry l entry = .ok w

theorem table_inj {ix : Index} {l k : Layout} : ix.table l = ix.table k ↔ l = k := by
  constructor
  · intro h
    have names : l.name.toList = k.name.toList := by
      have := congrArg String.toList h
      simpa [table, Settings.table] using this
    cases l <;> cases k <;> first | rfl | exact absurd names (by decide)
  · intro h
    exact h ▸ rfl

theorem mapM_cells (ix : Index) (quads : List Quad) :
    quads.mapM (fun q => ix.codec.cells ix.hashed q) =
      (quads.mapM ix.codec.bytes).map (List.map fun b =>
        Layout.all.map fun l => (l, b.cell ix.codec.fingerprint (ix.form l))) := by
  rw [← mapM_map_ok]
  exact congrArg (quads.mapM ·) (funext fun q => Codec.cells_eq_map_bytes ix.codec ix.hashed q)

/-- A call writes, to the table of each layout, the keys of the bytes of its quads. -/
theorem batches_eq (ix : Index) (mutation : Bytes → Mutation) (quads : List Quad) :
    ix.batches mutation quads = (quads.mapM ix.codec.bytes).map fun bs =>
      Layout.all.map fun l => ⟨ix.table l,
        bs.map fun b => mutation (b.key ix.codec.fingerprint (ix.form l))⟩ := by
  have one (l : Layout) (bs : List QuadBytes) :
      ((bs.map fun b =>
          Layout.all.map fun l => (l, b.cell ix.codec.fingerprint (ix.form l))).flatMap
        fun ofLayouts => (ofLayouts.filter fun c => c.1 = l).map fun c => mutation c.2.key) =
      bs.map fun b => mutation (b.key ix.codec.fingerprint (ix.form l)) := by
    induction bs with
    | nil => rfl
    | cons b bs ih =>
      rw [List.map_cons, List.flatMap_cons, ih]
      cases l <;> rfl
  unfold batches
  rw [mapM_cells]
  cases quads.mapM ix.codec.bytes with
  | error e => rfl
  | ok bs =>
    refine congrArg Except.ok (List.map_congr_left fun l _ => ?_)
    exact congrArg (Batch.mk (ix.table l)) (one l bs)

theorem change_eq (ix : Index) (store : Store) (c : Change) :
    ix.change store c = ix.write store c.mutation c.quads := by
  cases c <;> rfl

/-- A call that fails leaves the store as it was, whatever the reason. -/
theorem left_of_change_error {ix : Index} {store : Store} {c : Change} {e : Error}
    (failed : (ix.change store c).result = .error e) : (ix.change store c).left = store := by
  rw [change_eq, write] at failed ⊢
  cases encoded : ix.batches c.mutation c.quads with
  | error e => rfl
  | ok batches =>
    rw [encoded] at failed
    exact Store.left_of_writeAll_error failed

/-- A call succeeds and has its effect, or fails and changes nothing. -/
theorem step_cases (ix : Index) (s : Store × Set Quad) (c : Change) :
    (∃ store, ix.change s.1 c = ⟨.ok (), store⟩ ∧
      ix.step s c = (store, c.effect (ix.codec.canonicalSet c.quads) s.2)) ∨
    ∃ e, ix.change s.1 c = ⟨.error e, s.1⟩ ∧ ix.step s c = s := by
  rcases written : ix.change s.1 c with ⟨⟨e⟩ | ⟨⟩, store⟩
  · have left := left_of_change_error (congrArg Written.result written)
    rw [written] at left
    obtain rfl : store = s.1 := left
    exact .inr ⟨e, rfl, by rw [step, written]⟩
  · exact .inl ⟨store, rfl, by rw [step, written]⟩

section

variable {ix : Index} {store : Store} {T : Set QuadBytes} {c : Change}

/-- The tables of all layouts hold the storage keys of a set of bytes, each of which a quad has. -/
structure Keeps (ix : Index) (store : Store) (T : Set QuadBytes) : Prop where
  table (l : Layout) : (store.tables (ix.table l)).Holds
    {key | ∃ b ∈ T, key = b.key ix.codec.fingerprint (ix.form l)}
  encoded : ∀ b ∈ T, ∃ q, ix.codec.bytes q = .ok b
  faults : store.faults = {}

/-- The quads that are stored as bytes of a set. -/
def quadsOf (ix : Index) (T : Set QuadBytes) : Set Quad := {w | ∃ b ∈ T, ix.codec.StoredAs w b}

theorem empty_keeps (ix : Index) : ix.Keeps {} ∅ where
  table l := by
    have none : {key | ∃ b ∈ (∅ : Set QuadBytes), key = b.key ix.codec.fingerprint (ix.form l)} =
        (∅ : Set Bytes) := by
      ext key
      simp
    rw [none]
    exact Table.empty_holds
  encoded b h := by simp at h
  faults := rfl

/-- The store keeps the bytes of the quads that it should hold, and has no other tables. -/
def Agrees (ix : Index) (s : Store × Set Quad) : Prop :=
  ∃ T, ix.Keeps s.1 T ∧ s.2 = ix.quadsOf T ∧
    ∀ name, (∀ l, name ≠ ix.table l) → s.1.tables name = .empty

theorem empty_agrees (ix : Index) : ix.Agrees ({}, ∅) := by
  refine ⟨∅, ix.empty_keeps, ?_, fun _ _ => rfl⟩
  ext w
  simp [quadsOf]

/-- A store with given tables under other names is determined by the bytes that it keeps. -/
theorem Keeps.unique {other : Store} (h : ix.Keeps store T) (h' : ix.Keeps other T)
    (rest : ∀ name, (∀ l, name ≠ ix.table l) → store.tables name = other.tables name) :
    store = other := by
  have tables : store.tables = other.tables := by
    funext name
    by_cases layout : ∃ l, name = ix.table l
    · obtain ⟨l, rfl⟩ := layout
      exact (h.table l).unique (h'.table l)
    · exact rest name fun l same => layout ⟨l, same⟩
  obtain ⟨tables, faults⟩ := store
  obtain ⟨tables', faults'⟩ := other
  have := h.faults.trans h'.faults.symm
  simp_all

variable (lawful : ix.codec.registry.Lawful)

include lawful

/-- A call with a quad that has no bytes fails, and leaves the store as it was. -/
theorem change_of_unencodable (store : Store) {q : Quad} {e : Error} (mem : q ∈ c.quads)
    (h : ix.codec.bytes q = .error e) :
    ∃ fault, ix.change store c = ⟨.error (.encoding fault), store⟩ := by
  have failed : ∃ e, c.quads.mapM ix.codec.bytes = .error e := by
    cases all : c.quads.mapM ix.codec.bytes with
    | error e => exact ⟨e, rfl⟩
    | ok bs =>
      obtain ⟨b, _, encoded⟩ := exists_mem_of_mapM all mem
      cases h.symm.trans encoded
  obtain ⟨e, failed⟩ := failed
  obtain ⟨other, _, error⟩ := mapM_eq_error failed
  obtain ⟨fault, rfl⟩ := Codec.bytes_eq_error lawful error
  refine ⟨fault, ?_⟩
  rw [change_eq, write, batches_eq, failed]
  rfl

variable (clear : ix.codec.fingerprint.Delimited)

include clear

/-- A call whose quads all have bytes adds these to the bytes kept, or takes them away. -/
theorem Keeps.change {bs : List QuadBytes} (h : ix.Keeps store T)
    (all : c.quads.mapM ix.codec.bytes = .ok bs) :
    ∃ store', ix.change store c = ⟨.ok (), store'⟩ ∧
      ix.Keeps store' (c.effect {b | b ∈ bs} T) ∧
      ∀ name, (∀ l, name ≠ ix.table l) → store'.tables name = store.tables name := by
  have given : ∀ b ∈ bs, ∃ q, ix.codec.bytes q = .ok b := by
    intro b hb
    obtain ⟨q, _, encoded⟩ := exists_mem_of_mem_mapM all hb
    exact ⟨q, encoded⟩
  have delimited : ∀ b, (∃ q, ix.codec.bytes q = .ok b) → b.Delimited :=
    fun b ⟨q, h⟩ => Codec.delimited_of_bytes lawful h
  obtain ⟨batch, hbatch⟩ : ∃ batch : Layout → Batch, batch = fun l => ⟨ix.table l,
    bs.map fun b => c.mutation (b.key ix.codec.fingerprint (ix.form l))⟩ := ⟨_, rfl⟩
  have name (l : Layout) : (batch l).table = ix.table l := by rw [hbatch]
  have distinct : ((Layout.all.map batch).map (·.table)).Nodup := by
    rw [List.map_map, List.nodup_iff_pairwise_ne, List.pairwise_map]
    refine (by decide : Layout.all.Pairwise (· ≠ ·)).imp fun apart same => apart ?_
    simpa only [Function.comp_apply, name, table_inj] using same
  obtain ⟨store', written, faults, tables⟩ := Store.writeAll_of_nodup h.faults distinct
  have own (l : Layout) : store'.tables (ix.table l) = (store.tables (ix.table l)).applyAll
      (bs.map fun b => c.mutation (b.key ix.codec.fingerprint (ix.form l))) := by
    have found : (Layout.all.map batch).find? (fun b => b.table = ix.table l) =
        some (batch l) := by
      simp only [List.find?_map, Function.comp_def, name, table_inj]
      cases l <;> rfl
    rw [tables, found, Option.elim_some, hbatch]
  refine ⟨store', ?_, ⟨fun l => ?_, ?_, faults⟩, fun other unnamed => ?_⟩
  · rw [change_eq, write, batches_eq, all, ← written, hbatch]
    rfl
  · rw [own]
    apply c.holds (h.table l)
    intro b hb d hd same
    exact QuadBytes.key_injective clear (delimited b (h.encoded b hb)) (delimited d (given d hd))
      same
  · intro b hb
    cases c with
    | add => exact hb.elim (h.encoded b) (given b)
    | remove => exact h.encoded b hb.1
  · have absent : (Layout.all.map batch).find? (fun b => b.table = other) = none := by
      simp only [List.find?_eq_none, List.mem_map, decide_eq_true_eq]
      rintro _ ⟨l, _, rfl⟩ same
      exact unnamed l (same.symm.trans (name l))
    rw [tables, absent]
    rfl

omit clear in
/-- The quads stored as bytes change as the bytes do. -/
theorem quadsOf_effect {bs : List QuadBytes} (all : c.quads.mapM ix.codec.bytes = .ok bs) :
    ix.quadsOf (c.effect {b | b ∈ bs} T) =
      c.effect (ix.codec.canonicalSet c.quads) (ix.quadsOf T) := by
  have given (w : Quad) :
      w ∈ ix.codec.canonicalSet c.quads ↔ ∃ b ∈ bs, ix.codec.StoredAs w b := by
    constructor
    · rintro ⟨q, hq, canonical⟩
      obtain ⟨b, hb, encoded⟩ := exists_mem_of_mapM all hq
      exact ⟨b, hb, q, encoded, canonical⟩
    · rintro ⟨b, hb, stored⟩
      obtain ⟨q, hq, encoded⟩ := exists_mem_of_mem_mapM all hb
      refine ⟨q, hq, ?_⟩
      rw [← Codec.ofBytes_bytes lawful encoded]
      exact stored.ofBytes lawful
  ext w
  cases c with
  | add =>
    simp only [Change.effect, quadsOf, Set.mem_union, Set.mem_ofPred_eq, given]
    constructor
    · rintro ⟨b, hb | hb, stored⟩
      · exact .inl ⟨b, hb, stored⟩
      · exact .inr ⟨b, hb, stored⟩
    · rintro (⟨b, hb, stored⟩ | ⟨b, hb, stored⟩)
      · exact ⟨b, .inl hb, stored⟩
      · exact ⟨b, .inr hb, stored⟩
  | remove =>
    simp only [Change.effect, quadsOf, Set.mem_sdiff, Set.mem_ofPred_eq, given]
    constructor
    · rintro ⟨b, ⟨hb, kept⟩, stored⟩
      refine ⟨⟨b, hb, stored⟩, ?_⟩
      rintro ⟨d, hd, stored'⟩
      exact kept (stored.unique lawful stored' ▸ hd)
    · rintro ⟨⟨b, hb, stored⟩, kept⟩
      exact ⟨b, ⟨hb, fun given => kept ⟨b, given, stored⟩⟩, stored⟩

omit lawful in
theorem readEntry_key (l : Layout) {b : QuadBytes} (delimited : b.Delimited) :
    ix.readEntry l (b.key ix.codec.fingerprint (ix.form l), []) = ix.codec.ofBytes b := by
  rw [readEntry, QuadBytes.ofKey_key clear delimited]
  exact Codec.decode_cell delimited (ix.form l)

omit clear in
/-- The bytes kept are those that some quad is stored as. -/
theorem Keeps.storedAs (h : ix.Keeps store T) {b : QuadBytes} (hb : b ∈ T) :
    ∃ w ∈ ix.quadsOf T, ix.codec.StoredAs w b := by
  obtain ⟨q, encoded⟩ := h.encoded b hb
  obtain ⟨w, _, stored⟩ := Codec.storedAs_of_bytes lawful encoded
  exact ⟨w, ⟨b, hb, stored⟩, stored⟩

/-- A store that keeps the bytes of quads stores the quads. -/
theorem Keeps.stores (h : ix.Keeps store T) : ix.Stores store (ix.quadsOf T) := by
  have read (l : Layout) {b : QuadBytes} {w : Quad} (stored : ix.codec.StoredAs w b) :
      ix.readEntry l (b.key ix.codec.fingerprint (ix.form l), []) = .ok w :=
    (readEntry_key clear l (stored.delimited lawful)).trans (stored.ofBytes lawful)
  have entries (l : Layout) : ∀ entry ∈ (store.tables (ix.table l)).entries,
      ∃ w ∈ ix.quadsOf T, ix.readEntry l entry = .ok w := by
    rintro ⟨key, value⟩ mem
    obtain ⟨rfl, b, hb, rfl⟩ := (h.table l).mem_entries.1 mem
    obtain ⟨w, hw, stored⟩ := h.storedAs lawful hb
    exact ⟨w, hw, read l stored⟩
  constructor
  case keys =>
    intro l key value
    rw [h.table l key value]
    apply and_congr_right
    intro _
    constructor
    · rintro ⟨b, hb, rfl⟩
      obtain ⟨w, hw, stored⟩ := h.storedAs lawful hb
      exact ⟨w, hw, b, stored, rfl⟩
    · rintro ⟨w, ⟨b, hb, stored⟩, d, stored', rfl⟩
      exact ⟨b, hb, by rw [stored.unique lawful stored']⟩
  case readable =>
    intro l entry mem
    obtain ⟨w, _, read⟩ := entries l entry mem
    exact ⟨w, read⟩
  case read =>
    intro l w
    constructor
    · rintro ⟨b, hb, stored⟩
      exact ⟨_, (h.table l).mem_entries.2 ⟨rfl, b, hb, rfl⟩, read l stored⟩
    · rintro ⟨entry, mem, found⟩
      obtain ⟨v, hv, same⟩ := entries l entry mem
      obtain rfl := Except.ok.inj (same.symm.trans found)
      exact hv

/-- A call that succeeds leaves a store that keeps the bytes of the quads that it should hold then. -/
theorem Keeps.of_change {store' : Store} (h : ix.Keeps store T)
    (written : ix.change store c = ⟨.ok (), store'⟩) :
    ∃ U, ix.Keeps store' U ∧
      c.effect (ix.codec.canonicalSet c.quads) (ix.quadsOf T) = ix.quadsOf U ∧
      ∀ name, (∀ l, name ≠ ix.table l) → store'.tables name = store.tables name := by
  cases all : c.quads.mapM ix.codec.bytes with
  | error e =>
    rw [change_eq, write, batches_eq, all] at written
    cases written
  | ok bs =>
    obtain ⟨_, given, kept, others⟩ := h.change lawful clear all
    cases written.symm.trans given
    exact ⟨_, kept, (quadsOf_effect lawful all).symm, others⟩

theorem Agrees.step {s : Store × Set Quad} (h : ix.Agrees s) (c : Change) :
    ix.Agrees (ix.step s c) := by
  obtain ⟨T, kept, quads, rest⟩ := h
  rcases ix.step_cases s c with ⟨store, written, next⟩ | ⟨e, _, next⟩
  · obtain ⟨U, kept', quads', others⟩ := kept.of_change lawful clear written
    rw [next, quads]
    exact ⟨U, kept', quads', fun name unnamed => (others name unnamed).trans (rest name unnamed)⟩
  · rw [next]
    exact ⟨T, kept, quads, rest⟩

theorem run_agrees (cs : List Change) : ix.Agrees (ix.run cs) := by
  suffices later : ∀ s, ix.Agrees s → ix.Agrees (cs.foldl ix.step s) from later _ ix.empty_agrees
  induction cs with
  | nil =>
    intro s h
    exact h
  | cons c cs ih =>
    intro s h
    rw [List.foldl_cons]
    exact ih _ (h.step lawful clear c)

/-- After one quad has been added, its canonical form is all that should be stored. -/
theorem mem_run_add {q w : Quad} {b : QuadBytes} (bytes : ix.codec.bytes q = .ok b)
    (canonical : ix.codec.canonical q = .ok w) (v : Quad) :
    v ∈ (ix.run [.add [q]]).2 ↔ v = w := by
  have all : (Change.add [q]).quads.mapM ix.codec.bytes = .ok [b] :=
    mapM_eq_ok_iff.2 (congrArg (fun r => [r]) bytes)
  obtain ⟨_, written, _⟩ := ix.empty_keeps.change lawful clear all
  change v ∈ (ix.step ({}, ∅) (.add [q])).2 ↔ _
  rw [step, written]
  change v ∈ ∅ ∪ {v | ∃ p ∈ [q], ix.codec.canonical p = .ok v} ↔ _
  simp [canonical, eq_comm]

omit clear in
/-- Bytes that quads have are determined by the quads stored as them. -/
theorem eq_of_quadsOf {U : Set QuadBytes} (hT : ∀ b ∈ T, ∃ q, ix.codec.bytes q = .ok b)
    (hU : ∀ b ∈ U, ∃ q, ix.codec.bytes q = .ok b) (same : ix.quadsOf T = ix.quadsOf U) : T = U := by
  have sub {V W : Set QuadBytes} (hV : ∀ b ∈ V, ∃ q, ix.codec.bytes q = .ok b)
      (same : ix.quadsOf V = ix.quadsOf W) : ∀ b ∈ V, b ∈ W := by
    intro b hb
    obtain ⟨q, encoded⟩ := hV b hb
    obtain ⟨w, _, stored⟩ := Codec.storedAs_of_bytes lawful encoded
    have : w ∈ ix.quadsOf W := same ▸ ⟨b, hb, stored⟩
    obtain ⟨d, hd, stored'⟩ := this
    exact stored.unique lawful stored' ▸ hd
  ext b
  exact ⟨sub hT same b, sub hU same.symm b⟩

end

theorem effect_effect {α : Type} (c : Change) (given set : Set α) :
    c.effect given (c.effect given set) = c.effect given set := by
  ext a
  cases c with
  | add =>
    simp only [Change.effect, Set.mem_union]
    tauto
  | remove =>
    simp only [Change.effect, Set.mem_sdiff]
    tauto

/-- The index with the standard codec. -/
def standard (settings : Settings) : Index := { settings }

/-- What holds after every run of calls on an empty store, and what one more call does. The tables
hold the keys of one set of quads. A call with a quad that has no bytes fails and changes nothing.
Every other call succeeds, has its effect on the set and touches no other table; it does nothing
when it is made again, or when its quads are there, or absent, already. -/
theorem run_stores (settings : Settings) (cs : List Change) :
    (standard settings).Stores ((standard settings).run cs).1 ((standard settings).run cs).2 ∧
    (∀ name, (∀ l, name ≠ (standard settings).table l) →
      ((standard settings).run cs).1.tables name = .empty) ∧
    (∀ c : Change,
      (∃ q ∈ c.quads, ∃ e, (standard settings).codec.cells settings.hashed q = .error e) →
      (standard settings).run (cs ++ [c]) = (standard settings).run cs ∧
        ∃ fault, (standard settings).change ((standard settings).run cs).1 c =
          ⟨.error (.encoding fault), ((standard settings).run cs).1⟩) ∧
    (∀ c : Change,
      (∀ q ∈ c.quads, ∃ cells, (standard settings).codec.cells settings.hashed q = .ok cells) →
      ∃ store, (standard settings).change ((standard settings).run cs).1 c = ⟨.ok (), store⟩ ∧
        (standard settings).Stores store (c.effect
          ((standard settings).codec.canonicalSet c.quads) ((standard settings).run cs).2) ∧
        (∀ name, (∀ l, name ≠ (standard settings).table l) →
          store.tables name = ((standard settings).run cs).1.tables name) ∧
        (standard settings).change store c = ⟨.ok (), store⟩ ∧
        (c.effect ((standard settings).codec.canonicalSet c.quads) ((standard settings).run cs).2 =
          ((standard settings).run cs).2 → store = ((standard settings).run cs).1)) := by
  generalize hix : standard settings = ix
  have lawful : ix.codec.registry.Lawful := hix ▸ Registry.standard_lawful
  have clear : ix.codec.fingerprint.Delimited := hix ▸ Fingerprint.standard_delimited
  have mode : settings.hashed = ix.hashed := hix ▸ rfl
  rw [mode]
  clear hix mode
  obtain ⟨T, kept, quads, empty⟩ := run_agrees lawful clear cs
  rw [quads]
  refine ⟨kept.stores lawful clear, empty, ?_, ?_⟩
  · rintro c ⟨q, mem, e, h⟩
    obtain ⟨fault, failed⟩ :=
      change_of_unencodable lawful (ix.run cs).1 mem (Codec.cells_eq_error_iff.1 h)
    refine ⟨?_, fault, failed⟩
    rw [run, List.foldl_append]
    change ix.step (ix.run cs) c = _
    rw [step, failed]
  · intro c encodable
    have all : ∃ bs, c.quads.mapM ix.codec.bytes = .ok bs := by
      cases all : c.quads.mapM ix.codec.bytes with
      | ok bs => exact ⟨bs, rfl⟩
      | error e =>
        obtain ⟨q, mem, bytes⟩ := mapM_eq_error all
        obtain ⟨cells, h⟩ := encodable q mem
        cases (Codec.cells_eq_error_iff.2 bytes).symm.trans h
    obtain ⟨bs, all⟩ := all
    obtain ⟨store, written, kept', others⟩ := kept.change lawful clear all
    refine ⟨store, written, ?_, others, ?_, ?_⟩
    · rw [← quadsOf_effect lawful all]
      exact kept'.stores lawful clear
    · obtain ⟨again, written', kept'', others'⟩ := kept'.change lawful clear all
      rw [effect_effect] at kept''
      rw [written', kept''.unique kept' others']
    · intro same
      rw [← quadsOf_effect lawful all] at same
      rw [eq_of_quadsOf lawful kept'.encoded kept.encoded same] at kept'
      exact kept'.unique kept others

end Index

end QuadIndex
