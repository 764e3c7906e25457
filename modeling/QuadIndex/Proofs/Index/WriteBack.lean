import QuadIndex.Proofs.Statistics.Refresh

/-!
# What queries yield can be written back

A quad that a query yields has, in every table, the cell that it was read from, its object is in
canonical form, and removing it deletes its entries. The exception is a quad whose object is an
instant outside the years 0 to 9999: the text that such an instant is read as is refused wherever it
is written, and while it is stored no statistics can be refreshed (`yields_written_back`).
-/

namespace QuadIndex

open Bytes Result Reading

namespace Index

/-- In every table the quad has the cell of the entry that is read as it, its object is in canonical
form, and removing it deletes its entries and nothing else. -/
structure WritesBack (ix : Index) (store : Store) (w : Quad) : Prop where
  stored (l : Layout) : ∃ entry ∈ (store.tables (ix.table l)).entries, ix.readEntry l entry = .ok w
  cell (l : Layout) : ∀ entry ∈ (store.tables (ix.table l)).entries, ix.readEntry l entry = .ok w →
    ∃ cell, Cell.ofKey entry.1 entry.2 = .ok cell ∧ ix.codec.cell (ix.form l) w = .ok cell
  canonical : ix.codec.registry.canonicalize w.object = .ok w.object
  removed : ∃ store', ix.remove store [w] = ⟨.ok (), store'⟩ ∧
    (∀ l cell, ix.codec.cell (ix.form l) w = .ok cell →
      store'.tables (ix.table l) = (store.tables (ix.table l)).erase cell.key) ∧
    ∀ name, (∀ l, name ≠ ix.table l) → store'.tables name = store.tables name

/-- The quad has no cells, its object has no canonical form, and it cannot be removed. -/
structure Refuses (ix : Index) (store : Store) (w : Quad) (e : Error) : Prop where
  cell (l : Layout) : ix.codec.cell (ix.form l) w = .error e
  canonical : ix.codec.registry.canonicalize w.object = .error e
  removed : ix.remove store [w] = ⟨.error e, store⟩

variable {ix : Index} {store : Store} {T : Set QuadBytes} {w : Quad} {b : QuadBytes}

section

variable (lawful : ix.codec.registry.Lawful) (clear : ix.codec.fingerprint.Delimited)

include lawful clear

/-- What a query yields is stored. -/
theorem Keeps.mem_of_yielded (h : ix.Keeps store T) {p : Pattern} {scan : QuadScan}
    (opened : Gives (ix.query store p) (.ok scan)) (mem : .ok w ∈ scan.drain.1) :
    w ∈ ix.quadsOf T := by
  by_cases encodes : p.Encodes ix.codec
  · obtain ⟨_, scan', found, _, gives, yields, members, _⟩ := h.query lawful clear encodes
    cases opened.unique gives
    obtain ⟨_, drained, _⟩ := yields.drain
    rw [drained] at mem
    obtain ⟨v, there, same⟩ := List.mem_map.1 mem
    cases same
    exact ((members w).1 there).1
  · obtain ⟨_, failed⟩ := query_of_not_encodes lawful store encodes
    cases opened.unique failed

/-- Removing a quad that is stored as its own bytes deletes one key from each table. -/
theorem Keeps.remove (h : ix.Keeps store T) (mem : b ∈ T) (own : ix.codec.bytes w = .ok b) :
    ∃ store', ix.remove store [w] = ⟨.ok (), store'⟩ ∧
      (∀ l, store'.tables (ix.table l) =
        (store.tables (ix.table l)).erase (b.key ix.codec.fingerprint (ix.form l))) ∧
      ∀ name, (∀ l, name ≠ ix.table l) → store'.tables name = store.tables name := by
  have all : (Change.remove [w]).quads.mapM ix.codec.bytes = .ok [b] :=
    mapM_eq_ok_iff.2 (congrArg (fun r => [r]) own)
  obtain ⟨store', written, kept, others⟩ := h.change lawful clear all
  refine ⟨store', written, fun l => ?_, others⟩
  refine (kept.table l).unique ?_
  have delimited : ∀ d ∈ T, d.Delimited := by
    intro d hd
    obtain ⟨q, encoded⟩ := h.encoded d hd
    exact Codec.delimited_of_bytes lawful encoded
  have keys : {key | ∃ d ∈ (Change.remove [w]).effect {d | d ∈ [b]} T,
        key = d.key ix.codec.fingerprint (ix.form l)} =
      {key | ∃ d ∈ T, key = d.key ix.codec.fingerprint (ix.form l)} \
        {b.key ix.codec.fingerprint (ix.form l)} := by
    ext key
    simp only [Change.effect, Set.mem_ofPred_eq, Set.mem_sdiff, List.mem_singleton,
      Set.mem_singleton_iff]
    constructor
    · rintro ⟨d, ⟨hd, apart⟩, rfl⟩
      refine ⟨⟨d, hd, rfl⟩, fun same => apart ?_⟩
      exact QuadBytes.key_injective clear (delimited d hd) (delimited b mem) same
    · rintro ⟨⟨d, hd, rfl⟩, apart⟩
      exact ⟨d, ⟨hd, fun same => apart (same ▸ rfl)⟩, rfl⟩
  rw [keys]
  exact (h.table l).erase _

/-- A stored quad that has bytes itself can be written back. -/
theorem Keeps.writesBack (h : ix.Keeps store T) (mem : b ∈ T) (stored : ix.codec.StoredAs w b)
    (own : ix.codec.bytes w = .ok b) : ix.WritesBack store w := by
  have delimited := stored.delimited lawful
  have cells (l : Layout) :
      ix.codec.cell (ix.form l) w = .ok (b.cell ix.codec.fingerprint (ix.form l)) := by
    rw [Codec.cell_eq_map_bytes, own]
    rfl
  constructor
  case stored =>
    intro l
    refine ⟨(b.key ix.codec.fingerprint (ix.form l), []),
      (h.table l).mem_entries.2 ⟨rfl, b, mem, rfl⟩, ?_⟩
    exact (readEntry_key clear l delimited).trans (stored.ofBytes lawful)
  case cell =>
    rintro l ⟨key, value⟩ there read
    obtain ⟨rfl, d, hd, rfl⟩ := (h.table l).mem_entries.1 there
    obtain ⟨v, _, stored'⟩ := h.storedAs lawful hd
    have read' := (readEntry_key clear l (stored'.delimited lawful)).trans (stored'.ofBytes lawful)
    cases read.symm.trans read'
    obtain rfl := stored.unique lawful stored'
    exact ⟨_, QuadBytes.ofKey_key clear delimited, cells l⟩
  case canonical =>
    exact (stored.canonicalize_iff lawful).2 (Codec.bytes_eq_ok_iff.1 own).2.2.1
  case removed =>
    obtain ⟨store', removed, tables, others⟩ := h.remove lawful clear mem own
    refine ⟨store', removed, fun l cell same => ?_, others⟩
    cases (cells l).symm.trans same
    exact tables l

end

/-- A quad without bytes is refused. -/
theorem refuses_of_bytes {e : Error} (object : ix.codec.registry.encode w.object = .error e)
    (own : ix.codec.bytes w = .error e) : ix.Refuses store w e where
  cell l := by
    rw [Codec.cell_eq_map_bytes, own]
    rfl
  canonical := bind_eq_error_iff.2 (.inl object)
  removed := by
    have failed : [w].mapM ix.codec.bytes = .error e := by
      rw [List.mapM_cons, own]
      rfl
    rw [Index.remove, write, batches_eq, failed]
    rfl

/-- A stored quad can be written back, or its object is an instant, not in full, and it is refused. -/
theorem Keeps.writesBack_or_refuses (registry : ix.codec.registry = .standard)
    (clear : ix.codec.fingerprint.Delimited) (h : ix.Keeps store T) (mem : w ∈ ix.quadsOf T) :
    (w.object.TimeInFull ∧ ix.WritesBack store w) ∨
    ∃ lexical, w.object = .literal Xsd.dateTime lexical ∧ ¬ Instant.IsFull lexical ∧
      ix.Refuses store w (.encoding (.invalidDateTime lexical)) := by
  obtain ⟨b, hb, stored⟩ := mem
  rcases stored.rewritten registry with ⟨full, own⟩ | ⟨lexical, same, short, object, failed⟩
  · exact .inl ⟨full, h.writesBack (lawful_of_standard registry) clear hb stored own⟩
  · exact .inr ⟨lexical, same, short, refuses_of_bytes object failed⟩

/-- What becomes of a quad that a query yields after any run of calls, of a canonical form, and of the
statistics. Everything is written back but instants that are read as a text which is not in full; these
are refused, and statistics are refreshed exactly where there are none of them. -/
theorem yields_written_back (settings : Settings) (cs : List Change) :
    (∀ p scan w, Gives ((standard settings).query ((standard settings).run cs).1 p) (.ok scan) →
      .ok w ∈ scan.drain.1 →
      (w.object.TimeInFull ∧ (standard settings).WritesBack ((standard settings).run cs).1 w) ∨
      ∃ lexical, w.object = .literal Xsd.dateTime lexical ∧ ¬ Instant.IsFull lexical ∧
        (standard settings).Refuses ((standard settings).run cs).1 w
          (.encoding (.invalidDateTime lexical))) ∧
    (∀ v w, Registry.standard.canonicalize v = .ok w →
      (w.TimeInFull ∧ Registry.standard.canonicalize w = .ok w) ∨
      ∃ lexical, w = .literal Xsd.dateTime lexical ∧ ¬ Instant.IsFull lexical ∧
        Registry.standard.canonicalize w = .error (.encoding (.invalidDateTime lexical))) ∧
    ((∀ w ∈ ((standard settings).run cs).2, w.object.TimeInFull) → ∃ refreshed,
      Gives ((standard settings).refresh ((standard settings).run cs).1) (.ok refreshed)) ∧
    ((∃ w ∈ ((standard settings).run cs).2, ¬ w.object.TimeInFull) →
      ∃ w ∈ ((standard settings).run cs).2, ∃ lexical, w.object = .literal Xsd.dateTime lexical ∧
        ¬ Instant.IsFull lexical ∧
        Gives ((standard settings).refresh ((standard settings).run cs).1)
          (.error (.encoding (.invalidDateTime lexical)))) := by
  generalize hix : standard settings = ix
  have registry : ix.codec.registry = .standard := hix ▸ rfl
  have clear : ix.codec.fingerprint.Delimited := hix ▸ Fingerprint.standard_delimited
  have lawful : ix.codec.registry.Lawful := lawful_of_standard registry
  clear hix
  obtain ⟨T, kept, quads, _⟩ := run_agrees lawful clear cs
  obtain ⟨qs, t, _, members, _, refreshed⟩ := kept.refresh registry clear
  rw [quads]
  refine ⟨fun p scan w opened mem => ?_, fun v w => Registry.canonicalize_again, fun full => ?_,
    fun ⟨w, mem, short⟩ => ?_⟩
  · exact kept.writesBack_or_refuses registry clear (kept.mem_of_yielded lawful clear opened mem)
  · rcases refreshed with ⟨_, _, _, given⟩ | ⟨w, mem, lexical, same, short, _⟩
    · exact ⟨_, given⟩
    · exact absurd (full w (members ▸ mem) lexical same) short
  · rw [members] at mem ⊢
    rcases refreshed with ⟨full, _⟩ | failed
    · exact absurd (full w mem) short
    · exact failed

/-- An offset moves an instant of the year 0 to the year before. What is read for it is refused. -/
theorem yields_refused :
    let q : Quad := ⟨⟨"s"⟩, ⟨"p"⟩, .literal Xsd.dateTime "0000-01-01T00:00:00+01:00", none⟩
    let w : Quad := ⟨⟨"s"⟩, ⟨"p"⟩, .literal Xsd.dateTime "-0001-12-31T23:00:00.000Z", none⟩
    let e : Error := .encoding (.invalidDateTime "-0001-12-31T23:00:00.000Z")
    let store := ((standard {}).run [.add [q]]).1
    (∃ scan, Gives ((standard {}).query store {}) (.ok scan) ∧ .ok w ∈ scan.drain.1) ∧
      (standard {}).Refuses store w e ∧ Gives ((standard {}).refresh store) (.error e) := by
  intro q w e store
  have clear : (standard {}).codec.fingerprint.Delimited := Fingerprint.standard_delimited
  have lawful : (standard {}).codec.registry.Lawful := Registry.standard_lawful
  obtain ⟨b, bytes⟩ : ∃ b, (standard {}).codec.bytes q = .ok b := ⟨_, rfl⟩
  have canonical : (standard {}).codec.canonical q = .ok w := rfl
  have refused : (standard {}).codec.registry.encode w.object = .error e := rfl
  have alone (v : Quad) : v ∈ ((standard {}).run [.add [q]]).2 ↔ v = w :=
    mem_run_add lawful clear bytes canonical v
  obtain ⟨T, kept, quads, _⟩ : (standard {}).Agrees ((standard {}).run [.add [q]]) :=
    run_agrees lawful clear _
  rw [quads] at alone
  have refuses : (standard {}).Refuses store w e := refuses_of_bytes refused rfl
  have short : ¬ Instant.IsFull "-0001-12-31T23:00:00.000Z" := by
    intro full
    rcases kept.writesBack_or_refuses rfl clear ((alone w).2 rfl) with ⟨_, back⟩ |
      ⟨lexical, same, short, _⟩
    · cases refuses.canonical.symm.trans back.canonical
    · obtain ⟨_, rfl⟩ := Value.literal.inj same
      exact short full
  refine ⟨?_, refuses, ?_⟩
  · obtain ⟨scan, qs, opened, yields, members, _⟩ := kept.query_all lawful clear
    obtain ⟨_, drained, _⟩ := yields.drain
    refine ⟨scan, opened, ?_⟩
    rw [drained]
    exact List.mem_map.2 ⟨w, (members w).2 ((alone w).2 rfl), rfl⟩
  · obtain ⟨qs, t, _, members, _, refreshed⟩ := kept.refresh rfl clear
    have only (v : Quad) : v ∈ qs ↔ v = w := by
      rw [← alone v, members]
      exact Iff.rfl
    rcases refreshed with ⟨full, _⟩ | ⟨v, mem, lexical, same, _, given⟩
    · exact absurd (full w ((only w).2 rfl) _ rfl) short
    · obtain rfl := (only v).1 mem
      obtain ⟨_, rfl⟩ := Value.literal.inj same
      exact given

end Index

end QuadIndex
