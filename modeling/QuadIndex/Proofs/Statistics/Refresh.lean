import QuadIndex.Proofs.Index.TableNames
import QuadIndex.Proofs.Key.WriteBack
import QuadIndex.Proofs.Statistics.Collected
import QuadIndex.Proofs.Statistics.Stored

/-!
# Refreshed statistics

A refresh writes the values of stored quads into keys. So it fails where one of their objects cannot be
written back (`Keeps.refresh`). Otherwise the count found for values that have bytes is that of the
stored quads with these bytes, however the values are written (`refreshed_cardinality`).
-/

namespace QuadIndex

open Bytes Result Reading Entries CardinalityKind

/-! ## The values of stored quads -/

theorem Quad.length_valuesFor (q : Quad) (kind : CardinalityKind) :
    (q.valuesFor kind).length = kind.arity := by
  cases kind <;> rfl

/-- The bytes of what stands in a position, as those of an object value. -/
def QuadBytes.valueAt (b : QuadBytes) : Position → Bytes
  | .subject => Registry.iriMarker :: b.components.subject
  | .predicate => Registry.iriMarker :: b.components.predicate
  | .object => b.components.object

/-- The bytes of what stands in the positions that a kind fixes. -/
def QuadBytes.valuesFor (b : QuadBytes) (kind : CardinalityKind) : List Bytes :=
  kind.positions.map b.valueAt

namespace Codec.StoredAs

variable {c : Codec} {w : Quad} {b : QuadBytes} {i : Position} {kind : CardinalityKind}

/-- The values of a stored quad are read from their bytes. -/
theorem valueAt (h : c.StoredAs w b) (i : Position) : ∃ v, c.registry.encode v = .ok (b.valueAt i) ∧
    c.registry.decode (b.valueAt i) = .ok (w.valueAt i) := by
  obtain ⟨subject, predicate, _, object⟩ := h.parts
  have resource {i : Iri} {bs : Bytes} (encoded : i.encode = .ok bs) :
      c.registry.encode (.iri i) = .ok (Registry.iriMarker :: bs) ∧
      c.registry.decode (Registry.iriMarker :: bs) = .ok (.iri i) := by
    refine ⟨bind_eq_ok_iff.2 ⟨bs, encoded, rfl⟩, ?_⟩
    rw [(Iri.encode_eq_ok_iff.1 encoded).1]
    exact Registry.decode_iri c.registry i
  cases i with
  | subject => exact ⟨_, resource subject⟩
  | predicate => exact ⟨_, resource predicate⟩
  | object => exact object

/-- A value of a stored quad that has bytes has those that it was read from. -/
theorem eq_valueAt (lawful : c.registry.Lawful) (h : c.StoredAs w b) {bs : Bytes}
    (encoded : c.registry.encode (w.valueAt i) = .ok bs) : bs = b.valueAt i := by
  obtain ⟨v, stored, read⟩ := h.valueAt i
  exact Registry.stable_of_decode lawful (Registry.stored_of_encode stored) read
    (Registry.stored_of_encode encoded)

/-- The values of a stored quad can be written back, but for an instant that is not in full. -/
theorem encode_valueAt (registry : c.registry = .standard) (h : c.StoredAs w b) (i : Position) :
    ((w.valueAt i).TimeInFull ∧ c.registry.encode (w.valueAt i) = .ok (b.valueAt i)) ∨
    ∃ lexical, w.object = .literal Xsd.dateTime lexical ∧ ¬ Instant.IsFull lexical ∧
      c.registry.encode (w.valueAt i) = .error (.encoding (.invalidDateTime lexical)) := by
  obtain ⟨v, stored, read⟩ := h.valueAt i
  rw [registry] at stored read ⊢
  rcases Registry.rewritten stored read with again | ⟨lexical, same, short, failed⟩
  · exact .inl again
  · refine .inr ⟨lexical, ?_, short, failed⟩
    cases i with
    | subject => cases same
    | predicate => cases same
    | object => exact same

theorem decode_valuesFor (h : c.StoredAs w b) (kind : CardinalityKind) :
    (b.valuesFor kind).mapM c.registry.decode = .ok (w.valuesFor kind) := by
  rw [mapM_eq_ok_iff, QuadBytes.valuesFor, Quad.valuesFor, List.map_map, List.map_map]
  refine List.map_congr_left fun i _ => ?_
  obtain ⟨_, _, read⟩ := h.valueAt i
  exact read

theorem encode_valuesFor (lawful : c.registry.Lawful) (h : c.StoredAs w b) {parts : List Bytes}
    (encoded : (w.valuesFor kind).mapM c.registry.encode = .ok parts) :
    parts = b.valuesFor kind := by
  have each : ∀ i ∈ kind.positions, c.registry.encode (w.valueAt i) = .ok (b.valueAt i) := by
    intro i mem
    obtain ⟨bs, _, own⟩ := exists_mem_of_mapM encoded (List.mem_map.2 ⟨i, mem, rfl⟩)
    rw [own, h.eq_valueAt lawful own]
  rw [mapM_eq_ok_iff, Quad.valuesFor, List.map_map] at encoded
  have same : parts.map Except.ok = (b.valuesFor kind).map (Except.ok (ε := Error)) := by
    rw [← encoded, QuadBytes.valuesFor, List.map_map]
    exact List.map_congr_left each
  exact List.map_injective_iff.2 (fun _ _ => Except.ok.inj) same

end Codec.StoredAs

/-! ## What a snapshot names -/

namespace Tally

variable {t : Tally} {qs : List Quad} {kind : CardinalityKind} {values : List Value} {n : UInt64}

/-- A snapshot has a count for the values of quads only. -/
theorem Tallied.mem_cardinalities_iff (h : t.Tallied qs) :
    ((kind, values), n) ∈ t.finish.cardinalities ↔ counted (kind.countIn values qs) = some n := by
  have found := h.cardinalities kind values
  constructor
  · intro mem
    exact found.symm.trans (get?_of_mem h.distinctCounts mem)
  · intro same
    exact mem_of_get? (found.trans same)

theorem exists_of_counted (h : counted (kind.countIn values qs) = some n) :
    ∃ q ∈ qs, q.valuesFor kind = values := by
  have pos := (counted_eq_some.1 h).1
  simpa [countIn, List.countP_pos_iff] using pos

/-- A snapshot has a selectivity for predicates of quads only. -/
theorem Tallied.of_mem_selectivities (h : t.Tallied qs) {a b : Iri} {x : Float}
    (mem : ((a, b), x) ∈ t.finish.selectivities) :
    (∃ q ∈ qs, q.predicate = a) ∧ ∃ q ∈ qs, q.predicate = b := by
  have counts {p : Iri} {n : UInt64} (found : t.fold.cardinalities.get? (.predicate, [.iri p]) = some n) :
      ∃ q ∈ qs, q.predicate = p := by
    obtain ⟨q, mem, same⟩ := exists_of_counted ((h.cardinalities _ _).symm.trans found)
    exact ⟨q, mem, Quad.valuesFor_predicate.1 same⟩
  obtain ⟨⟨⟨c, d⟩, product⟩, _, made⟩ := List.mem_filterMap.1 mem
  simp only [Option.bind_eq_bind, Option.bind_eq_some_iff, Option.pure_def, Option.some.injEq,
    Prod.mk.injEq] at made
  obtain ⟨left, first, right, second, ⟨rfl, rfl⟩, _⟩ := made
  exact ⟨counts first, counts second⟩

end Tally

namespace Index

variable {ix : Index} {store : Store} {T : Set QuadBytes} {t : Tally} {qs : List Quad}

section

variable (registry : ix.codec.registry = .standard)
  (stored : ∀ q ∈ qs, ∃ b, ix.codec.StoredAs q b) (h : t.Tallied qs)

include registry stored h

omit h in
/-- A count of stored quads has a key unless an object cannot be written back. -/
theorem cardinalityKey_of_mem {q : Quad} (mem : q ∈ qs) (kind : CardinalityKind) :
    (∃ key, ix.cardinalityKey kind (q.valuesFor kind) = .ok key) ∨
    ∃ lexical, q.object = .literal Xsd.dateTime lexical ∧ ¬ Instant.IsFull lexical ∧
      ix.cardinalityKey kind (q.valuesFor kind) =
        .error (.encoding (.invalidDateTime lexical)) := by
  obtain ⟨b, own⟩ := stored q mem
  cases encoded : (q.valuesFor kind).mapM ix.codec.registry.encode with
  | ok parts =>
    exact .inl ⟨_, cardinalityKey_eq_ok_iff.2 ⟨q.length_valuesFor kind, parts, encoded, rfl⟩⟩
  | error e =>
    obtain ⟨v, there, failed⟩ := mapM_eq_error encoded
    obtain ⟨i, _, rfl⟩ := List.mem_map.1 there
    rcases own.encode_valueAt registry i with ⟨_, again⟩ | ⟨lexical, same, short, refused⟩
    · cases failed.symm.trans again
    · cases failed.symm.trans refused
      refine .inr ⟨lexical, same, short, ?_⟩
      rw [cardinalityKey, if_neg (not_not.2 (q.length_valuesFor kind)), encoded]
      rfl

omit registry in
/-- A selectivity of stored quads has a key. -/
theorem selectivityKey_of_mem {a b : Iri} {x : Float}
    (mem : ((a, b), x) ∈ t.finish.selectivities) : ∃ key, selectivityKey a b = .ok key := by
  have encodes {p : Iri} (there : ∃ q ∈ qs, q.predicate = p) : ∃ bs, p.encode = .ok bs := by
    obtain ⟨q, mem, rfl⟩ := there
    obtain ⟨b, own⟩ := stored q mem
    exact ⟨_, own.parts.2.1⟩
  obtain ⟨first, second⟩ := h.of_mem_selectivities mem
  obtain ⟨_, left⟩ := encodes first
  obtain ⟨_, right⟩ := encodes second
  have either : orderedPair a b = (a, b) ∨ orderedPair a b = (b, a) := by
    unfold orderedPair
    split
    · exact .inl rfl
    · exact .inr rfl
  rcases either with same | same
  · exact ⟨_, selectivityKey_eq_ok_iff.2 ⟨_, _, by rwa [same], by rwa [same], rfl⟩⟩
  · exact ⟨_, selectivityKey_eq_ok_iff.2 ⟨_, _, by rwa [same], by rwa [same], rfl⟩⟩

/-- The statistics of stored quads are put down unless an object cannot be written back. -/
theorem writesOf_finish :
    ((∀ q ∈ qs, q.object.TimeInFull) ∧ ∃ fresh, ix.writesOf t.finish = .ok fresh) ∨
    ∃ q ∈ qs, ∃ lexical, q.object = .literal Xsd.dateTime lexical ∧ ¬ Instant.IsFull lexical ∧
      ix.writesOf t.finish = .error (.encoding (.invalidDateTime lexical)) := by
  cases written : ix.writesOf t.finish with
  | ok fresh =>
    refine .inl ⟨fun q mem => ?_, fresh, rfl⟩
    have there : ((object, q.valuesFor object), UInt64.ofNat (object.countIn (q.valuesFor object) qs))
        ∈ t.finish.cardinalities := by
      refine h.mem_cardinalities_iff.2 (counted_of_pos ?_)
      exact List.countP_pos_iff.2 ⟨q, mem, decide_eq_true rfl⟩
    obtain ⟨b, own⟩ := stored q mem
    obtain ⟨_, _, encodes⟩ := encodes_of_writesOf written there
    rcases own.encode_valueAt registry .object with ⟨full, _⟩ | ⟨_, _, _, refused⟩
    · exact full
    · obtain ⟨_, _, encoded⟩ := exists_mem_of_mapM encodes (.head _)
      cases refused.symm.trans encoded
  | error e =>
    rcases writesOf_eq_error written with ⟨⟨⟨kind, values⟩, n⟩, mem, failed⟩ |
      ⟨⟨⟨a, b⟩, x⟩, mem, failed⟩
    · obtain ⟨q, hq, rfl⟩ := Tally.exists_of_counted (h.mem_cardinalities_iff.1 mem)
      rcases cardinalityKey_of_mem registry stored hq kind with ⟨key, encoded⟩ |
        ⟨lexical, same, short, refused⟩
      · cases failed.symm.trans (countWrite_eq_ok_iff.2 ⟨key, encoded, rfl⟩)
      · have failed' : ix.countWrite ((kind, q.valuesFor kind), n) =
            .error (.encoding (.invalidDateTime lexical)) := bind_eq_error_iff.2 (.inl refused)
        cases failed.symm.trans failed'
        exact .inr ⟨q, hq, lexical, same, short, rfl⟩
    · obtain ⟨key, encoded⟩ := selectivityKey_of_mem stored h mem
      cases failed.symm.trans (selectivityWrite_eq_ok_iff.2 ⟨key, encoded, rfl⟩)

end

/-! ## Refreshing -/

/-- The statistics have a table of their own. -/
theorem table_ne_statistics (ix : Index) (l : Layout) : ix.table l ≠ ix.settings.statisticsTable :=
  ix.settings.table_ne_statisticsTable ix.settings l

/-- New statistics leave the quads as they are. -/
theorem Keeps.withStatistics (h : ix.Keeps store T) (fresh : List Mutation) :
    ix.Keeps (ix.withStatistics store fresh) T where
  table l := by
    have same : (ix.withStatistics store fresh).tables (ix.table l) = store.tables (ix.table l) :=
      if_neg (ix.table_ne_statistics l)
    rw [same]
    exact h.table l
  encoded := h.encoded
  faults := h.faults

/-- Each of the quads stored has bytes. -/
theorem storedAs_of_members (members : ix.quadsOf T = {q | q ∈ qs}) :
    ∀ q ∈ qs, ∃ b, ix.codec.StoredAs q b := by
  intro q mem
  have there : q ∈ ix.quadsOf T := members ▸ mem
  obtain ⟨b, _, own⟩ := there
  exact ⟨b, own⟩

section

variable (registry : ix.codec.registry = .standard) (clear : ix.codec.fingerprint.Delimited)

include registry

theorem lawful_of_standard : ix.codec.registry.Lawful := registry ▸ Registry.standard_lawful

include clear

/-- A refresh puts down the statistics of the quads stored, unless an object cannot be written
back. -/
theorem Keeps.refresh (h : ix.Keeps store T) : ∃ (qs : List Quad) (t : Tally),
    qs.Nodup ∧ ix.quadsOf T = {q | q ∈ qs} ∧ t.Tallied qs ∧
    (((∀ q ∈ qs, q.object.TimeInFull) ∧ ∃ fresh, ix.writesOf t.finish = .ok fresh ∧
        Gives (ix.refresh store) (.ok (t.finish, ix.withStatistics store fresh))) ∨
      ∃ q ∈ qs, ∃ lexical, q.object = .literal Xsd.dateTime lexical ∧ ¬ Instant.IsFull lexical ∧
        Gives (ix.refresh store) (.error (.encoding (.invalidDateTime lexical)))) := by
  obtain ⟨qs, t, distinct, members, tallied, collected⟩ :=
    h.collect (lawful_of_standard registry) clear
  have stored : ∀ q ∈ qs, ∃ b, ix.codec.StoredAs q b := storedAs_of_members members
  have replaced : Gives (ix.replaceStatistics store t.finish)
      ((ix.writesOf t.finish).map (ix.withStatistics store)) :=
    replaceStatistics_gives h.faults t.finish
  refine ⟨qs, t, distinct, members, tallied, ?_⟩
  rcases writesOf_finish registry stored tallied with ⟨full, fresh, written⟩ |
    ⟨q, mem, lexical, same, short, refused⟩
  · rw [written] at replaced
    exact .inl ⟨full, fresh, written, collected.bind (replaced.bind (.pure _))⟩
  · rw [refused] at replaced
    exact .inr ⟨q, mem, lexical, same, short, collected.bind replaced.bind_error⟩

end

/-- The store is reached from an empty one by calls and refreshes that succeed, and should hold the
quads of the set. -/
inductive Reached (ix : Index) : Store → Set Quad → Prop
  | empty : Reached ix {} ∅
  | change {store store' : Store} {S : Set Quad} (c : Change) :
    Reached ix store S → ix.change store c = ⟨.ok (), store'⟩ →
    Reached ix store' (c.effect (ix.codec.canonicalSet c.quads) S)
  | refresh {store store' : Store} {S : Set Quad} {snapshot : Snapshot} :
    Reached ix store S → Gives (ix.refresh store) (.ok (snapshot, store')) → Reached ix store' S

/-- Runs of calls, those that fail among them, reach stores. -/
theorem reached_run (ix : Index) (cs : List Change) : ix.Reached (ix.run cs).1 (ix.run cs).2 := by
  suffices later : ∀ s : Store × Set Quad, ix.Reached s.1 s.2 →
      ix.Reached (cs.foldl ix.step s).1 (cs.foldl ix.step s).2 from later _ .empty
  induction cs with
  | nil =>
    intro s h
    exact h
  | cons c cs ih =>
    intro s h
    rw [List.foldl_cons]
    apply ih
    rcases ix.step_cases s c with ⟨store, written, next⟩ | ⟨e, _, next⟩
    · rw [next]
      exact .change c h written
    · rwa [next]

/-- A store that has been reached keeps the bytes of the quads that it should hold. -/
theorem Reached.keeps (registry : ix.codec.registry = .standard)
    (clear : ix.codec.fingerprint.Delimited) {S : Set Quad} (h : ix.Reached store S) :
    ∃ T, ix.Keeps store T ∧ S = ix.quadsOf T := by
  have lawful := lawful_of_standard registry
  induction h with
  | empty =>
    refine ⟨∅, ix.empty_keeps, ?_⟩
    ext w
    simp [quadsOf]
  | change c _ written ih =>
    obtain ⟨T, kept, rfl⟩ := ih
    obtain ⟨U, kept', quads, _⟩ := kept.of_change lawful clear written
    exact ⟨U, kept', quads⟩
  | refresh _ done ih =>
    obtain ⟨T, kept, rfl⟩ := ih
    obtain ⟨_, _, _, _, _, ⟨_, fresh, _, given⟩ | ⟨_, _, _, _, _, failed⟩⟩ :=
      kept.refresh registry clear
    · cases done.unique given
      exact ⟨T, kept.withStatistics fresh, rfl⟩
    · cases done.unique failed

/-- The count found after a refresh for values with given bytes is that of the stored quads that have
these bytes. -/
theorem refreshed_cardinality (lawful : ix.codec.registry.Lawful) (working : store.faults = {})
    (stored : ∀ q ∈ qs, ∃ b, ix.codec.StoredAs q b) (h : t.Tallied qs) {fresh : List Mutation}
    (written : ix.writesOf t.finish = .ok fresh) {kind : CardinalityKind} {values : List Value}
    {parts : List Bytes} (arity : values.length = kind.arity)
    (encoded : values.mapM ix.codec.registry.encode = .ok parts) :
    (∃ w ∈ qs, ∃ b, ix.codec.StoredAs w b ∧ parts = b.valuesFor kind ∧
      Gives ((ix.storedStatistics (ix.withStatistics store fresh)).cardinality kind values)
        (.ok (counted (kind.countIn (w.valuesFor kind) qs)))) ∨
    ((∀ w ∈ qs, ∀ b, ix.codec.StoredAs w b → parts ≠ b.valuesFor kind) ∧
      Gives ((ix.storedStatistics (ix.withStatistics store fresh)).cardinality kind values)
        (.ok none)) := by
  -- An entry with these bytes is that of a stored quad with these bytes.
  have entry {others : List Value} {n : UInt64} (mem : ((kind, others), n) ∈ t.finish.cardinalities)
      (encoded' : others.mapM ix.codec.registry.encode = .ok parts) :
      ∃ q ∈ qs, ∃ d, ix.codec.StoredAs q d ∧ parts = d.valuesFor kind ∧ others = q.valuesFor kind := by
    obtain ⟨q, hq, rfl⟩ := Tally.exists_of_counted (h.mem_cardinalities_iff.1 mem)
    obtain ⟨d, own⟩ := stored q hq
    exact ⟨q, hq, d, own, own.encode_valuesFor lawful encoded', rfl⟩
  by_cases there : ∃ w ∈ qs, ∃ b, ix.codec.StoredAs w b ∧ parts = b.valuesFor kind
  · obtain ⟨w, hw, b, own, rfl⟩ := there
    refine .inl ⟨w, hw, b, own, rfl, ?_⟩
    refine cardinality_gives working written (fun _ _ => .of_lawful lawful _) (.of_lawful lawful _) arity
      encoded fun n => ?_
    rw [← h.mem_cardinalities_iff]
    constructor
    · intro mem
      obtain ⟨length, parts, encoded'⟩ := encodes_of_writesOf written mem
      exact ⟨_, mem, length, own.encode_valuesFor lawful encoded' ▸ encoded'⟩
    · rintro ⟨others, mem, _, encoded'⟩
      obtain ⟨q, _, d, own', same, rfl⟩ := entry mem encoded'
      have read := own.decode_valuesFor kind
      rw [same, own'.decode_valuesFor kind, Except.ok.injEq] at read
      exact read ▸ mem
  · refine .inr ⟨fun w hw b own same => there ⟨w, hw, b, own, same⟩, ?_⟩
    refine cardinality_gives working written (fun _ _ => .of_lawful lawful _) (.of_lawful lawful _) arity
      encoded fun n => ?_
    refine iff_of_false nofun ?_
    rintro ⟨others, mem, _, encoded'⟩
    obtain ⟨q, hq, d, own, same, _⟩ := entry mem encoded'
    exact there ⟨q, hq, d, own, same⟩

end Index

end QuadIndex
