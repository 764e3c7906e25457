import QuadIndex.Plan.Estimate
import QuadIndex.Proofs.Number.FloatCount
import QuadIndex.Proofs.Statistics.Refresh

/-!
# Refreshed estimates of patterns

The bytes of the constants of a pattern name one count, and every match carries these bytes. So after a
refresh no estimate is below the number of matches, and it is that number where the constants say all
that the pattern does (`refreshed_estimates`). The words that stand for there being no count are floats
far above all counts.
-/

namespace QuadIndex

open Bytes Result Reading Entries CardinalityKind

/-! ## The constants of a pattern -/

namespace Pattern

/-- The constant in a position, as an object value. -/
def valueAt? (p : Pattern) : Position → Option Value
  | .subject => p.subject.constant?.map .iri
  | .predicate => p.predicate.constant?.map .iri
  | .object => p.object.constant?

/-- One or two of subject, predicate and object are constants, and everything else is open. -/
structure FixesOneOrTwo (p : Pattern) : Prop where
  fixed : ∃ i, p.kinds.at i = .constant
  free : ∃ i, p.kinds.at i = .unbound
  plain (i : Position) : p.kinds.at i ≠ .range
  context : p.context = .unbound

variable {c : Codec} {p : Pattern} {b : QuadBytes} {i : Position} {v : Value}
  {kind : CardinalityKind} {values : List Value} {parts : List Bytes}

theorem valueAt?_isSome_iff : (p.valueAt? i).isSome = true ↔ p.kinds.at i = .constant := by
  cases i with
  | subject => cases h : p.subject <;> simp [valueAt?, kinds, Triple.at, Term.constant?, Term.kind, h]
  | predicate =>
    cases h : p.predicate <;> simp [valueAt?, kinds, Triple.at, Term.constant?, Term.kind, h]
  | object => cases h : p.object <;> simp [valueAt?, kinds, Triple.at, Term.constant?, Term.kind, h]

/-- The bytes in a position match a constant if they are its own. -/
theorem matchesAt_iff (h : p.valueAt? i = some v) :
    p.MatchesAt c i (b.components.at i) ↔ c.registry.encode v = .ok (b.valueAt i) := by
  have resource {t : Term Iri} {bs : Bytes} (h : t.constant?.map .iri = some v) :
      t.Matches Iri.encode bs ↔ c.registry.encode v = .ok (Registry.iriMarker :: bs) := by
    cases t with
    | unbound => cases h
    | range start stop => cases h
    | constant a =>
      cases h
      show a.encode = .ok bs ↔ _
      simp [Registry.encode, bind_eq_ok_iff, pure, Except.pure]
  cases i with
  | subject => exact resource h
  | predicate => exact resource h
  | object =>
    show p.object.Matches c.registry.encode b.components.object ↔ _
    obtain same : p.object = .constant v := by
      cases object : p.object with
      | unbound => simp [valueAt?, object, Term.constant?] at h
      | range start stop => simp [valueAt?, object, Term.constant?] at h
      | constant a => simpa [valueAt?, object, Term.constant?] using h
    rw [same]
    exact Iff.rfl

theorem matchesAt_of_unbound (h : p.kinds.at i = .unbound) :
    p.MatchesAt c i (b.components.at i) := by
  have all {α : Type} {encode : α → Except Error Bytes} {t : Term α} {bs : Bytes}
      (h : t.kind = .unbound) : t.Matches encode bs := by
    cases t with
    | unbound => trivial
    | constant a => cases h
    | range start stop => cases h
  cases i with
  | subject => exact all h
  | predicate => exact all h
  | object => exact all h

/-- A constant of a pattern that has bytes has some itself. -/
theorem exists_encode (encodes : p.EncodesAt c i) (h : p.valueAt? i = some v) :
    ∃ bs, c.registry.encode v = .ok bs := by
  have resource {t : Term Iri} (encodes : t.Encodes Iri.encode)
      (h : t.constant?.map .iri = some v) : ∃ bs, c.registry.encode v = .ok bs := by
    cases t with
    | unbound => cases h
    | range start stop => cases h
    | constant a =>
      cases h
      obtain ⟨bs, own⟩ := encodes a (.head _)
      exact ⟨_, bind_eq_ok_iff.2 ⟨bs, own, rfl⟩⟩
  cases i with
  | subject => exact resource encodes h
  | predicate => exact resource encodes h
  | object =>
    cases object : p.object with
    | unbound => simp [valueAt?, object, Term.constant?] at h
    | range start stop => simp [valueAt?, object, Term.constant?] at h
    | constant a =>
      obtain rfl : a = v := by simpa [valueAt?, object, Term.constant?] using h
      exact encodes a (object ▸ .head _)

/-- The count for a pattern is for constants of it, and for all of them unless there are three. -/
theorem countKey?_eq_some (h : Estimate.countKey? p = some (kind, values)) :
    kind.positions.map p.valueAt? = values.map some ∧
    ((∃ i, p.valueAt? i = none) → ∀ i, p.valueAt? i ≠ none → i ∈ kind.positions) := by
  unfold Estimate.countKey? at h
  split at h
  all_goals cases h
  all_goals
    refine ⟨by simp [positions, valueAt?, *], ?_⟩
    rintro ⟨j, free⟩ i fixed
    cases i <;> cases j <;> simp_all [positions, valueAt?]

theorem countKey?_eq_none (h : Estimate.countKey? p = none) (i : Position) :
    p.valueAt? i = none := by
  unfold Estimate.countKey? at h
  split at h
  all_goals cases h
  cases i <;> simp [valueAt?, *]

/-- Values found in positions have the bytes that are there if each of them has. -/
theorem mapM_valueAt?_iff {f : Position → Option Value} {g : Position → Bytes}
    {encode : Value → Except Error Bytes} {is : List Position} (same : is.map f = values.map some) :
    values.mapM encode = .ok (is.map g) ↔ ∀ i ∈ is, ∀ v, f i = some v → encode v = .ok (g i) := by
  rw [mapM_eq_ok_iff]
  induction is generalizing values with
  | nil =>
    obtain rfl : values = [] := by simpa using same.symm
    simp
  | cons i is ih =>
    cases values with
    | nil => cases same
    | cons v values =>
      obtain ⟨first, rest⟩ := List.cons.inj same
      rw [List.map_cons, List.map_cons, List.map_cons, List.cons.injEq, ih rest,
        List.forall_mem_cons, first]
      simp

section

variable (h : Estimate.countKey? p = some (kind, values))

include h

theorem length_of_countKey? : values.length = kind.arity := by
  have lengths := congrArg List.length (countKey?_eq_some h).1
  rw [List.length_map, List.length_map] at lengths
  rw [← lengths]
  cases kind <;> rfl

theorem exists_mapM_of_countKey? (encodes : ∀ i, p.EncodesAt c i) :
    ∃ parts, values.mapM c.registry.encode = .ok parts := by
  cases all : values.mapM c.registry.encode with
  | ok parts => exact ⟨parts, rfl⟩
  | error e =>
    obtain ⟨v, mem, failed⟩ := mapM_eq_error all
    have there : some v ∈ kind.positions.map p.valueAt? := by
      rw [(countKey?_eq_some h).1]
      exact List.mem_map.2 ⟨v, mem, rfl⟩
    obtain ⟨i, _, same⟩ := List.mem_map.1 there
    obtain ⟨bs, own⟩ := exists_encode (encodes i) same
    cases failed.symm.trans own

/-- What matches has the bytes of the constants. -/
theorem mapM_of_matches (matching : p.Matches c b) :
    values.mapM c.registry.encode = .ok (b.valuesFor kind) := by
  apply (mapM_valueAt?_iff (countKey?_eq_some h).1).2
  intro i _ v same
  exact (matchesAt_iff same).1 (matching.1 i)

/-- What has the bytes of the constants matches, if these say all that the pattern does. -/
theorem matches_of_mapM (fixes : p.FixesOneOrTwo)
    (encoded : values.mapM c.registry.encode = .ok (b.valuesFor kind)) : p.Matches c b := by
  obtain ⟨same, all⟩ := countKey?_eq_some h
  have each := (mapM_valueAt?_iff same).1 encoded
  have open_ (i : Position) (free : p.kinds.at i = .unbound) : p.valueAt? i = none := by
    apply Option.not_isSome_iff_eq_none.1
    intro fixed
    cases free.symm.trans (valueAt?_isSome_iff.1 fixed)
  obtain ⟨j, free⟩ := fixes.free
  refine ⟨fun i => ?_, ?_⟩
  · cases value : p.valueAt? i with
    | some v =>
      have mem : i ∈ kind.positions := all ⟨j, open_ j free⟩ i (by rw [value]; exact nofun)
      exact (matchesAt_iff value).2 (each i mem v value)
    | none =>
      have unbound : p.kinds.at i = .unbound := by
        cases kind : p.kinds.at i with
        | unbound => rfl
        | constant =>
          have fixed := valueAt?_isSome_iff.2 kind
          rw [value] at fixed
          cases fixed
        | range => exact absurd kind (fixes.plain i)
      exact matchesAt_of_unbound unbound
  · rw [fixes.context]
    trivial

end

end Pattern

/-! ## Estimates from a source -/

theorem Estimate.place?_unbounded : FloatOrder.place? unbounded =
    some (toLex (1, toLex (971, 0x1fffffffffffff))) := by rfl

theorem Estimate.place?_unknown : FloatOrder.place? unknown =
    some (toLex (1, toLex (971, 0x1ffffffffffffe))) := by rfl

/-- The estimate of a pattern is the count found for it, or the number of all quads where none is. -/
theorem StatisticsSource.patternSize_gives {source : StatisticsSource Reading} {p : Pattern}
    {total : UInt64} {found : Option UInt64} (size : Gives source.tableSize (.ok (some total)))
    (keyed : ∀ kind values, Estimate.countKey? p = some (kind, values) →
      Gives (source.cardinality kind values) (.ok found))
    (unkeyed : Estimate.countKey? p = none → found = none)
    (small : ∀ n, found = some n → n.toNat < 2 ^ 53) :
    Gives (source.patternSize p) (.ok (found.getD total).toFloat) := by
  have whole : Gives source.size (.ok total.toFloat) := size.bind (.pure _)
  have unbounded : (Estimate.unbounded == Estimate.unbounded) = true :=
    FloatOrder.eq_iff.2 ⟨_, Estimate.place?_unbounded, Estimate.place?_unbounded⟩
  have unknown : (Estimate.unknown == Estimate.unknown) = true :=
    FloatOrder.eq_iff.2 ⟨_, Estimate.place?_unknown, Estimate.place?_unknown⟩
  unfold patternSize
  cases key : Estimate.countKey? p with
  | none =>
    have none : Gives (source.count p) (.ok Estimate.unbounded) := by
      rw [count, key]
      exact .pure _
    refine none.bind ?_
    rw [unkeyed key, unbounded, Bool.true_or, if_pos rfl]
    exact whole
  | some entry =>
    obtain ⟨kind, values⟩ := entry
    cases found with
    | none =>
      have none : Gives (source.count p) (.ok Estimate.unknown) := by
        rw [count, key]
        exact (keyed kind values key).bind (.pure _)
      refine none.bind ?_
      rw [unknown, Bool.or_true, if_pos rfl]
      exact whole
    | some n =>
      have own : Gives (source.count p) (.ok n.toFloat) := by
        rw [count, key]
        exact (keyed kind values key).bind (.pure _)
      have large : (0 : ℤ) < 971 := by decide
      refine own.bind ?_
      rw [FloatOrder.toFloat_ne (small n rfl) Estimate.place?_unbounded large,
        FloatOrder.toFloat_ne (small n rfl) Estimate.place?_unknown large]
      exact .pure _

/-! ## Estimates after a refresh -/

theorem CardinalityKind.length_le_countIn {kind : CardinalityKind} {values : List Value}
    {qs found : List Quad} (distinct : found.Nodup)
    (each : ∀ w ∈ found, w ∈ qs ∧ w.valuesFor kind = values) :
    found.length ≤ kind.countIn values qs := by
  rw [countIn, List.countP_eq_length_filter]
  apply (distinct.subperm fun w mem => ?_).length_le
  obtain ⟨there, same⟩ := each w mem
  exact List.mem_filter.2 ⟨there, decide_eq_true same⟩

theorem CardinalityKind.countIn_le_length {kind : CardinalityKind} {values : List Value}
    {qs found : List Quad} (distinct : qs.Nodup)
    (each : ∀ w ∈ qs, w.valuesFor kind = values → w ∈ found) :
    kind.countIn values qs ≤ found.length := by
  rw [countIn, List.countP_eq_length_filter]
  apply ((distinct.filter _).subperm fun w mem => ?_).length_le
  obtain ⟨there, same⟩ := List.mem_filter.1 mem
  exact each w there (of_decide_eq_true same)

namespace Index

variable {ix : Index} {store : Store} {t : Tally} {qs found : List Quad} {fresh : List Mutation}
  {p : Pattern}

section

variable (lawful : ix.codec.registry.Lawful) (working : store.faults = {})
  (stored : ∀ q ∈ qs, ∃ b, ix.codec.StoredAs q b) (h : t.Tallied qs)
  (written : ix.writesOf t.finish = .ok fresh) (distinct : qs.Nodup) (few : qs.length < 2 ^ 32)
  (encodes : ∀ i, p.EncodesAt ix.codec i) (once : found.Nodup)
  (matches_ : ∀ w, w ∈ found ↔ w ∈ qs ∧ ∃ b, ix.codec.StoredAs w b ∧ p.Matches ix.codec b)

include lawful working stored h written distinct few encodes once matches_

/-- The count that a refresh has put down for the constants of a pattern is no less than the number of
matches, and the same where the constants say all that the pattern does. There is none only where
nothing matches. -/
theorem refreshed_count {kind : CardinalityKind} {values : List Value}
    (key : Estimate.countKey? p = some (kind, values)) : ∃ count : Option UInt64,
      Gives ((ix.storedStatistics (ix.withStatistics store fresh)).cardinality kind values)
        (.ok count) ∧
      (count = none → found = []) ∧
      ∀ n, count = some n → 0 < n.toNat ∧ found.length ≤ n.toNat ∧ n.toNat ≤ qs.length ∧
        (p.FixesOneOrTwo → n.toNat = found.length) := by
  obtain ⟨parts, encoded⟩ := Pattern.exists_mapM_of_countKey? key encodes
  have bytes {b : QuadBytes} (matching : p.Matches ix.codec b) : parts = b.valuesFor kind :=
    Except.ok.inj (encoded.symm.trans (Pattern.mapM_of_matches key matching))
  rcases refreshed_cardinality lawful working stored h written (Pattern.length_of_countKey? key)
    encoded with ⟨w, hw, b, own, rfl, gives⟩ | ⟨absent, gives⟩
  · have pos : 0 < kind.countIn (w.valuesFor kind) qs :=
      List.countP_pos_iff.2 ⟨w, hw, decide_eq_true rfl⟩
    have most : kind.countIn (w.valuesFor kind) qs ≤ qs.length := List.countP_le_length
    have word : (UInt64.ofNat (kind.countIn (w.valuesFor kind) qs)).toNat =
        kind.countIn (w.valuesFor kind) qs :=
      UInt64.toNat_ofNat_of_lt' (most.trans_lt (few.trans (by decide)))
    rw [counted_of_pos pos] at gives
    refine ⟨_, gives, nofun, fun n same => ?_⟩
    cases same
    rw [word]
    have upper : found.length ≤ kind.countIn (w.valuesFor kind) qs := by
      apply length_le_countIn once
      intro v mem
      obtain ⟨there, d, own', matching⟩ := (matches_ v).1 mem
      have read := own.decode_valuesFor kind
      rw [bytes matching, own'.decode_valuesFor kind, Except.ok.injEq] at read
      exact ⟨there, read⟩
    refine ⟨pos, upper, most, fun fixes => Nat.le_antisymm ?_ upper⟩
    -- All quads that are counted have the bytes that the refresh has written for their values.
    obtain ⟨_, written', again⟩ := encodes_of_writesOf written
      (h.mem_cardinalities_iff.2 (counted_of_pos pos))
    apply countIn_le_length distinct
    intro v there same
    obtain ⟨d, own'⟩ := stored v there
    have bytes' : b.valuesFor kind = d.valuesFor kind := by
      rw [← own.encode_valuesFor lawful again]
      rw [← same] at again
      exact own'.encode_valuesFor lawful again
    exact (matches_ v).2 ⟨there, d, own', Pattern.matches_of_mapM key fixes (bytes' ▸ encoded)⟩
  · refine ⟨none, gives, fun _ => ?_, fun _ some => nomatch some⟩
    apply List.eq_nil_iff_forall_not_mem.2
    intro w mem
    obtain ⟨there, b, own, matching⟩ := (matches_ w).1 mem
    exact absent w there b own (bytes matching)

/-- The estimate of a pattern after a refresh: no less than the number of matches, and the same where
there are any and the constants say all that the pattern does. -/
theorem refreshed_patternSize : ∃ n : UInt64,
    Gives ((ix.storedStatistics (ix.withStatistics store fresh)).patternSize p) (.ok n.toFloat) ∧
      found.length ≤ n.toNat ∧ n.toNat ≤ qs.length ∧
      (p.FixesOneOrTwo → n.toNat = if found = [] then qs.length else found.length) := by
  have total : t.finish.size.toNat = qs.length := by
    refine (congrArg UInt64.toNat h.size).trans ?_
    exact UInt64.toNat_ofNat_of_lt' (few.trans (by decide))
  have size := tableSize_gives working written fun _ _ => .of_lawful lawful _
  have least : found.length ≤ qs.length :=
    (once.subperm fun w mem => ((matches_ w).1 mem).1).length_le
  cases key : Estimate.countKey? p with
  | none =>
    have unkeyed : ∀ kind values, Estimate.countKey? p = some (kind, values) →
        Gives ((ix.storedStatistics (ix.withStatistics store fresh)).cardinality kind values)
          (.ok none) := by
      intro _ _ keyed
      cases key.symm.trans keyed
    have estimate := StatisticsSource.patternSize_gives size unkeyed (fun _ => rfl) nofun
    refine ⟨t.finish.size, estimate, total ▸ least, total.le, fun fixes => ?_⟩
    obtain ⟨i, fixed⟩ := fixes.fixed
    have value := Pattern.valueAt?_isSome_iff.2 fixed
    rw [Pattern.countKey?_eq_none key i] at value
    cases value
  | some entry =>
    obtain ⟨kind, values⟩ := entry
    obtain ⟨count, gives, absent, bounds⟩ := refreshed_count lawful working stored h written distinct
      few encodes once matches_ key
    have keyed : ∀ kind values, Estimate.countKey? p = some (kind, values) →
        Gives ((ix.storedStatistics (ix.withStatistics store fresh)).cardinality kind values)
          (.ok count) := by
      intro kind' values' same
      cases key.symm.trans same
      exact gives
    have estimate := StatisticsSource.patternSize_gives size keyed
      (fun unkeyed => nomatch key.symm.trans unkeyed)
      (fun n same => (bounds n same).2.2.1.trans_lt (few.trans (by decide)))
    cases count with
    | none =>
      refine ⟨t.finish.size, estimate, total ▸ least, total.le, fun _ => ?_⟩
      rw [if_pos (absent rfl), total]
    | some n =>
      obtain ⟨pos, upper, most, exact_⟩ := bounds n rfl
      refine ⟨n, estimate, upper, most, fun fixes => ?_⟩
      have some : found ≠ [] := by
        rintro rfl
        exact absurd (exact_ fixes) pos.ne'
      rw [if_neg some, exact_ fixes]

end

/-- After a refresh that succeeds, on a store of fewer than `2 ^ 32` quads, every pattern whose terms
have bytes is estimated at no less than the number of quads that a query finds for it. If one or two of
subject, predicate and object are constants and everything else is open, the estimate is that number,
or the number of all quads if it is zero. -/
theorem refreshed_estimates (settings : Settings) {store refreshed : Store} {S : Set Quad}
    {snapshot : Snapshot} {p : Pattern} (reached : (standard settings).Reached store S)
    (few : S.ncard < 2 ^ 32)
    (done : Gives ((standard settings).refresh store) (.ok (snapshot, refreshed)))
    (encodes : p.Encodes (standard settings).codec) :
    ∃ (n : UInt64) (scan : QuadScan) (found : List Quad),
      Gives (((standard settings).storedStatistics refreshed).patternSize p) (.ok n.toFloat) ∧
      Gives ((standard settings).query refreshed p) (.ok scan) ∧
      scan.drain.1 = found.map .ok ∧ found.length ≤ n.toNat ∧ n.toNat ≤ S.ncard ∧
      (UInt64.ofNat found.length).toFloat ≤ n.toFloat ∧
      (p.FixesOneOrTwo → n.toNat = if found = [] then S.ncard else found.length) := by
  have clear : (standard settings).codec.fingerprint.Delimited := Fingerprint.standard_delimited
  have lawful : (standard settings).codec.registry.Lawful := lawful_of_standard rfl
  obtain ⟨T, kept, rfl⟩ := reached.keeps rfl clear
  obtain ⟨qs, t, distinct, members, tallied, ⟨_, fresh, written, given⟩ | ⟨_, _, _, _, _, failed⟩⟩ :=
    kept.refresh rfl clear
  · cases done.unique given
    obtain ⟨plan, scan, found, _, gives, yields, matches_, sorted⟩ :=
      (kept.withStatistics fresh).query lawful clear encodes
    obtain ⟨_, drained, _⟩ := yields.drain
    have once : found.Nodup := nodup_of_sorted lawful sorted
    have stored : ∀ q ∈ qs, ∃ b, (standard settings).codec.StoredAs q b :=
      storedAs_of_members members
    rw [members, ncard_eq_length distinct] at few ⊢
    rw [members] at matches_
    obtain ⟨n, estimate, upper, most, exact_⟩ := refreshed_patternSize lawful kept.faults stored
      tallied written distinct few encodes.1 once matches_
    refine ⟨n, scan, found, estimate, gives, by rw [drained], upper, most, ?_, exact_⟩
    have word : (UInt64.ofNat found.length).toNat = found.length :=
      UInt64.toNat_ofNat_of_lt' (upper.trans_lt n.toNat_lt_size)
    apply (FloatOrder.toFloat_le_iff (by omega) (by omega)).2
    rw [UInt64.le_iff_toNat_le, word]
    exact upper
  · cases done.unique failed

/-- An integer is counted under its canonical form. It is estimated in any of its forms. -/
theorem refreshed_estimates_integer :
    let q : Quad := ⟨⟨"s"⟩, ⟨"p"⟩, .literal Xsd.integer "01", none⟩
    let p : Pattern :=
      { predicate := .constant ⟨"p"⟩, object := .constant (.literal Xsd.integer "+1") }
    let reached := (standard {}).run [.add [q]]
    (standard {}).Reached reached.1 reached.2 ∧ reached.2.ncard < 2 ^ 32 ∧
      p.Encodes (standard {}).codec ∧ p.FixesOneOrTwo ∧ ∃ snapshot refreshed,
        Gives ((standard {}).refresh reached.1) (.ok (snapshot, refreshed)) ∧
        Gives (((standard {}).storedStatistics refreshed).patternSize p)
          (.ok (1 : UInt64).toFloat) := by
  intro q p reached
  have clear : (standard {}).codec.fingerprint.Delimited := Fingerprint.standard_delimited
  have lawful : (standard {}).codec.registry.Lawful := Registry.standard_lawful
  let w : Quad := ⟨⟨"s"⟩, ⟨"p"⟩, .literal Xsd.integer "1", none⟩
  obtain ⟨b, bytes⟩ : ∃ b, (standard {}).codec.bytes q = .ok b := ⟨_, rfl⟩
  have canonical : (standard {}).codec.canonical q = .ok w := rfl
  have alone : reached.2 = {w} := by
    ext v
    exact mem_run_add lawful clear bytes canonical v
  have one : reached.2.ncard = 1 := by rw [alone, Set.ncard_singleton]
  have few : reached.2.ncard < 2 ^ 32 := by
    rw [one]
    decide
  have encodes : p.Encodes (standard {}).codec := Pattern.exists_encode_iff.1 ⟨_, rfl⟩
  have fixes : p.FixesOneOrTwo := by
    refine ⟨⟨.predicate, rfl⟩, ⟨.subject, rfl⟩, fun i => ?_, rfl⟩
    cases i <;> exact nofun
  have there : (standard {}).Reached reached.1 reached.2 := reached_run _ _
  obtain ⟨T, kept, quads⟩ := there.keeps rfl clear
  obtain ⟨qs, t, _, members, _, ⟨_, fresh, _, given⟩ | ⟨v, mem, lexical, same, _⟩⟩ :=
    kept.refresh rfl clear
  · obtain ⟨n, _, found, estimate, _, _, _, most, _, exact_⟩ :=
      refreshed_estimates {} there few given encodes
    have single : n = 1 := by
      rw [one] at most
      have count := exact_ fixes
      apply UInt64.toNat.inj
      show n.toNat = 1
      split at count
      · exact count.trans one
      · next some =>
        have pos := List.length_pos_of_ne_nil some
        omega
    exact ⟨there, few, encodes, fixes, _, _, given, single ▸ estimate⟩
  · have only : v ∈ ({w} : Set Quad) := by
      rw [← alone, quads, members]
      exact mem
    obtain rfl : v = w := only
    cases same

end Index

end QuadIndex
