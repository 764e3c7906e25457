import QuadIndex.Proofs.Index.Run
import QuadIndex.Proofs.Path.Coverage
import QuadIndex.Proofs.Query.Scan
import QuadIndex.Proofs.Store.Scan

/-!
# Queries find exactly the matches

After any run of calls, a query fails where something in its pattern has no bytes, and otherwise
yields the stored quads that match, each once and by increasing storage key (`query_answers`). The
range of the plan holds the keys of all matches; what else lies in it is left out when the entries
are compared with the whole pattern.
-/

namespace QuadIndex

open Bytes Result Reading

namespace Codec

variable {c : Codec} {p : Pattern} {hashed : Bool} {f : RowForm} {e : Error}

theorem path?_eq_some (h : path? hashed p = some f) : f.handles p = true ∧ f.hashed = hashed := by
  refine ⟨by simpa using List.find?_some h, ?_⟩
  obtain ⟨l, _, rfl⟩ := List.mem_map.1 (List.mem_of_find?_eq_some h)
  rfl

/-- A pattern that some table handles is read through the range of the first one. -/
theorem plan_of_path? (h : path? hashed p = some f) : c.plan hashed p = (do
    match ← f.range? c p with
    | none => .error .unsupportedPattern
    | some range => return ⟨f, range, false⟩) := by
  rw [plan, rangeFor, h, Option.isSome_some, if_pos rfl]
  dsimp only
  cases f.range? c p with
  | error e => rfl
  | ok range => cases range <;> rfl

theorem plan_of_no_path (h : path? hashed p = none) :
    c.plan hashed p = .ok ⟨⟨.spo, hashed⟩, .full, true⟩ := by
  rw [plan, h]
  rfl

/-- The form that is read depends on the kinds of the terms alone. -/
theorem plan_form {plan : ScanPlan} (planned : c.plan hashed p = .ok plan) :
    plan.form = (path? hashed p).getD ⟨.spo, hashed⟩ := by
  cases path : path? hashed p with
  | none =>
    cases (plan_of_no_path path).symm.trans planned
    rfl
  | some f =>
    rw [plan_of_path? path] at planned
    obtain ⟨range, _, planned⟩ := bind_eq_ok_iff.1 planned
    cases range with
    | none => cases planned
    | some range =>
      cases planned
      rfl

/-- A pattern whose terms have bytes has a plan, whose range holds the keys of all matches. -/
theorem exists_plan (lawful : c.registry.Lawful) (clear : c.fingerprint.Delimited)
    (hashed : Bool) (terms : ∀ i, p.EncodesAt c i) :
    ∃ plan, c.plan hashed p = .ok plan ∧ plan.form.hashed = hashed ∧
      ∀ b : QuadBytes, b.Delimited → (∀ i, p.MatchesAt c i (b.components.at i)) →
        plan.range.contains (b.key c.fingerprint plan.form) = true := by
  cases path : path? hashed p with
  | none =>
    refine ⟨_, plan_of_no_path path, rfl, fun b delimited _ => ?_⟩
    exact ByteRange.contains_iff.2 ⟨List.nil_le _, QuadBytes.key_lt_largest clear delimited⟩
  | some f =>
    obtain ⟨handled, mode⟩ := path?_eq_some path
    obtain ⟨range, found⟩ := RowForm.exists_range? handled terms
    refine ⟨⟨f, range, false⟩, ?_, mode, fun b delimited each => ?_⟩
    · rw [plan_of_path? path, found]
      rfl
    · exact (RowForm.contains_range_iff lawful delimited found).2 each

theorem encodeTerm_eq_error (lawful : c.registry.Lawful) {i : Position}
    (h : p.encodeTerm c i = .error e) : ∃ fault, e = .encoding fault := by
  cases i with
  | subject =>
    obtain ⟨_, _, failed⟩ := Term.mapM_eq_error h
    exact Iri.encode_eq_error failed
  | predicate =>
    obtain ⟨_, _, failed⟩ := Term.mapM_eq_error h
    exact Iri.encode_eq_error failed
  | object =>
    obtain ⟨_, _, failed⟩ := Term.mapM_eq_error h
    exact Registry.encode_eq_error lawful failed

theorem encode_eq_error (lawful : c.registry.Lawful) (h : p.encode c = .error e) :
    ∃ fault, e = .encoding fault := by
  simp only [Pattern.encode, bind_eq_error_iff] at h
  rcases h with h | ⟨_, _, h | ⟨_, _, h | ⟨_, _, h | ⟨_, _, h⟩⟩⟩⟩
  · exact encodeTerm_eq_error lawful h
  · exact encodeTerm_eq_error lawful h
  · exact encodeTerm_eq_error lawful h
  · obtain ⟨_, _, failed⟩ := Term.mapM_eq_error h
    exact Iri.encode_eq_error failed
  · cases h

/-- A pattern has no plan only where a term has no bytes. -/
theorem plan_eq_error (lawful : c.registry.Lawful) (h : c.plan hashed p = .error e) :
    ∃ fault, e = .encoding fault := by
  cases path : path? hashed p with
  | none => cases (plan_of_no_path path).symm.trans h
  | some f =>
    obtain ⟨handled, _⟩ := path?_eq_some path
    rw [plan_of_path? path, RowForm.range?, if_pos handled] at h
    simp only [bind_eq_error_iff, bind_eq_ok_iff] at h
    rcases h with h | ⟨_, ⟨_, _, _, _, _, _, same⟩, h⟩
    · rcases h with h | ⟨_, _, h | ⟨_, _, h | ⟨_, _, h⟩⟩⟩
      · exact encodeTerm_eq_error lawful h
      · exact encodeTerm_eq_error lawful h
      · exact encodeTerm_eq_error lawful h
      · cases h
    · cases same
      cases h

end Codec

/-- A list without repetitions that has one member is that member alone. -/
theorem eq_singleton_of_nodup {α : Type} {l : List α} {a : α} (nodup : l.Nodup)
    (only : ∀ b, b ∈ l ↔ b = a) : l = [a] := by
  refine List.perm_singleton.1 ((List.perm_ext_iff_of_nodup nodup (List.pairwise_singleton _ a)).2 ?_)
  simpa only [List.mem_singleton] using only

/-- The quad that an entry is read as, if it matches. -/
def QuadScan.accepted? (c : Codec) (f : RowForm) (s : EncodedPattern) (entry : Bytes × Bytes) :
    Option Quad :=
  (accept c f s entry).toOption.join

namespace Index

variable {ix : Index} {store : Store} {T : Set QuadBytes} {p : Pattern}

/-- The entries of a range are those of the bytes kept whose keys it holds. -/
theorem Keeps.mem_inRange (h : ix.Keeps store T) (l : Layout) (range : ByteRange)
    (entry : Bytes × Bytes) : entry ∈ (store.tables (ix.table l)).inRange range ↔
      ∃ b ∈ T, range.contains (b.key ix.codec.fingerprint (ix.form l)) = true ∧
        entry = (b.key ix.codec.fingerprint (ix.form l), []) := by
  obtain ⟨key, value⟩ := entry
  rw [Table.inRange, List.mem_filter, (h.table l).mem_entries]
  constructor
  · rintro ⟨⟨rfl, b, hb, rfl⟩, contained⟩
    exact ⟨b, hb, contained, rfl⟩
  · rintro ⟨b, hb, contained, same⟩
    obtain ⟨rfl, rfl⟩ := Prod.mk.inj same
    exact ⟨⟨rfl, b, hb, rfl⟩, contained⟩

/-- A query opens a scan of what the range of its plan holds. -/
theorem query_opens {plan : ScanPlan} {s : EncodedPattern} (working : store.faults = {})
    (planned : ix.codec.plan ix.hashed p = .ok plan) (encoded : p.encode ix.codec = .ok s) :
    Gives (ix.query store p) (.ok ⟨ix.codec, plan.form, s,
      some ⟨(store.tables (ix.table plan.form.layout)).inRange plan.range, none, false⟩⟩) := by
  unfold Index.query
  exact Gives.bind (Gives.lift planned) (Gives.bind (Gives.lift encoded)
    (Gives.bind (Store.scan_gives working _ _) (Gives.pure _)))

section

variable (lawful : ix.codec.registry.Lawful)

include lawful

/-- A query fails where something in the pattern has no bytes. -/
theorem query_of_not_encodes (store : Store) (h : ¬ p.Encodes ix.codec) :
    ∃ fault, Gives (ix.query store p) (.error (.encoding fault)) := by
  unfold query
  cases planned : ix.codec.plan ix.hashed p with
  | error e =>
    obtain ⟨fault, rfl⟩ := Codec.plan_eq_error lawful planned
    exact ⟨fault, Gives.bind_error (Gives.lift rfl)⟩
  | ok plan =>
    cases encoded : p.encode ix.codec with
    | error e =>
      obtain ⟨fault, rfl⟩ := Codec.encode_eq_error lawful encoded
      exact ⟨fault, Gives.bind (Gives.lift rfl) (Gives.bind_error (Gives.lift rfl))⟩
    | ok s => exact absurd (Pattern.exists_encode_iff.1 ⟨s, encoded⟩) h

/-- Quads by increasing key are distinct. -/
theorem nodup_of_sorted {f : RowForm} {qs : List Quad}
    (sorted : qs.Pairwise fun v w => ∃ b d, ix.codec.StoredAs v b ∧ ix.codec.StoredAs w d ∧
      b.key ix.codec.fingerprint f < d.key ix.codec.fingerprint f) : qs.Nodup := by
  apply sorted.imp
  intro v w less same
  obtain ⟨b, d, stored, stored', less⟩ := less
  subst same
  rw [stored.unique lawful stored'] at less
  exact List.lt_irrefl _ less

variable (clear : ix.codec.fingerprint.Delimited)

include clear

/-- The entry of stored bytes is read as their quad where it matches, and passed over elsewhere. -/
theorem accept_key {s : EncodedPattern} {f : RowForm} {b : QuadBytes} {w : Quad}
    (encoded : p.encode ix.codec = .ok s) (stored : ix.codec.StoredAs w b) :
    QuadScan.accept ix.codec f s (b.key ix.codec.fingerprint f, []) =
      .ok (QuadScan.accepted? ix.codec f s (b.key ix.codec.fingerprint f, [])) ∧
    ∀ v, QuadScan.accepted? ix.codec f s (b.key ix.codec.fingerprint f, []) = some v ↔
      w = v ∧ p.Matches ix.codec b := by
  have delimited := stored.delimited lawful
  have cell := QuadBytes.ofKey_key clear (f := f) delimited
  have components := delimited.components_row ix.codec.fingerprint f
  have decoded : ix.codec.decode f (b.cell ix.codec.fingerprint f) = .ok w :=
    (Codec.decode_cell delimited f).trans (stored.ofBytes lawful)
  have family : (b.cell ix.codec.fingerprint f).family = b.family := rfl
  have admits := Pattern.admits_iff_matches (b := b) encoded
  unfold QuadScan.accepted?
  by_cases matching : p.Matches ix.codec b
  · have accepted : QuadScan.accept ix.codec f s (b.key ix.codec.fingerprint f, []) =
        .ok (some w) := by
      simp only [QuadScan.accept, cell, components, decoded, family, admits.2 matching, bind,
        Except.bind, if_true, pure, Except.pure]
    rw [accepted]
    exact ⟨rfl, fun v => ⟨fun same => ⟨Option.some.inj same, matching⟩, fun h => h.1 ▸ rfl⟩⟩
  · have refused : s.admits b.components b.family = false :=
      Bool.eq_false_iff.2 fun admitted => matching (admits.1 admitted)
    have passed : QuadScan.accept ix.codec f s (b.key ix.codec.fingerprint f, []) = .ok none := by
      simp only [QuadScan.accept, cell, components, family, refused, bind, Except.bind,
        Bool.false_eq_true, if_false, pure, Except.pure]
    rw [passed]
    refine ⟨rfl, fun v => iff_of_false (fun same => ?_) fun h => matching h.2⟩
    cases same

/-- A query whose pattern has bytes yields the stored quads that match, by increasing key. -/
theorem Keeps.query (h : ix.Keeps store T) (encodes : p.Encodes ix.codec) :
    ∃ plan scan qs, ix.codec.plan ix.hashed p = .ok plan ∧ Gives (ix.query store p) (.ok scan) ∧
      scan.Yields qs ∧
      (∀ w, w ∈ qs ↔ w ∈ ix.quadsOf T ∧ ∃ b, ix.codec.StoredAs w b ∧ p.Matches ix.codec b) ∧
      qs.Pairwise fun v w => ∃ b d, ix.codec.StoredAs v b ∧ ix.codec.StoredAs w d ∧
        b.key ix.codec.fingerprint plan.form < d.key ix.codec.fingerprint plan.form := by
  obtain ⟨plan, planned, mode, covers⟩ :=
    Codec.exists_plan lawful clear ix.hashed encodes.1
  obtain ⟨s, encoded⟩ := Pattern.exists_encode_iff.2 encodes
  have form : ix.form plan.form.layout = plan.form := by
    rw [form, ← mode]
  have members := h.mem_inRange plan.form.layout plan.range
  have sorted : ((store.tables (ix.table plan.form.layout)).inRange plan.range).Pairwise
      fun a b => a.1 < b.1 := (store.tables _).sorted.filter _
  have opened := query_opens h.faults planned encoded
  rw [form] at members
  generalize (store.tables (ix.table plan.form.layout)).inRange plan.range = entries
    at members sorted opened
  have table : ∀ entry ∈ entries, ∃ b ∈ T, ∃ w, ix.codec.StoredAs w b ∧
      entry = (b.key ix.codec.fingerprint plan.form, []) := by
    intro entry mem
    obtain ⟨b, hb, _, same⟩ := (members entry).1 mem
    obtain ⟨w, _, stored⟩ := h.storedAs lawful hb
    exact ⟨b, hb, w, stored, same⟩
  refine ⟨plan, _, entries.filterMap (QuadScan.accepted? ix.codec plan.form s), planned, opened,
    ⟨entries, rfl, entries.map (QuadScan.accepted? ix.codec plan.form s), ?_, ?_⟩,
    fun v => ?_, ?_⟩
  · rw [List.map_map]
    apply List.map_congr_left
    intro entry mem
    obtain ⟨b, _, w, stored, rfl⟩ := table entry mem
    exact (accept_key lawful clear encoded stored).1
  · rw [List.filterMap_map]
    rfl
  · rw [List.mem_filterMap]
    constructor
    · rintro ⟨entry, mem, same⟩
      obtain ⟨b, hb, w, stored, rfl⟩ := table entry mem
      obtain ⟨rfl, matching⟩ := ((accept_key lawful clear encoded stored).2 v).1 same
      exact ⟨⟨b, hb, stored⟩, b, stored, matching⟩
    · rintro ⟨⟨b, hb, stored⟩, d, stored', matching⟩
      obtain rfl := stored.unique lawful stored'
      have contained := covers b (stored.delimited lawful) matching.1
      exact ⟨_, (members _).2 ⟨b, hb, contained, rfl⟩,
        ((accept_key lawful clear encoded stored).2 v).2 ⟨rfl, matching⟩⟩
  · rw [List.pairwise_filterMap]
    refine sorted.imp_of_mem fun {e e'} mem mem' less v same w same' => ?_
    obtain ⟨b, _, v', stored, rfl⟩ := table e mem
    obtain ⟨d, _, w', stored', rfl⟩ := table e' mem'
    obtain ⟨rfl, _⟩ := ((accept_key lawful clear encoded stored).2 v).1 same
    obtain ⟨rfl, _⟩ := ((accept_key lawful clear encoded stored').2 w).1 same'
    exact ⟨b, d, stored, stored', less⟩

end

/-- After any run of calls every quad that should be stored is stored as one string of bytes, its own
where it has some. A query fails exactly where something in the pattern has no bytes, and otherwise
yields the stored quads that match, each once, by increasing key in the table of its plan. -/
theorem query_answers (settings : Settings) (cs : List Change) (p : Pattern) :
    (∀ w ∈ ((standard settings).run cs).2, ∃ b, (standard settings).codec.StoredAs w b ∧
      (∀ d, (standard settings).codec.StoredAs w d → d = b) ∧
      ∀ d, (standard settings).codec.bytes w = .ok d → d = b) ∧
    (¬ p.Encodes (standard settings).codec → ∃ fault,
      Gives ((standard settings).query ((standard settings).run cs).1 p)
        (.error (.encoding fault))) ∧
    (p.Encodes (standard settings).codec →
      ∃ (plan : ScanPlan) (scan : QuadScan) (found : List Quad),
      (standard settings).codec.plan settings.hashed p = .ok plan ∧
      Gives ((standard settings).query ((standard settings).run cs).1 p) (.ok scan) ∧
      scan.drain.1 = found.map .ok ∧ found.Nodup ∧
      (∀ w, w ∈ found ↔ w ∈ ((standard settings).run cs).2 ∧
        ∃ b, (standard settings).codec.StoredAs w b ∧ p.Matches (standard settings).codec b) ∧
      found.Pairwise fun v w => ∃ b d, (standard settings).codec.StoredAs v b ∧
        (standard settings).codec.StoredAs w d ∧
        b.key (standard settings).codec.fingerprint plan.form <
          d.key (standard settings).codec.fingerprint plan.form) := by
  generalize hix : standard settings = ix
  have lawful : ix.codec.registry.Lawful := hix ▸ Registry.standard_lawful
  have clear : ix.codec.fingerprint.Delimited := hix ▸ Fingerprint.standard_delimited
  have mode : settings.hashed = ix.hashed := hix ▸ rfl
  rw [mode]
  clear hix mode
  obtain ⟨T, kept, quads, _⟩ := run_agrees lawful clear cs
  rw [quads]
  refine ⟨?_, query_of_not_encodes lawful _, fun encodes => ?_⟩
  · rintro w ⟨b, _, stored⟩
    exact ⟨b, stored, fun d stored' => stored'.unique lawful stored,
      fun d encoded => stored.bytes lawful encoded⟩
  · obtain ⟨plan, scan, found, planned, gives, yields, members, sorted⟩ :=
      kept.query lawful clear encodes
    obtain ⟨last, drained, _⟩ := yields.drain
    exact ⟨plan, scan, found, planned, gives, by rw [drained], nodup_of_sorted lawful sorted,
      members, sorted⟩

end Index

end QuadIndex
