import QuadIndex.Proofs.Join.Agreement
import QuadIndex.Proofs.Join.Subjects
import QuadIndex.Proofs.Key.Order

/-!
# The order of the subjects of a join by probing

A join by probing remembers one subject, so it repeats no subject that its first scan keeps together.
That scan goes through the quads of one predicate by object, then by subject, then by graph. So the
cells of a row stand together (`Codec.row_eq_of_between`), and below one object the subjects only
grow (`Codec.StoredAs.subject_le`). The join drops adjacent repetitions from the subjects of the scan
and keeps those that have all the rest (`iterativeJoin_order`).
-/

namespace QuadIndex

open Bytes Result Reading

section Runs

variable {α β : Type} [DecidableEq α] [DecidableEq β] {l : List α} {a : α}

/-- A list that grows or stays the same grows strictly once adjacent repetitions are dropped. -/
theorem pairwise_destutter {r : α → α → Prop} [Trans r r r]
    (grows : l.Pairwise fun a b => r a b ∨ a = b) : (l.destutter (· ≠ ·)).Pairwise r := by
  have weak : (l.destutter (· ≠ ·)).IsChain fun a b => r a b ∨ a = b :=
    (grows.sublist (List.destutter_sublist _ l)).isChain
  have apart := List.isChain_destutter (· ≠ ·) l
  apply List.IsChain.pairwise
  rw [List.isChain_iff_getElem] at weak apart ⊢
  intro i bound
  exact (weak i bound).resolve_right (apart i bound)

/-- Where nothing stands between two equal elements but the same again, dropping adjacent repetitions
drops all of them. -/
theorem nodup_destutter' (together : ∀ x y, [x, y, x].Sublist (a :: l) → y = x) :
    (l.destutter' (· ≠ ·) a).Nodup := by
  induction l generalizing a with
  | nil => exact List.nodup_singleton a
  | cons b l ih =>
    by_cases apart : a ≠ b
    · rw [List.destutter'_cons_pos _ apart, List.nodup_cons]
      constructor
      · -- If the first came again, another one would stand between the two.
        intro again
        have mem : a ∈ b :: l := (List.destutter'_sublist l (· ≠ ·) b).subset again
        have later : a ∈ l := (List.mem_cons.1 mem).resolve_left apart
        have found : [a, b, a].Sublist (a :: b :: l) :=
          ((List.singleton_sublist.2 later).cons_cons b).cons_cons a
        exact apart (together a b found).symm
      · apply ih
        intro x y found
        exact together x y (found.cons a)
    · rw [List.destutter'_cons_neg _ apart]
      apply ih
      intro x y found
      obtain rfl := not_not.1 apart
      exact together x y (found.trans ((List.sublist_cons_self a l).cons_cons a))

theorem nodup_destutter (together : ∀ x y, [x, y, x].Sublist l → y = x) :
    (l.destutter (· ≠ ·)).Nodup := by
  cases l with
  | nil => exact List.nodup_nil
  | cons a l => exact nodup_destutter' together

/-- Dropping adjacent repetitions drops no element altogether. -/
theorem mem_destutter'_iff {x : α} : x ∈ l.destutter' (· ≠ ·) a ↔ x ∈ a :: l := by
  induction l generalizing a with
  | nil => exact Iff.rfl
  | cons b l ih =>
    by_cases apart : a ≠ b
    · rw [List.destutter'_cons_pos _ apart, List.mem_cons, ih, ← List.mem_cons]
    · obtain rfl := not_not.1 apart
      rw [List.destutter'_cons_neg _ apart, ih]
      simp

theorem mem_destutter_iff {x : α} : x ∈ l.destutter (· ≠ ·) ↔ x ∈ l := by
  cases l with
  | nil => exact Iff.rfl
  | cons a l => exact mem_destutter'_iff

/-- What a map makes equal is dropped as well where the repetitions are dropped after it. -/
theorem destutter'_map_sublist (f : α → β) :
    ((l.map f).destutter' (· ≠ ·) (f a)).Sublist ((l.destutter' (· ≠ ·) a).map f) := by
  induction l generalizing a with
  | nil => exact .refl _
  | cons b l ih =>
    rw [List.map_cons]
    by_cases apart : f a ≠ f b
    · have before : a ≠ b := fun same => apart (congrArg f same)
      rw [List.destutter'_cons_pos _ apart, List.destutter'_cons_pos _ before, List.map_cons]
      exact ih.cons_cons (f a)
    · rw [List.destutter'_cons_neg _ apart]
      by_cases before : a ≠ b
      · rw [List.destutter'_cons_pos _ before, List.map_cons, not_not.1 apart]
        exact ih.cons _
      · rw [List.destutter'_cons_neg _ before]
        exact ih

theorem destutter_map_sublist (f : α → β) :
    ((l.map f).destutter (· ≠ ·)).Sublist ((l.destutter (· ≠ ·)).map f) := by
  cases l with
  | nil => exact .refl _
  | cons a l => exact destutter'_map_sublist f

theorem length_le_ncard {S : Set α} (finite : S.Finite) (nodup : l.Nodup)
    (members : ∀ a ∈ l, a ∈ S) : l.length ≤ S.ncard := by
  rw [← List.toFinset_card_of_nodup nodup, ← Set.ncard_coe_finset]
  apply Set.ncard_le_ncard _ finite
  intro a mem
  exact members a (List.mem_toFinset.1 mem)

/-- Of distinct pairs, as many begin with the same as there are others beside it, at most. -/
theorem count_map_fst_le {rows : List (α × β)} (distinct : rows.Nodup) {S : Set β}
    (finite : S.Finite) (members : ∀ b, (a, b) ∈ rows → b ∈ S) :
    (rows.map Prod.fst).count a ≤ S.ncard := by
  have counted : (rows.map Prod.fst).count a =
      ((rows.filter fun x => x.1 == a).map Prod.snd).length := by
    rw [List.count, List.countP_map, List.countP_eq_length_filter, List.length_map]
    rfl
  rw [counted]
  have begins {x : α × β} (mem : x ∈ rows.filter fun x => x.1 == a) : x = (a, x.2) ∧ x ∈ rows := by
    obtain ⟨mem, first⟩ := List.mem_filter.1 mem
    exact ⟨Prod.ext (beq_iff_eq.1 first) rfl, mem⟩
  apply length_le_ncard finite
  · apply (distinct.filter _).map_on
    intro x hx y hy same
    rw [(begins hx).1, (begins hy).1, same]
  · intro b mem
    obtain ⟨x, hx, rfl⟩ := List.mem_map.1 mem
    exact members x.2 ((begins hx).1 ▸ (begins hx).2)

end Runs

/-- One name comes before another by its bytes. -/
def Iri.Before (s t : Iri) : Prop := Text.utf8 s.text < Text.utf8 t.text

instance : Trans Iri.Before Iri.Before Iri.Before where
  trans := List.lt_trans

namespace Codec

variable {c : Codec} {hashed : Bool} {u v w : Quad} {a b d : QuadBytes}

/-- With one predicate and one object, the subjects grow with the keys. -/
theorem StoredAs.subject_le (lawful : c.registry.Lawful) (hv : c.StoredAs v b)
    (hw : c.StoredAs w d) (predicate : v.predicate = w.predicate)
    (object : b.components.object = d.components.object)
    (less : b.key c.fingerprint ⟨.po, hashed⟩ < d.key c.fingerprint ⟨.po, hashed⟩) :
    v.subject.Before w.subject ∨ v.subject = w.subject := by
  obtain ⟨subject, name, _⟩ := hv.parts
  obtain ⟨subject', name', _⟩ := hw.parts
  rw [predicate] at name
  rw [QuadBytes.key_lt_key_iff_of_predicate (hv.delimited lawful) (hw.delimited lawful)
    (Except.ok.inj (name.symm.trans name')), object, List.cons_lt_cons_iff] at less
  have below := (less.resolve_left (List.lt_irrefl _)).2
  rcases List.cons_lt_cons_iff.1 below with less | ⟨same, _⟩
  · rw [(Iri.encode_eq_ok_iff.1 subject).1, (Iri.encode_eq_ok_iff.1 subject').1] at less
    exact .inl less
  · exact .inr (Iri.encode_injective subject (same ▸ subject'))

/-- The cells between two of the same row are of this row. -/
theorem row_eq_of_between (lawful : c.registry.Lawful) {f : RowForm} (hu : c.StoredAs u a)
    (hv : c.StoredAs v b) (hw : c.StoredAs w d)
    (low : a.key c.fingerprint f < b.key c.fingerprint f)
    (high : b.key c.fingerprint f < d.key c.fingerprint f) (subject : u.subject = w.subject)
    (predicate : u.predicate = w.predicate) (object : u.object = w.object) :
    v.subject = u.subject ∧ v.object = u.object := by
  obtain ⟨first, second, _, _, third, read⟩ := hu.parts
  obtain ⟨first', second', _, _, third', read'⟩ := hw.parts
  rw [← subject] at first'
  rw [← predicate] at second'
  rw [← object] at read'
  have components : a.components = d.components := by
    have objects := Registry.eq_of_decode lawful (Registry.stored_of_encode third)
      (Registry.stored_of_encode third') read read'
    have subjects := Except.ok.inj (first.symm.trans first')
    have predicates := Except.ok.inj (second.symm.trans second')
    change Triple.mk a.components.subject a.components.predicate a.components.object = _
    rw [subjects, predicates, objects]
  have between := QuadBytes.take_ordered_of_between (n := 3) (hu.delimited lawful)
    (hv.delimited lawful) (hw.delimited lawful) (Std.le_of_lt low) (Std.le_of_lt high)
    (congrArg _ (QuadBytes.ordered_inj.2 components))
  have row : b.components = a.components := QuadBytes.ordered_inj.1 between
  obtain ⟨subject', _, _, _, _, read''⟩ := hv.parts
  rw [row] at subject' read''
  exact ⟨Iri.encode_injective subject' first, Except.ok.inj (read''.symm.trans read)⟩

end Codec

namespace SubjectStream

variable {probe : Iri → Except Error Bool} {has : Iri → Bool} {qs : List Quad}

/-- After a subject, what is emitted is what is left of the subjects once it is put before them,
adjacent repetitions are dropped, and those that do not pass are dropped. -/
theorem emitted_of_last (s : Iri) (decides : ∀ q ∈ qs, probe q.subject = .ok (has q.subject)) :
    ((((qs.map (·.subject)).destutter' (· ≠ ·) s).filter has).map .ok) =
      ([s].filter has).map .ok ++ emitted probe (some s) qs := by
  induction qs generalizing s with
  | nil => exact (List.append_nil _).symm
  | cons q qs ih =>
    obtain ⟨first, rest⟩ := List.forall_mem_cons.1 decides
    rw [List.map_cons, emitted]
    by_cases again : s = q.subject
    · subst again
      rw [List.destutter'_cons_neg _ (not_not.2 rfl), if_pos rfl]
      exact ih _ rest
    · rw [List.destutter'_cons_pos _ again, if_neg (fun same => again (Option.some.inj same)),
        ← List.singleton_append (x := s), List.filter_append, List.map_append, ih q.subject rest, first]
      cases passes : has q.subject <;> simp [passes]

/-- Where every probe decides, the subjects emitted are those of the scan, adjacent repetitions
dropped, that pass. -/
theorem emitted_eq (decides : ∀ q ∈ qs, probe q.subject = .ok (has q.subject)) :
    emitted probe none qs = ((((qs.map (·.subject)).destutter (· ≠ ·)).filter has).map .ok) := by
  cases qs with
  | nil => rfl
  | cons q qs =>
    obtain ⟨first, rest⟩ := List.forall_mem_cons.1 decides
    rw [List.map_cons, List.destutter_cons', emitted_of_last q.subject rest, emitted,
      if_neg (by simp), first]
    cases passes : has q.subject <;> simp [passes]

end SubjectStream

namespace Index

/-- The stored quads come one before the other in the table that begins with predicates. -/
def InOrder (ix : Index) (v w : Quad) : Prop :=
  ∃ b d, ix.codec.StoredAs v b ∧ ix.codec.StoredAs w d ∧
    b.key ix.codec.fingerprint ⟨.po, ix.hashed⟩ < d.key ix.codec.fingerprint ⟨.po, ix.hashed⟩

section

variable {ix : Index} {store : Store} {T : Set QuadBytes} {p : JoinPattern} {ps : List JoinPattern}
  {qs : List Quad} (lawful : ix.codec.registry.Lawful)

include lawful

/-- In the order of the table no other row stands between quads of one row. -/
theorem row_eq_of_inOrder {u v w : Quad} (low : ix.InOrder u v) (high : ix.InOrder v w)
    (predicate : u.predicate = w.predicate)
    (row : (u.subject, u.object) = (w.subject, w.object)) :
    (v.subject, v.object) = (u.subject, u.object) := by
  obtain ⟨a, b, hu, hv, low⟩ := low
  obtain ⟨b', d, hv', hw, high⟩ := high
  obtain rfl := hv.unique lawful hv'
  obtain ⟨subject, object⟩ := Prod.mk.inj row
  obtain ⟨same, same'⟩ :=
    Codec.row_eq_of_between lawful hu hv hw low high subject predicate object
  exact Prod.ext same same'

/-- Of one predicate in the order of its table, every subject comes back at most once for each of its
objects when adjacent repetitions are dropped. -/
theorem count_destutter_le (sorted : qs.Pairwise ix.InOrder) {i : Iri}
    (predicate : ∀ w ∈ qs, w.predicate = i) (s : Iri) {S : Set Value} (finite : S.Finite)
    (objects : ∀ w ∈ qs, w.subject = s → w.object ∈ S) :
    ((qs.map (·.subject)).destutter (· ≠ ·)).count s ≤ S.ncard := by
  -- The cells of a row stand together, so rows come once each when repetitions are dropped.
  let row (w : Quad) : Iri × Value := (w.subject, w.object)
  have distinct : ((qs.map row).destutter (· ≠ ·)).Nodup := by
    apply nodup_destutter
    intro x y found
    obtain ⟨part, sub, same⟩ := List.sublist_map_iff.1 found
    obtain ⟨u, v, w, rfl⟩ := List.length_eq_three.1 (by simpa using (congrArg List.length same).symm)
    simp only [List.map_cons, List.map_nil, List.cons.injEq, and_true] at same
    obtain ⟨rfl, rfl, back⟩ := same
    have order := sorted.sublist sub
    simp only [List.pairwise_cons, List.mem_cons, forall_eq_or_imp] at order
    have one : u.predicate = w.predicate :=
      (predicate u (sub.subset (by simp))).trans (predicate w (sub.subset (by simp))).symm
    exact row_eq_of_inOrder lawful order.1.1 order.2.1.1 one back
  have subjects : qs.map (·.subject) = (qs.map row).map Prod.fst := by
    rw [List.map_map]
    rfl
  calc ((qs.map (·.subject)).destutter (· ≠ ·)).count s
      ≤ (((qs.map row).destutter (· ≠ ·)).map Prod.fst).count s := by
        rw [subjects]
        exact (destutter_map_sublist Prod.fst).count_le s
    _ ≤ S.ncard := by
        apply count_map_fst_le distinct finite
        intro o mem
        obtain ⟨w, hw, same⟩ := List.mem_map.1 ((List.destutter_sublist _ _).subset mem)
        obtain ⟨rfl, rfl⟩ := Prod.mk.inj same
        exact objects w hw rfl

/-- Of one predicate and one object in the order of their table, the subjects grow when adjacent
repetitions are dropped. -/
theorem pairwise_before (sorted : qs.Pairwise ix.InOrder) {i : Iri} {o : Value}
    (same : ∀ w ∈ qs, w.predicate = i ∧ ix.codec.registry.canonicalize o = .ok w.object) :
    ((qs.map (·.subject)).destutter (· ≠ ·)).Pairwise Iri.Before := by
  apply pairwise_destutter
  rw [List.pairwise_map]
  apply sorted.imp_of_mem
  intro v w mem mem' before
  obtain ⟨b, d, hv, hw, less⟩ := before
  obtain ⟨predicate, canonical⟩ := same v mem
  obtain ⟨predicate', canonical'⟩ := same w mem'
  rw [hv.canonicalize_iff lawful] at canonical
  rw [hw.canonicalize_iff lawful] at canonical'
  exact hv.subject_le lawful hw (predicate.trans predicate'.symm)
    (Except.ok.inj (canonical.symm.trans canonical')) less

variable (clear : ix.codec.fingerprint.Delimited)

include clear

/-- A pattern of a join is read in the table that begins with predicates, and its scan goes through
the stored quads that have what it asks for. -/
theorem Keeps.scan_inOrder (h : ix.Keeps store T) (encodes : p.toPattern.Encodes ix.codec) :
    ∃ scan qs, Gives (ix.query store p.toPattern) (.ok scan) ∧ scan.Yields qs ∧
      scan.form = ⟨.po, ix.hashed⟩ ∧ qs.Pairwise ix.InOrder ∧
      ∀ w, w ∈ qs ↔ w ∈ ix.quadsOf T ∧ w.predicate = p.predicate ∧
        ∀ o ∈ p.object, ix.codec.registry.canonicalize o = .ok w.object := by
  obtain ⟨plan, scan, qs, planned, gives, yields, members, sorted⟩ := h.query lawful clear encodes
  obtain ⟨terms, encoded⟩ := Pattern.exists_encode_iff.2 encodes
  have form : plan.form = ⟨.po, ix.hashed⟩ := by
    rw [Codec.plan_form planned, JoinPattern.path?_toPattern, Option.getD_some]
  have opened := Except.ok.inj (gives.unique (query_opens h.faults planned encoded))
  rw [form] at sorted
  refine ⟨scan, qs, gives, yields, by rw [opened, form], sorted, fun w => ?_⟩
  rw [members]
  apply and_congr_right
  rintro ⟨b, _, stored⟩
  constructor
  · rintro ⟨d, stored', matching⟩
    exact (JoinPattern.matches_iff lawful stored').1 matching
  · intro asked
    exact ⟨b, stored, (JoinPattern.matches_iff lawful stored).2 asked⟩

open Classical in
/-- A join by probing of patterns with bytes drops adjacent repetitions from the subjects of its first
scan, and keeps those that have what the other patterns ask for. -/
theorem Keeps.emits (h : ix.Keeps store T)
    (encodes : ∀ q ∈ p :: ps, q.toPattern.Encodes ix.codec) :
    ∃ (scan : QuadScan) (qs : List Quad) (stream last : SubjectStream) (has : Iri → Bool),
      Gives (ix.query store p.toPattern) (.ok scan) ∧ scan.drain.1 = qs.map .ok ∧
      scan.form = ⟨.po, ix.hashed⟩ ∧ qs.Pairwise ix.InOrder ∧
      (∀ w, w ∈ qs ↔ w ∈ ix.quadsOf T ∧ w.predicate = p.predicate ∧
        ∀ o ∈ p.object, ix.codec.registry.canonicalize o = .ok w.object) ∧
      (∀ s, has s = true ↔ ∀ q ∈ ps, q.HeldBy ix.codec.registry (ix.quadsOf T) s) ∧
      (∀ s, s ∈ ((qs.map (·.subject)).destutter (· ≠ ·)).filter has ↔
        ∀ q ∈ p :: ps, q.HeldBy ix.codec.registry (ix.quadsOf T) s) ∧
      Gives (ix.iterativeJoin store (p :: ps)) (.ok stream) ∧
      Gives (JoinResults.drain (.streamed stream))
        (.ok ((((qs.map (·.subject)).destutter (· ≠ ·)).filter has).map .ok, .streamed last)) ∧
      last.outer = none := by
  obtain ⟨first, rest⟩ := List.forall_mem_cons.1 encodes
  obtain ⟨scan, qs, gives, yields, form, sorted, members⟩ := h.scan_inOrder lawful clear first
  let has (s : Iri) : Bool := decide (∀ q ∈ ps, q.HeldBy ix.codec.registry (ix.quadsOf T) s)
  let probe (s : Iri) : Except Error Bool := .ok (has s)
  have probes : ∀ q ∈ qs, Gives (SubjectStream.matchesAll ix store q.subject ps)
      (probe q.subject) := by
    intro q mem
    obtain ⟨b, _, stored⟩ := ((members q).1 mem).1
    cases h.matchesAll lawful clear ⟨_, stored.parts.1⟩ ps with
    | failed _ failing => exact absurd failing (not_fails rest _)
    | @given answer gives _ holding =>
      have same : answer = has q.subject := by
        rw [Bool.eq_iff_iff, holding, passes_iff lawful rest, decide_eq_true_iff]
      rw [same] at gives
      exact gives
  obtain ⟨last, gone, taken⟩ := @SubjectStream.take_gives ⟨ix, store, some scan, ps, none⟩ scan
    probe qs (scan.fuel + 1) (Nat.lt_succ_of_le yields.length_le_fuel) rfl yields probes
  rw [SubjectStream.emitted_eq fun _ _ => rfl] at taken
  obtain ⟨_, drained, _⟩ := yields.drain
  refine ⟨scan, qs, _, last, has, gives, by rw [drained], form, sorted, members,
    fun s => decide_eq_true_iff, fun s => ?_, gives.bind (.pure _), taken, gone⟩
  rw [List.mem_filter, mem_destutter_iff, List.mem_map, decide_eq_true_iff, List.forall_mem_cons]
  apply and_congr_left'
  simp only [members, JoinPattern.HeldBy]
  constructor
  · rintro ⟨w, ⟨hw, asked⟩, subject⟩
    exact ⟨w, hw, subject, asked⟩
  · rintro ⟨w, hw, subject, asked⟩
    exact ⟨w, ⟨hw, asked⟩, subject⟩

end

/-- After any run of calls, joining predicates with objects by probing gives the subjects that have
all of them, each once, by increasing bytes. Joining predicates goes through the subjects of the first
one in the order of its table, drops adjacent repetitions, and gives those that have all the others;
so it gives a subject at most once for each of its objects, in however many graphs these stand. After
the last of them the results have ended. -/
theorem iterativeJoin_order (settings : Settings) (cs : List Change) :
    (∀ pairs : List (Iri × Value),
      (∀ x ∈ pairs, (∃ bs, x.1.encode = .ok bs) ∧
        ∃ bs, (standard settings).codec.registry.encode x.2 = .ok bs) →
      ∃ (stream last : SubjectStream) (subjects : List Iri),
        Gives ((standard settings).iterativeJoin ((standard settings).run cs).1
          (pairs.map .ofPair)) (.ok stream) ∧
        Gives (JoinResults.drain (.streamed stream))
          (.ok (subjects.map .ok, .streamed last)) ∧ last.outer = none ∧
        (subjects.Pairwise fun s t => Text.utf8 s.text < Text.utf8 t.text) ∧
        ∀ s, s ∈ subjects ↔ pairs ≠ [] ∧ ∀ x ∈ pairs,
          ∃ w ∈ ((standard settings).run cs).2, w.subject = s ∧ w.predicate = x.1 ∧
            (standard settings).codec.registry.canonicalize x.2 = .ok w.object) ∧
    ∀ (i : Iri) (others : List Iri), (∀ j ∈ i :: others, ∃ bs, j.encode = .ok bs) →
      ∃ (scan : QuadScan) (found : List Quad) (stream last : SubjectStream) (has : Iri → Bool),
        Gives ((standard settings).query ((standard settings).run cs).1
          (JoinPattern.ofPredicate i).toPattern) (.ok scan) ∧
        scan.form = ⟨.po, settings.hashed⟩ ∧ scan.drain.1 = found.map .ok ∧
        (∀ w, w ∈ found ↔ w ∈ ((standard settings).run cs).2 ∧ w.predicate = i) ∧
        (found.Pairwise fun v w => ∃ b d, (standard settings).codec.StoredAs v b ∧
          (standard settings).codec.StoredAs w d ∧
          b.key (standard settings).codec.fingerprint ⟨.po, settings.hashed⟩ <
            d.key (standard settings).codec.fingerprint ⟨.po, settings.hashed⟩) ∧
        (∀ s, has s = true ↔ ∀ j ∈ others,
          ∃ w ∈ ((standard settings).run cs).2, w.subject = s ∧ w.predicate = j) ∧
        Gives ((standard settings).iterativeJoin ((standard settings).run cs).1
          ((i :: others).map .ofPredicate)) (.ok stream) ∧
        Gives (JoinResults.drain (.streamed stream))
          (.ok ((((found.map (·.subject)).destutter (· ≠ ·)).filter has).map .ok,
            .streamed last)) ∧ last.outer = none ∧
        ∀ s, (((found.map (·.subject)).destutter (· ≠ ·)).filter has).count s ≤
          {o | ∃ w ∈ ((standard settings).run cs).2,
            w.subject = s ∧ w.predicate = i ∧ w.object = o}.ncard := by
  generalize hix : standard settings = ix
  have lawful : ix.codec.registry.Lawful := hix ▸ Registry.standard_lawful
  have clear : ix.codec.fingerprint.Delimited := hix ▸ Fingerprint.standard_delimited
  have mode : settings.hashed = ix.hashed := hix ▸ rfl
  rw [mode]
  clear hix mode
  obtain ⟨T, kept, quads, _⟩ := run_agrees lawful clear cs
  rw [quads]
  refine ⟨fun pairs encodes => ?_, fun i others encodes => ?_⟩
  · cases pairs with
    | nil =>
      exact ⟨_, _, [], .pure _, SubjectStream.take_ended 1 rfl, rfl, .nil, by simp⟩
    | cons x pairs =>
      obtain ⟨scan, qs, stream, last, has, _, _, _, sorted, members, _, subjects, begun, drained,
        gone⟩ := kept.emits lawful clear (List.forall_mem_map (l := x :: pairs).2 fun x mem =>
          JoinPattern.encodes_of_parts (p := .ofPair x) (encodes x mem).1
            fun o asked => Option.mem_some.1 asked ▸ (encodes x mem).2)
      refine ⟨stream, last, _, begun, drained, gone, ?_, fun s => ?_⟩
      · apply List.Pairwise.filter
        apply pairwise_before lawful sorted (i := x.1) (o := x.2)
        intro w mem
        obtain ⟨_, predicate, object⟩ := (members w).1 mem
        exact ⟨predicate, object x.2 rfl⟩
      · rw [subjects, and_iff_right (List.cons_ne_nil x pairs)]
        apply (List.forall_mem_map (l := x :: pairs)).trans
        exact forall₂_congr fun x _ => JoinPattern.heldBy_ofPair
  · obtain ⟨scan, qs, stream, last, has, gives, drained, form, sorted, members, passes, _, begun,
      emitted, gone⟩ := kept.emits lawful clear (List.forall_mem_map (l := i :: others).2 fun j mem =>
        JoinPattern.encodes_of_parts (p := .ofPredicate j) (encodes j mem) nofun)
    have found (w : Quad) : w ∈ qs ↔ w ∈ ix.quadsOf T ∧ w.predicate = i := by
      rw [members]
      simp [JoinPattern.ofPredicate]
    refine ⟨scan, qs, stream, last, has, gives, form, drained, found, sorted, fun s => ?_, begun,
      emitted, gone, fun s => ?_⟩
    · rw [passes, List.forall_mem_map]
      exact forall₂_congr fun j _ => JoinPattern.heldBy_ofPredicate
    · apply (List.Sublist.count_le s List.filter_sublist).trans
      apply count_destutter_le lawful sorted (fun w mem => ((found w).1 mem).2)
      · apply (List.finite_toSet (qs.map (·.object))).subset
        rintro o ⟨w, hw, _, predicate, rfl⟩
        exact List.mem_map.2 ⟨w, (found w).2 ⟨hw, predicate⟩, rfl⟩
      · intro w mem subject
        obtain ⟨hw, predicate⟩ := (found w).1 mem
        exact ⟨w, hw, subject, predicate, rfl⟩

end Index

end QuadIndex
