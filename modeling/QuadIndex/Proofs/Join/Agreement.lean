import QuadIndex.Join.Basic
import QuadIndex.Proofs.Join.Hash

/-!
# Both ways to join agree

A join by probing emits what its first scan and its probes decide (`emitted`): it ends with the first
probe that fails, and otherwise has emitted the subjects that pass. A join by counting fails, and
leaves subjects, under the same conditions. So on every store that calls can make both fail with the
same error or have the same subjects (`joins_agree`).
-/

namespace QuadIndex

open Result Reading

namespace SubjectStream

/-- What the subjects of quads become, where `probe` decides about each of them. -/
def emitted (probe : Iri → Except Error Bool) (last : Option Iri) :
    List Quad → List (Except Error Iri)
  | [] => []
  | q :: qs =>
    if last = some q.subject then emitted probe last qs
    else match probe q.subject with
      | .ok true => .ok q.subject :: emitted probe (some q.subject) qs
      | .ok false => emitted probe (some q.subject) qs
      | .error e => [.error e]

variable {s : SubjectStream} {outer : QuadScan} {probe : Iri → Except Error Bool}
  {last : Option Iri} {qs : List Quad}

theorem advance_of_end {outer' : QuadScan} (h : outer.next = (none, outer')) :
    s.advance outer last = (do
      match ← outer'.close.attempt with
      | .ok () => return (none, s.ended)
      | .error e => return (some (.error e), s.ended)) := by
  rw [advance]
  split
  · next same =>
    obtain ⟨_, rfl⟩ := Prod.mk.inj (h.symm.trans same)
    rfl
  · next same => cases h.symm.trans same
  · next same => cases h.symm.trans same

theorem advance_of_error {outer' : QuadScan} {e : Error}
    (h : outer.next = (some (.error e), outer')) :
    s.advance outer last = (do
      let _ ← outer'.close.attempt
      return (some (.error e), s.ended)) := by
  rw [advance]
  split
  · next same => cases h.symm.trans same
  · next same =>
    obtain ⟨first, rfl⟩ := Prod.mk.inj (h.symm.trans same)
    cases first
    rfl
  · next same => cases h.symm.trans same

theorem advance_of_quad {outer' : QuadScan} {q : Quad} (h : outer.next = (some (.ok q), outer')) :
    s.advance outer last =
      if last = some q.subject then s.advance outer' last
      else do
        match ← (matchesAll s.index s.store q.subject s.probes).attempt with
        | .ok true =>
          return (some (.ok q.subject), { s with outer := some outer', last := some q.subject })
        | .ok false => s.advance outer' (some q.subject)
        | .error e => do
          let _ ← outer'.close.attempt
          return (some (.error e), s.ended) := by
  rw [advance]
  split
  · next same => cases h.symm.trans same
  · next same => cases h.symm.trans same
  · next other outer'' same =>
    obtain ⟨first, rfl⟩ := Prod.mk.inj (h.symm.trans same)
    cases first
    rfl

/-- What a step of a stream does: it ends or fails with what is emitted, or gives the first subject
emitted and leaves a stream that emits the others. -/
inductive Advances (s : SubjectStream) (probe : Iri → Except Error Bool) (qs : List Quad) :
    List (Except Error Iri) → Option (Except Error Iri) → SubjectStream → Prop
  | ended : Advances s probe qs [] none s.ended
  | failed (e : Error) : Advances s probe qs [.error e] (some (.error e)) s.ended
  | given {subject : Iri} {outer' : QuadScan} {rest : List Quad} : outer'.Yields rest →
    rest.length < qs.length → (∀ q ∈ rest, q ∈ qs) →
    Advances s probe qs (.ok subject :: emitted probe (some subject) rest) (some (.ok subject))
      { s with outer := some outer', last := some subject }

theorem Advances.cons {q : Quad} {items : List (Except Error Iri)}
    {item : Option (Except Error Iri)} {s' : SubjectStream}
    (h : Advances s probe qs items item s') : Advances s probe (q :: qs) items item s' := by
  cases h with
  | ended => exact .ended
  | failed e => exact .failed e
  | given yields shorter members =>
    exact .given yields (Nat.lt_succ_of_lt shorter) fun r hr =>
      List.mem_cons_of_mem q (members r hr)

/-- The next item of a stream is the first one emitted, and the stream after it emits the others. -/
theorem advance_gives (yields : outer.Yields qs)
    (probes : ∀ q ∈ qs, Gives (matchesAll s.index s.store q.subject s.probes) (probe q.subject)) :
    ∃ item s', Gives (s.advance outer last) (.ok (item, s')) ∧
      Advances s probe qs (emitted probe last qs) item s' := by
  induction qs generalizing outer last with
  | nil =>
    obtain ⟨outer', next, rest⟩ := yields.next
    refine ⟨none, s.ended, ?_, .ended⟩
    rw [advance_of_end next]
    exact rest.close.attempt.bind (Gives.pure _)
  | cons q qs ih =>
    obtain ⟨outer', next, rest⟩ := yields.next
    have later : ∀ r ∈ qs, Gives (matchesAll s.index s.store r.subject s.probes)
        (probe r.subject) := fun r hr => probes r (List.mem_cons_of_mem q hr)
    have first := (probes q List.mem_cons_self).attempt
    rw [advance_of_quad next, emitted]
    by_cases again : last = some q.subject
    · rw [if_pos again, if_pos again]
      obtain ⟨item, s', gives, advances⟩ := @ih outer' last rest later
      exact ⟨item, s', gives, advances.cons⟩
    · rw [if_neg again, if_neg again]
      cases decided : probe q.subject with
      | error e =>
        rw [decided] at first
        exact ⟨_, _, first.bind (rest.close.attempt.bind (Gives.pure _)), .failed e⟩
      | ok passes =>
        rw [decided] at first
        cases passes with
        | true =>
          exact ⟨_, _, first.bind (Gives.pure _),
            .given rest (Nat.lt_succ_self _) fun r hr => List.mem_cons_of_mem q hr⟩
        | false =>
          obtain ⟨item, s', gives, advances⟩ := @ih outer' (some q.subject) rest later
          exact ⟨item, s', first.bind gives, advances.cons⟩

theorem take_ended (limit : Nat) (gone : s.outer = none) :
    Gives (JoinResults.take (limit + 1) (.streamed s)) (.ok ([], .streamed s)) := by
  unfold JoinResults.take JoinResults.next SubjectStream.next
  dsimp only
  rw [gone]
  intro _
  rfl

/-- Taking enough items of a stream takes all that are emitted, and leaves the stream ended. -/
theorem take_gives (limit : Nat) (enough : qs.length < limit) (begun : s.outer = some outer)
    (yields : outer.Yields qs)
    (probes : ∀ q ∈ qs, Gives (matchesAll s.index s.store q.subject s.probes) (probe q.subject)) :
    ∃ last : SubjectStream, last.outer = none ∧
      Gives (JoinResults.take (limit + 1) (.streamed s))
        (.ok (emitted probe s.last qs, .streamed last)) := by
  induction limit generalizing s outer qs with
  | zero => exact absurd enough (Nat.not_lt_zero _)
  | succ limit ih =>
    obtain ⟨item, s', gives, advances⟩ := @advance_gives s outer probe s.last qs yields probes
    have next : Gives (JoinResults.next (.streamed s)) (.ok (item, .streamed s')) := by
      unfold JoinResults.next SubjectStream.next
      dsimp only
      rw [begun]
      exact gives.bind (Gives.pure _)
    rw [JoinResults.take]
    generalize emitted probe s.last qs = items at advances ⊢
    cases advances with
    | ended => exact ⟨s.ended, rfl, next.bind (Gives.pure _)⟩
    | failed e =>
      exact ⟨s.ended, rfl, next.bind ((@take_ended s.ended limit rfl).bind (Gives.pure _))⟩
    | @given subject outer' rest yields' shorter members =>
      obtain ⟨last, gone, rest⟩ :=
        @ih { s with outer := some outer', last := some subject } outer' rest (by omega) rfl yields'
          fun q hq => probes q (members q hq)
      exact ⟨last, gone, next.bind (rest.bind (Gives.pure _))⟩

/-- The subjects are those of the quads that pass, but for the last one before them, which is not
given again. No probe fails. -/
structure Emits (probe : Iri → Except Error Bool) (last : Option Iri) (qs : List Quad)
    (subjects : List Iri) : Prop where
  decided : ∀ q ∈ qs, ∃ passes, probe q.subject = .ok passes
  sound : ∀ t ∈ subjects, ∃ q ∈ qs, q.subject = t ∧ probe t = .ok true
  complete : ∀ q ∈ qs, probe q.subject = .ok true → q.subject ∈ subjects ∨ last = some q.subject

section

variable {q : Quad} {subjects : List Iri} (h : Emits probe (some q.subject) qs subjects)

include h

theorem Emits.sound_cons : ∀ t ∈ subjects, ∃ r ∈ q :: qs, r.subject = t ∧ probe t = .ok true := by
  intro t ht
  obtain ⟨r, hr, found⟩ := h.sound t ht
  exact ⟨r, List.mem_cons_of_mem q hr, found⟩

theorem Emits.again (settled : ∃ passes, probe q.subject = .ok passes) :
    Emits probe (some q.subject) (q :: qs) subjects where
  decided := List.forall_mem_cons.2 ⟨settled, h.decided⟩
  sound := h.sound_cons
  complete := List.forall_mem_cons.2 ⟨fun _ => .inr rfl, h.complete⟩

theorem Emits.passed (first : probe q.subject = .ok true) :
    Emits probe last (q :: qs) (q.subject :: subjects) where
  decided := List.forall_mem_cons.2 ⟨⟨true, first⟩, h.decided⟩
  sound := List.forall_mem_cons.2 ⟨⟨q, List.mem_cons_self, rfl, first⟩, h.sound_cons⟩
  complete := by
    intro r hr found
    left
    rcases List.mem_cons.1 hr with rfl | hr
    · exact List.mem_cons_self
    · rcases h.complete r hr found with mem | same
      · exact List.mem_cons_of_mem _ mem
      · rw [Option.some.inj same]
        exact List.mem_cons_self

theorem Emits.refused (first : probe q.subject = .ok false) :
    Emits probe last (q :: qs) subjects where
  decided := List.forall_mem_cons.2 ⟨⟨false, first⟩, h.decided⟩
  sound := h.sound_cons
  complete := by
    intro r hr found
    rcases List.mem_cons.1 hr with rfl | hr
    · cases first.symm.trans found
    · rcases h.complete r hr found with mem | same
      · exact .inl mem
      · rw [← Option.some.inj same, first] at found
        cases found

end

/-- The items emitted end with a failure exactly where some probe fails, and that is its failure.
Otherwise they are the subjects that pass. The last subject has been decided before. -/
theorem mapM_emitted (qs : List Quad) (last : Option Iri)
    (settled : ∀ t ∈ last, ∃ passes, probe t = .ok passes) :
    (∃ q ∈ qs, ∃ e, probe q.subject = .error e ∧ (emitted probe last qs).mapM id = .error e) ∨
    ∃ subjects, (emitted probe last qs).mapM id = .ok subjects ∧
      Emits probe last qs subjects := by
  induction qs generalizing last with
  | nil => exact .inr ⟨[], rfl, by simp, by simp, by simp⟩
  | cons q qs ih =>
    rw [emitted]
    by_cases again : last = some q.subject
    · subst again
      rw [if_pos rfl]
      rcases ih _ settled with ⟨r, hr, e, failed, same⟩ | ⟨subjects, same, emits⟩
      · exact .inl ⟨r, List.mem_cons_of_mem q hr, e, failed, same⟩
      · exact .inr ⟨subjects, same, emits.again (settled _ rfl)⟩
    · rw [if_neg again]
      cases first : probe q.subject with
      | error e => exact .inl ⟨q, List.mem_cons_self, e, first, rfl⟩
      | ok passes =>
        have settled' : ∀ t ∈ some q.subject, ∃ passes, probe t = .ok passes := by
          rintro t ⟨⟩
          exact ⟨passes, first⟩
        rcases ih _ settled' with ⟨r, hr, e, failed, same⟩ | ⟨subjects, same, emits⟩
        · refine .inl ⟨r, List.mem_cons_of_mem q hr, e, failed, ?_⟩
          cases passes with
          | true =>
            rw [List.mapM_cons]
            exact bind_eq_error_iff.2 (.inr ⟨_, rfl, bind_eq_error_iff.2 (.inl same)⟩)
          | false => exact same
        · cases passes with
          | true =>
            refine .inr ⟨q.subject :: subjects, ?_, emits.passed first⟩
            rw [List.mapM_cons]
            exact bind_eq_ok_iff.2 ⟨_, rfl, bind_eq_ok_iff.2 ⟨_, same, rfl⟩⟩
          | false => exact .inr ⟨subjects, same, emits.refused first⟩

end SubjectStream

namespace Index

open SubjectStream

variable {ix : Index} {store : Store} {T : Set QuadBytes}

/-- The subjects of a join by probing, all of them taken, or the failure that ends them. -/
def probedSubjects (ix : Index) (store : Store) (ps : List JoinPattern) : Reading (List Iri) := do
  let stream ← ix.iterativeJoin store ps
  let (items, _) ← (JoinResults.streamed stream).drain
  liftM (items.mapM id : Except Error (List Iri))

/-- What probing a subject gives, whatever has been counted before. -/
def probe (ix : Index) (store : Store) (ps : List JoinPattern) (s : Iri) : Except Error Bool :=
  ((matchesAll ix store s ps).run.run {}).1

section

variable (lawful : ix.codec.registry.Lawful) (clear : ix.codec.fingerprint.Delimited)

include lawful clear

/-- A join by probing fails as probing some subject does, and otherwise gives the subjects that pass
all patterns. -/
theorem Keeps.probedSubjects (h : ix.Keeps store T) (p : JoinPattern) (ps : List JoinPattern) :
    Decides (ix.probedSubjects store (p :: ps)) (fun e => ∃ s, ix.Fails T s (p :: ps) e)
      fun subjects => ∀ s, s ∈ subjects ↔ ix.Passes T s (p :: ps) := by
  rcases encodes_or_error ix.codec p.toPattern with encodes | ⟨e, failed, _⟩
  · obtain ⟨scan, qs, gives, yields, found⟩ := h.scan lawful clear encodes
    have probed {s : Iri} (finds : ix.Finds T s p) :
        Decides (SubjectStream.matchesAll ix store s ps) (ix.Fails T s ps)
          fun answer => answer = true ↔ ix.Passes T s ps := by
      obtain ⟨w, _, rfl, b, stored, _⟩ := finds
      exact h.matchesAll lawful clear ⟨_, stored.parts.1⟩ ps
    have result {s : Iri} (finds : ix.Finds T s p) :
        Gives (SubjectStream.matchesAll ix store s ps) (ix.probe store ps s) :=
      (probed finds).steady.gives_run
    obtain ⟨results, _, taken⟩ := @take_gives ⟨ix, store, some scan, ps, none⟩ scan
      (ix.probe store ps) qs (scan.fuel + 1) (Nat.lt_succ_of_le yields.length_le_fuel) rfl yields
      fun q hq => result ((found _).1 ⟨q, hq, rfl⟩)
    have begins : Gives (ix.iterativeJoin store (p :: ps)) (.ok ⟨ix, store, some scan, ps, none⟩) :=
      gives.bind (Gives.pure _)
    have drained {r : Except Error (List Iri)}
        (same : (emitted (ix.probe store ps) none qs).mapM id = r) :
        Gives (ix.probedSubjects store (p :: ps)) r := by
      unfold Index.probedSubjects
      exact begins.bind (taken.bind (Gives.lift same))
    rcases @mapM_emitted (ix.probe store ps) qs none (by simp) with
      ⟨q, hq, e, failed, same⟩ | ⟨subjects, same, emits⟩
    · have finds := (found _).1 ⟨q, hq, rfl⟩
      have failing := (probed finds).fails_of_gives (failed ▸ result finds)
      exact .failed (drained same) ⟨q.subject, (fails_cons encodes).2 ⟨finds, failing⟩⟩
    · have settled {s : Iri} (finds : ix.Finds T s p) : ∃ passes, ix.probe store ps s = .ok passes ∧
          (∀ e, ¬ ix.Fails T s ps e) ∧ (passes = true ↔ ix.Passes T s ps) := by
        obtain ⟨q, hq, rfl⟩ := (found s).2 finds
        obtain ⟨passes, ok⟩ := emits.decided q hq
        exact ⟨passes, ok, (probed finds).holds_of_gives (ok ▸ result finds)⟩
      refine .given (drained same) ?_ fun s => ?_
      · rintro e ⟨s, failing⟩
        obtain ⟨finds, failing⟩ := (fails_cons encodes).1 failing
        obtain ⟨_, _, clean, _⟩ := settled finds
        exact clean e failing
      · rw [passes_cons encodes]
        constructor
        · intro mem
          obtain ⟨q, hq, rfl, passes⟩ := emits.sound s mem
          have finds := (found _).1 ⟨q, hq, rfl⟩
          obtain ⟨_, ok, _, holds⟩ := settled finds
          cases passes.symm.trans ok
          exact ⟨finds, holds.1 rfl⟩
        · rintro ⟨finds, passing⟩
          obtain ⟨_, ok, _, holds⟩ := settled finds
          obtain ⟨q, hq, rfl⟩ := (found s).2 finds
          obtain rfl := holds.2 passing
          exact (emits.complete q hq ok).resolve_right (by simp)
  · refine .failed ?_ ⟨default, .inl failed⟩
    unfold Index.probedSubjects Index.iterativeJoin
    refine Gives.bind_error (Gives.bind_error ?_)
    exact JoinPattern.query_eq_error ix store failed (by simp)

end

theorem Fails.encoding {s : Iri} {ps : List JoinPattern} {e : Error}
    (lawful : ix.codec.registry.Lawful) (h : ix.Fails T s ps e) : ∃ fault, e = .encoding fault := by
  induction ps with
  | nil => exact h.elim
  | cons p ps ih =>
    rcases h with failed | ⟨_, _, later⟩
    · exact Codec.encode_eq_error lawful failed
    · exact ih later

/-- After any run of calls and for any patterns, joining by counting and joining by probing both fail
with the same error, which says why a term has no bytes, or both give the same subjects. -/
theorem joins_agree (settings : Settings) (cs : List Change) (ps : List JoinPattern) :
    ∃ counted probed : Except Error (List Iri),
      Gives ((standard settings).hashJoin ((standard settings).run cs).1 ps) counted ∧
      Gives ((standard settings).probedSubjects ((standard settings).run cs).1 ps) probed ∧
      ((∃ fault, counted = .error (.encoding fault) ∧ probed = .error (.encoding fault)) ∨
        ∃ xs ys, counted = .ok xs ∧ probed = .ok ys ∧ ∀ s, s ∈ xs ↔ s ∈ ys) := by
  generalize hix : standard settings = ix
  have lawful : ix.codec.registry.Lawful := hix ▸ Registry.standard_lawful
  have clear : ix.codec.fingerprint.Delimited := hix ▸ Fingerprint.standard_delimited
  clear hix
  obtain ⟨T, kept, _, _⟩ := run_agrees lawful clear cs
  cases ps with
  | nil =>
    refine ⟨.ok [], .ok [], fun _ => rfl, fun _ => rfl, .inr ⟨[], [], rfl, rfl, fun s => ?_⟩⟩
    exact Iff.rfl
  | cons p ps =>
    have probed := kept.probedSubjects lawful clear p ps
    cases kept.hashJoin lawful clear p ps with
    | failed gives failing =>
      obtain ⟨s, failing⟩ := failing
      cases probed with
      | failed gives' failing' =>
        obtain ⟨t, failing'⟩ := failing'
        obtain rfl := failing.unique failing'
        obtain ⟨fault, rfl⟩ := failing.encoding lawful
        exact ⟨_, _, gives, gives', .inl ⟨fault, rfl, rfl⟩⟩
      | given _ clean _ => exact absurd ⟨s, failing⟩ (clean _)
    | given gives clean subjects =>
      cases probed with
      | failed _ failing => exact absurd failing (clean _)
      | given gives' _ subjects' =>
        refine ⟨_, _, gives, gives', .inr ⟨_, _, rfl, rfl, fun s => ?_⟩⟩
        exact (subjects s).trans (subjects' s).symm

end Index

end QuadIndex
