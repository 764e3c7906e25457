import QuadIndex.Join.Iterative
import QuadIndex.Proofs.Query.Answer

/-!
# Probing a subject

Both ways to join ask the same of a pattern. It fails with the first of its terms that has no bytes,
whichever of its positions a table begins with (`query_eq_error`), and otherwise finds the subjects
of the stored quads that match. Probing a subject goes through patterns until one does not find it,
and fails if it reaches one that fails.
-/

namespace QuadIndex

open Bytes Result Reading

namespace JoinPattern

variable {c : Codec} {p : JoinPattern} {s : Iri} {subject : Option Iri} {e : Error}

/-- The pattern of a subject asks for the subject and for what the pattern asks for. -/
theorem matches_toPattern_iff {b : QuadBytes} : (p.toPattern (some s)).Matches c b ↔
    s.encode = .ok b.components.subject ∧ p.toPattern.Matches c b := by
  constructor
  · rintro ⟨each, context⟩
    refine ⟨each .subject, fun i => ?_, context⟩
    cases i with
    | subject => exact trivial
    | predicate => exact each .predicate
    | object => exact each .object
  · rintro ⟨encoded, each, context⟩
    refine ⟨fun i => ?_, context⟩
    cases i with
    | subject => exact encoded
    | predicate => exact each .predicate
    | object => exact each .object

/-- A pattern with bytes has bytes for every subject that has. -/
theorem encodes_toPattern (encodes : p.toPattern.Encodes c)
    (encoded : ∃ bs, s.encode = .ok bs) : (p.toPattern (some s)).Encodes c := by
  refine ⟨fun i => ?_, encodes.2⟩
  cases i with
  | subject =>
    intro t ht
    obtain rfl := List.mem_singleton.1 ht
    exact encoded
  | predicate => exact encodes.1 .predicate
  | object => exact encodes.1 .object

theorem encode_toPattern_eq_error (h : p.toPattern.encode c = .error e) :
    p.toPattern.encodeTerm c .predicate = .error e ∨
    ∃ predicate, p.toPattern.encodeTerm c .predicate = .ok predicate ∧
      p.toPattern.encodeTerm c .object = .error e := by
  simp only [Pattern.encode, bind_eq_error_iff] at h
  rcases h with h | ⟨_, _, h | ⟨predicate, encoded, h | ⟨_, _, h | ⟨_, _, h⟩⟩⟩⟩
  · cases h
  · exact .inl h
  · exact .inr ⟨predicate, encoded, h⟩
  · cases h
  · cases h

/-- Without a subject, a join pattern is read in the table that begins with predicates. -/
theorem path?_toPattern (hashed : Bool) (p : JoinPattern) :
    Codec.path? hashed p.toPattern = some ⟨.po, hashed⟩ := by
  obtain ⟨predicate, object⟩ := p
  cases object <;> cases hashed <;> rfl

/-- A pattern for any subject that has bytes fails as the pattern itself does, although it is planned
on another table. -/
theorem plan_eq_error (hashed : Bool) (h : p.toPattern.encode c = .error e)
    (encoded : ∀ s ∈ subject, ∃ bs, s.encode = .ok bs) :
    c.plan hashed (p.toPattern subject) = .error e := by
  have failed := encode_toPattern_eq_error h
  cases subject with
  | none =>
    have path := path?_toPattern hashed p
    rw [Codec.plan_of_path? path, RowForm.range?, if_pos (Codec.path?_eq_some path).1]
    refine bind_eq_error_iff.2 (.inl (bind_eq_error_iff.2 ?_))
    rcases failed with h | ⟨predicate, first, h⟩
    · exact .inl h
    · exact .inr ⟨predicate, first, bind_eq_error_iff.2 (.inl h)⟩
  | some s =>
    have path : Codec.path? hashed (p.toPattern (some s)) = some ⟨.spo, hashed⟩ := by
      obtain ⟨predicate, object⟩ := p
      cases object <;> cases hashed <;> rfl
    obtain ⟨bs, encoded⟩ := encoded s rfl
    have subject : (p.toPattern (some s)).encodeTerm c .subject = .ok (.constant bs) :=
      bind_eq_ok_iff.2 ⟨bs, encoded, rfl⟩
    rw [Codec.plan_of_path? path, RowForm.range?, if_pos (Codec.path?_eq_some path).1]
    refine bind_eq_error_iff.2 (.inl (bind_eq_error_iff.2 (.inr ⟨_, subject,
      bind_eq_error_iff.2 ?_⟩)))
    rcases failed with h | ⟨predicate, first, h⟩
    · exact .inl h
    · exact .inr ⟨predicate, first, bind_eq_error_iff.2 (.inl h)⟩

/-- A pattern for any subject that has bytes fails with the first of its other terms without. -/
theorem query_eq_error (ix : Index) (store : Store) (h : p.toPattern.encode ix.codec = .error e)
    (encoded : ∀ s ∈ subject, ∃ bs, s.encode = .ok bs) :
    Gives (ix.query store (p.toPattern subject)) (.error e) := by
  unfold Index.query
  exact Gives.bind_error (Gives.lift (plan_eq_error ix.hashed h encoded))

end JoinPattern

namespace Index

variable {ix : Index} {store : Store} {T : Set QuadBytes} {s : Iri} {p : JoinPattern}
  {ps : List JoinPattern} {e : Error}

/-- The pattern finds the subject among the quads stored as the bytes of a set. -/
def Finds (ix : Index) (T : Set QuadBytes) (s : Iri) (p : JoinPattern) : Prop :=
  ∃ w ∈ ix.quadsOf T, w.subject = s ∧
    ∃ b, ix.codec.StoredAs w b ∧ p.toPattern.Matches ix.codec b

/-- Every pattern has bytes and finds the subject. -/
def Passes (ix : Index) (T : Set QuadBytes) (s : Iri) : List JoinPattern → Prop
  | [] => True
  | p :: ps => p.toPattern.Encodes ix.codec ∧ ix.Finds T s p ∧ ix.Passes T s ps

/-- The first pattern that does not find the subject fails instead. -/
def Fails (ix : Index) (T : Set QuadBytes) (s : Iri) : List JoinPattern → Error → Prop
  | [], _ => False
  | p :: ps, e => p.toPattern.encode ix.codec = .error e ∨
    p.toPattern.Encodes ix.codec ∧ ix.Finds T s p ∧ ix.Fails T s ps e

/-- A pattern either has bytes or fails with one error. -/
theorem encodes_or_error (c : Codec) (p : Pattern) :
    p.Encodes c ∨ ∃ e, p.encode c = .error e ∧ ¬ p.Encodes c := by
  cases h : p.encode c with
  | ok s => exact .inl (Pattern.exists_encode_iff.1 ⟨s, h⟩)
  | error e =>
    refine .inr ⟨e, rfl, fun encodes => ?_⟩
    obtain ⟨s, ok⟩ := Pattern.exists_encode_iff.2 encodes
    cases h.symm.trans ok

theorem not_encode_error {c : Codec} {p : Pattern} (h : p.Encodes c) : p.encode c ≠ .error e := by
  obtain ⟨s, ok⟩ := Pattern.exists_encode_iff.2 h
  rw [ok]
  exact nofun

/-- A subject fails further on if the first pattern has bytes. -/
theorem fails_cons (encodes : p.toPattern.Encodes ix.codec) :
    ix.Fails T s (p :: ps) e ↔ ix.Finds T s p ∧ ix.Fails T s ps e := by
  simp [Fails, not_encode_error encodes, encodes]

theorem passes_cons (encodes : p.toPattern.Encodes ix.codec) :
    ix.Passes T s (p :: ps) ↔ ix.Finds T s p ∧ ix.Passes T s ps := by
  simp [Passes, encodes]

/-- Whichever subjects are probed, the failure that is reached is that of the first failing pattern. -/
theorem Fails.unique {t : Iri} {e' : Error} (h : ix.Fails T s ps e) (h' : ix.Fails T t ps e') :
    e = e' := by
  induction ps with
  | nil => exact h.elim
  | cons p ps ih =>
    rcases h with failed | ⟨encodes, _, later⟩
    · rcases h' with failed' | ⟨encodes, _⟩
      · exact Except.error.inj (failed.symm.trans failed')
      · exact absurd failed (not_encode_error encodes)
    · rcases h' with failed' | ⟨_, _, later'⟩
      · exact absurd failed' (not_encode_error encodes)
      · exact ih later later'

variable (lawful : ix.codec.registry.Lawful) (clear : ix.codec.fingerprint.Delimited)

include lawful clear

/-- A pattern with bytes is asked whether it finds a subject. -/
theorem Keeps.contains (h : ix.Keeps store T) (encodes : p.toPattern.Encodes ix.codec)
    (encoded : ∃ bs, s.encode = .ok bs) :
    ∃ answer, Gives (ix.contains store (p.toPattern (some s))) (.ok answer) ∧
      (answer = true ↔ ix.Finds T s p) := by
  obtain ⟨plan, scan, qs, _, gives, yields, members, _⟩ :=
    h.query lawful clear (JoinPattern.encodes_toPattern encodes encoded)
  obtain ⟨scan', next, rest⟩ := yields.next
  have finds : ix.Finds T s p ↔ ∃ w, w ∈ qs := by
    constructor
    · rintro ⟨w, hw, rfl, b, stored, matching⟩
      exact ⟨w, (members w).2 ⟨hw, b, stored,
        JoinPattern.matches_toPattern_iff.2 ⟨stored.parts.1, matching⟩⟩⟩
    · rintro ⟨w, mem⟩
      obtain ⟨hw, b, stored, matching⟩ := (members w).1 mem
      obtain ⟨subject, matching⟩ := JoinPattern.matches_toPattern_iff.1 matching
      exact ⟨w, hw, Iri.encode_injective stored.parts.1 subject, b, stored, matching⟩
  cases qs with
  | nil =>
    refine ⟨false, ?_, by simp [finds]⟩
    unfold Index.contains
    refine gives.bind ?_
    rw [next]
    exact rest.close.bind (Gives.pure _)
  | cons q qs =>
    refine ⟨true, ?_, by simp [finds]⟩
    unfold Index.contains
    refine gives.bind ?_
    rw [next]
    exact rest.close.bind (Gives.pure _)

/-- A scan of a pattern with bytes yields quads of the subjects that the pattern finds. -/
theorem Keeps.scan (h : ix.Keeps store T) (encodes : p.toPattern.Encodes ix.codec) :
    ∃ scan qs, Gives (ix.query store p.toPattern) (.ok scan) ∧ scan.Yields qs ∧
      ∀ s, (∃ q ∈ qs, q.subject = s) ↔ ix.Finds T s p := by
  obtain ⟨_, scan, qs, _, gives, yields, members, _⟩ := h.query lawful clear encodes
  refine ⟨scan, qs, gives, yields, fun s => ?_⟩
  simp only [members, Finds]
  constructor
  · rintro ⟨w, ⟨hw, matching⟩, rfl⟩
    exact ⟨w, hw, rfl, matching⟩
  · rintro ⟨w, hw, rfl, matching⟩
    exact ⟨w, ⟨hw, matching⟩, rfl⟩

/-- Probing a subject with bytes fails, or tells whether every pattern finds it. -/
theorem Keeps.matchesAll (h : ix.Keeps store T) (encoded : ∃ bs, s.encode = .ok bs)
    (ps : List JoinPattern) :
    Decides (SubjectStream.matchesAll ix store s ps) (ix.Fails T s ps)
      fun answer => answer = true ↔ ix.Passes T s ps := by
  induction ps with
  | nil => exact .given (Gives.pure true) (fun _ failing => failing) (by simp [Passes])
  | cons p ps ih =>
    unfold SubjectStream.matchesAll
    rcases encodes_or_error ix.codec p.toPattern with encodes | ⟨e, failed, _⟩
    · obtain ⟨answer, gives, finds⟩ := h.contains lawful clear encodes encoded
      cases answer with
      | true =>
        have found := finds.1 rfl
        refine ih.imp (fun r rest => gives.bind rest) (fun e => ?_) fun answer passes => ?_
        · rw [fails_cons encodes, and_iff_right found]
        · rw [passes_cons encodes, and_iff_right found, passes]
      | false =>
        have absent : ¬ ix.Finds T s p := by simp [← finds]
        refine .given (gives.bind (Gives.pure false)) (fun e failing => ?_) ?_
        · exact absent ((fails_cons encodes).1 failing).1
        · simp [passes_cons encodes, absent]
    · refine .failed (Gives.bind_error ?_) (.inl failed)
      unfold Index.contains
      exact Gives.bind_error (JoinPattern.query_eq_error ix store failed
        fun t same => Option.some.inj same ▸ encoded)

end Index

end QuadIndex
