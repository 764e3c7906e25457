import Mathlib
import QuadIndex.Proofs.Join.Hash

/-!
# The subjects of a join by counting

A join by counting gives, each once, the subjects that have what every pattern asks for
(`hashJoin_subjects`). What carries it is the table after each round: it holds the subjects that have
what the patterns up to there ask for, all of them counted in the last of these rounds, and the rounds
to come go on from it (`rounds_append`). So a pattern that is listed twice, or in another place, makes
no difference.
-/

namespace QuadIndex

open Result Reading

/-- Some quad has the subject and what the pattern asks for; its object is the canonical form of the
one that is asked for. -/
def JoinPattern.HeldBy (r : Registry) (quads : Set Quad) (s : Iri) (p : JoinPattern) : Prop :=
  ∃ w ∈ quads, w.subject = s ∧ w.predicate = p.predicate ∧
    ∀ o ∈ p.object, r.canonicalize o = .ok w.object

namespace JoinPattern

variable {c : Codec} {p : JoinPattern}

theorem heldBy_ofPredicate {r : Registry} {quads : Set Quad} {s i : Iri} :
    (ofPredicate i).HeldBy r quads s ↔ ∃ w ∈ quads, w.subject = s ∧ w.predicate = i := by
  simp [HeldBy, ofPredicate]

theorem heldBy_ofPair {r : Registry} {quads : Set Quad} {s : Iri} {x : Iri × Value} :
    (ofPair x).HeldBy r quads s ↔ ∃ w ∈ quads, w.subject = s ∧ w.predicate = x.1 ∧
      r.canonicalize x.2 = .ok w.object := by
  simp [HeldBy, ofPair]

theorem encodes_of_parts (predicate : ∃ bs, p.predicate.encode = .ok bs)
    (object : ∀ o ∈ p.object, ∃ bs, c.registry.encode o = .ok bs) : p.toPattern.Encodes c := by
  refine ⟨fun i => ?_, fun _ none => absurd none List.not_mem_nil⟩
  cases i with
  | subject => exact fun _ none => absurd none List.not_mem_nil
  | predicate => exact fun i mem => (List.mem_singleton.1 mem) ▸ predicate
  | object =>
    intro o mem
    obtain ⟨_, asked⟩ := p
    cases asked with
    | none => exact absurd mem List.not_mem_nil
    | some asked => exact object o (List.mem_singleton.1 mem ▸ rfl)

theorem matches_iff (lawful : c.registry.Lawful) {w : Quad} {b : QuadBytes}
    (stored : c.StoredAs w b) : p.toPattern.Matches c b ↔
      w.predicate = p.predicate ∧ ∀ o ∈ p.object, c.registry.canonicalize o = .ok w.object := by
  obtain ⟨_, predicate, _⟩ := stored.parts
  have same : p.predicate.encode = .ok b.components.predicate ↔ w.predicate = p.predicate :=
    ⟨fun encoded => Iri.encode_injective predicate encoded, fun h => h ▸ predicate⟩
  have object : p.toPattern.MatchesAt c .object b.components.object ↔
      ∀ o ∈ p.object, c.registry.canonicalize o = .ok w.object := by
    obtain ⟨_, asked⟩ := p
    cases asked with
    | none => exact ⟨fun _ o mem => absurd mem (by simp), fun _ => trivial⟩
    | some asked =>
      simp only [Option.mem_def, Option.some.injEq, forall_eq', stored.canonicalize_iff lawful]
      exact Iff.rfl
  constructor
  · rintro ⟨each, _⟩
    exact ⟨same.1 (each .predicate), object.1 (each .object)⟩
  · rintro ⟨asked, objects⟩
    refine ⟨fun i => ?_, trivial⟩
    cases i with
    | subject => exact trivial
    | predicate => exact same.2 asked
    | object => exact object.2 objects

end JoinPattern

namespace HashJoin

variable {ix : Index} {store : Store}

/-- The rounds of more patterns go on from the table after those of the first ones. -/
theorem rounds_append (round : Nat) (table : Rounds) {before : List JoinPattern}
    (nonempty : before ≠ []) (after : List JoinPattern) :
    rounds ix store round table (before ++ after) = (do
      let table ← rounds ix store round table before
      if table.isEmpty then return table
      else rounds ix store (round + before.length) table after) := by
  induction before generalizing round table with
  | nil => exact absurd rfl nonempty
  | cons p before ih =>
    rw [List.cons_append, rounds, rounds]
    simp only [bind_assoc]
    refine bind_congr fun scan => bind_congr fun closed => bind_congr fun _ => ?_
    refine bind_congr fun counted => ?_
    generalize survivors round counted = left
    by_cases empty : left.isEmpty = true
    · simp only [empty, if_true, pure_bind]
    · simp only [empty, Bool.false_eq_true, if_false]
      cases before with
      | nil =>
        rw [List.nil_append, rounds, pure_bind]
        simp only [empty, Bool.false_eq_true, if_false]
        rfl
      | cons q before =>
        rw [ih _ _ (List.cons_ne_nil q before), List.length_cons (a := p),
          Nat.add_assoc round 1, Nat.add_comm 1]

end HashJoin

namespace Index

/-- Lists with the same elements have the same images. -/
theorem mem_map_congr {α β : Type} {xs ys : List α} (same : ∀ a, a ∈ xs ↔ a ∈ ys) (f : α → β)
    (b : β) : b ∈ xs.map f ↔ b ∈ ys.map f := by
  simp only [List.mem_map, same]

section

variable {ix : Index} {store : Store} {T : Set QuadBytes} {s : Iri} {ps : List JoinPattern}

/-- No join of patterns with bytes fails. -/
theorem not_fails (encodes : ∀ p ∈ ps, p.toPattern.Encodes ix.codec) (e : Error) :
    ¬ ix.Fails T s ps e := by
  induction ps with
  | nil => exact id
  | cons p ps ih =>
    obtain ⟨first, rest⟩ := List.forall_mem_cons.1 encodes
    rw [fails_cons first]
    exact fun failing => ih rest failing.2

variable (lawful : ix.codec.registry.Lawful)

include lawful

theorem finds_iff {p : JoinPattern} :
    ix.Finds T s p ↔ p.HeldBy ix.codec.registry (ix.quadsOf T) s := by
  refine exists_congr fun w => and_congr_right fun ⟨b, _, stored⟩ => and_congr_right fun _ => ?_
  constructor
  · rintro ⟨d, stored', matching⟩
    exact (JoinPattern.matches_iff lawful stored').1 matching
  · intro held
    exact ⟨b, stored, (JoinPattern.matches_iff lawful stored).2 held⟩

theorem passes_iff (encodes : ∀ p ∈ ps, p.toPattern.Encodes ix.codec) :
    ix.Passes T s ps ↔ ∀ p ∈ ps, p.HeldBy ix.codec.registry (ix.quadsOf T) s := by
  induction ps with
  | nil => simp [Passes]
  | cons p ps ih =>
    obtain ⟨first, rest⟩ := List.forall_mem_cons.1 encodes
    rw [passes_cons first, List.forall_mem_cons, finds_iff lawful, ih rest]

variable (clear : ix.codec.fingerprint.Delimited)

include clear

/-- The table after the rounds of patterns with bytes. -/
theorem Keeps.exists_rounds (h : ix.Keeps store T) (nonempty : ps ≠ [])
    (encodes : ∀ p ∈ ps, p.toPattern.Encodes ix.codec) :
    ∃ table, Gives (HashJoin.rounds ix store 0 [] ps) (.ok table) ∧
      HashJoin.Current ps.length table ∧
      ∀ s, s ∈ HashJoin.keys table ↔ ∀ p ∈ ps, p.HeldBy ix.codec.registry (ix.quadsOf T) s := by
  cases h.allRounds lawful clear nonempty with
  | failed _ failing =>
    obtain ⟨s, failing⟩ := failing
    exact absurd failing (not_fails encodes _)
  | given gives _ last =>
    exact ⟨_, gives, last.1, fun s => (last.2 s).trans (passes_iff lawful encodes)⟩

theorem Keeps.exists_hashJoin (h : ix.Keeps store T) (nonempty : ps ≠ [])
    (encodes : ∀ p ∈ ps, p.toPattern.Encodes ix.codec) :
    ∃ found, Gives (ix.hashJoin store ps) (.ok found) ∧ found.Nodup ∧
      ∀ s, s ∈ found ↔ ∀ p ∈ ps, p.HeldBy ix.codec.registry (ix.quadsOf T) s := by
  obtain ⟨table, gives, current, subjects⟩ := h.exists_rounds lawful clear nonempty encodes
  refine ⟨HashJoin.keys table, ?_, current.nodup, subjects⟩
  unfold Index.hashJoin
  exact gives.bind (.pure _)

/-- A join of patterns with bytes gives the subjects that have what all of them ask for, and so does
the join of any list of the same patterns. -/
theorem Keeps.hashJoin_same (h : ix.Keeps store T) (nonempty : ps ≠ [])
    (encodes : ∀ p ∈ ps, p.toPattern.Encodes ix.codec) :
    ∃ found, Gives (ix.hashJoin store ps) (.ok found) ∧ found.Nodup ∧
      (∀ s, s ∈ found ↔ ∀ p ∈ ps, p.HeldBy ix.codec.registry (ix.quadsOf T) s) ∧
      ∀ others : List JoinPattern, (∀ p, p ∈ others ↔ p ∈ ps) →
        ∃ found', Gives (ix.hashJoin store others) (.ok found') ∧ found'.Perm found := by
  obtain ⟨found, gives, nodup, subjects⟩ := h.exists_hashJoin lawful clear nonempty encodes
  refine ⟨found, gives, nodup, subjects, fun others same => ?_⟩
  obtain ⟨p, mem⟩ := List.exists_mem_of_ne_nil ps nonempty
  have nonempty' : others ≠ [] := List.ne_nil_of_mem ((same p).2 mem)
  have encodes' : ∀ p ∈ others, p.toPattern.Encodes ix.codec :=
    fun p mem => encodes p ((same p).1 mem)
  obtain ⟨found', gives', nodup', subjects'⟩ := h.exists_hashJoin lawful clear nonempty' encodes'
  refine ⟨found', gives', (List.perm_ext_iff_of_nodup nodup' nodup).2 fun s => ?_⟩
  rw [subjects', subjects]
  exact forall_congr' fun p => imp_congr_left (same p)

end

/-- After any run of calls, joining predicates by counting gives, each once and as fragments with
nothing but a subject, the subjects that have all of the predicates, and joining predicates with
objects those that have all of these, in whatever graphs. What comes in which order and how often in
the list makes no difference. After the rounds of the first patterns the table holds the subjects
that have what these ask for, all of them counted in the last of these rounds, and the join goes on
from there. -/
theorem hashJoin_subjects (settings : Settings) (cs : List Change) :
    (∀ predicates : List Iri, predicates ≠ [] → (∀ p ∈ predicates, ∃ bs, p.encode = .ok bs) →
      ∃ found : List Iri,
        Gives ((standard settings).hashJoinPredicates ((standard settings).run cs).1 predicates)
          (.ok (found.map Fragment.ofSubject)) ∧
        found.Nodup ∧ (∀ s, s ∈ found ↔ ∀ p ∈ predicates,
          ∃ w ∈ ((standard settings).run cs).2, w.subject = s ∧ w.predicate = p) ∧
        ∀ others : List Iri, (∀ p, p ∈ others ↔ p ∈ predicates) → ∃ found' : List Iri,
          Gives ((standard settings).hashJoinPredicates ((standard settings).run cs).1 others)
            (.ok (found'.map Fragment.ofSubject)) ∧ found'.Perm found) ∧
    (∀ pairs : List (Iri × Value), pairs ≠ [] →
      (∀ x ∈ pairs, (∃ bs, x.1.encode = .ok bs) ∧
        ∃ bs, (standard settings).codec.registry.encode x.2 = .ok bs) →
      ∃ found : List Iri,
        Gives ((standard settings).hashJoinPairs ((standard settings).run cs).1 pairs)
          (.ok found) ∧
        found.Nodup ∧ (∀ s, s ∈ found ↔ ∀ x ∈ pairs,
          ∃ w ∈ ((standard settings).run cs).2, w.subject = s ∧ w.predicate = x.1 ∧
            (standard settings).codec.registry.canonicalize x.2 = .ok w.object) ∧
        ∀ others : List (Iri × Value), (∀ x, x ∈ others ↔ x ∈ pairs) → ∃ found' : List Iri,
          Gives ((standard settings).hashJoinPairs ((standard settings).run cs).1 others)
            (.ok found') ∧ found'.Perm found) ∧
    ∀ before after : List JoinPattern, before ≠ [] →
      (∀ p ∈ before, p.toPattern.Encodes (standard settings).codec) →
      ∃ table : HashJoin.Rounds,
        Gives (HashJoin.rounds (standard settings) ((standard settings).run cs).1 0 [] before)
          (.ok table) ∧
        (HashJoin.keys table).Nodup ∧ (∀ e ∈ table, e.2 + 1 = before.length) ∧
        (∀ s, s ∈ HashJoin.keys table ↔ ∀ p ∈ before,
          p.HeldBy (standard settings).codec.registry ((standard settings).run cs).2 s) ∧
        ∀ r, Gives (if table.isEmpty then return table
            else HashJoin.rounds (standard settings) ((standard settings).run cs).1
              before.length table after) r →
          Gives (HashJoin.rounds (standard settings) ((standard settings).run cs).1 0 []
            (before ++ after)) r := by
  generalize hix : standard settings = ix
  have lawful : ix.codec.registry.Lawful := hix ▸ Registry.standard_lawful
  have clear : ix.codec.fingerprint.Delimited := hix ▸ Fingerprint.standard_delimited
  clear hix
  obtain ⟨T, kept, quads, _⟩ := run_agrees lawful clear cs
  rw [quads]
  refine ⟨fun predicates nonempty encodes => ?_, fun pairs nonempty encodes => ?_,
    fun before after nonempty encodes => ?_⟩
  · obtain ⟨found, gives, nodup, subjects, same⟩ := kept.hashJoin_same lawful clear
      (mt List.map_eq_nil_iff.1 nonempty) (List.forall_mem_map.2 fun p mem =>
        JoinPattern.encodes_of_parts (p := .ofPredicate p) (encodes p mem) nofun)
    refine ⟨found, gives.bind (.pure _), nodup, fun s => ?_, fun others members => ?_⟩
    · rw [subjects, List.forall_mem_map]
      exact forall₂_congr fun p _ => JoinPattern.heldBy_ofPredicate
    · obtain ⟨found', gives', perm⟩ := same _ (mem_map_congr members _)
      exact ⟨found', gives'.bind (.pure _), perm⟩
  · obtain ⟨found, gives, nodup, subjects, same⟩ := kept.hashJoin_same lawful clear
      (mt List.map_eq_nil_iff.1 nonempty) (List.forall_mem_map.2 fun x mem =>
        JoinPattern.encodes_of_parts (p := .ofPair x) (encodes x mem).1
          fun o asked => Option.mem_some.1 asked ▸ (encodes x mem).2)
    refine ⟨found, gives, nodup, fun s => ?_, fun others members => ?_⟩
    · rw [subjects, List.forall_mem_map]
      exact forall₂_congr fun x _ => JoinPattern.heldBy_ofPair
    · exact same _ (mem_map_congr members _)
  · obtain ⟨table, gives, current, subjects⟩ :=
      kept.exists_rounds lawful clear nonempty encodes
    refine ⟨table, gives, current.nodup, current.last, subjects, fun r rest => ?_⟩
    rw [HashJoin.rounds_append 0 [] nonempty after, Nat.zero_add]
    exact gives.bind rest

end Index

end QuadIndex
