import QuadIndex.Proofs.Join.Probe
import QuadIndex.Proofs.Statistics.Entries

/-!
# Joins by counting find the subjects that pass

After a round the table has the subjects that the round found among those it began with
(`survivors_counted`). So the rounds fail as probing one of the first subjects would, and otherwise
leave those that pass every pattern (`Keeps.hashJoin`).
-/

namespace QuadIndex

open Result Reading

namespace HashJoin

variable {round : Nat} {table : Rounds} {s : Iri} {subjects : List Iri}

/-- The subjects of a table. -/
def keys (table : Rounds) : List Iri := table.map (·.1)

/-- No subject comes twice, and each was found in the round before. -/
structure Current (round : Nat) (table : Rounds) : Prop where
  nodup : (keys table).Nodup
  last : ∀ e ∈ table, e.2 + 1 = round

theorem Current.nil (round : Nat) : Current round [] := ⟨List.nodup_nil, by simp⟩

theorem nodup_count (nodup : (keys table).Nodup) (s : Iri) :
    (keys (count round table s)).Nodup := by
  unfold count
  split
  · split
    · exact Entries.nodup_alter nodup _ _
    · exact nodup
  · split
    · exact Entries.nodup_alter nodup _ _
    · exact nodup

/-- The round counts the subject: it is the first one and the subject is new, or the subject was
found in the round before. -/
def Counts (round : Nat) (table : Rounds) (s : Iri) : Prop :=
  (table.get? s = none ∧ round = 0) ∨ ∃ last, table.get? s = some last ∧ last + 1 = round

theorem get?_count_self (h : Counts round table s) :
    (count round table s).get? s = some round := by
  unfold count
  rcases h with ⟨absent, rfl⟩ | ⟨last, present, next⟩
  · rw [absent]
    exact Entries.get?_alter_self _ _ _
  · rw [present]
    simp only [next, if_true]
    exact Entries.get?_alter_self _ _ _

theorem count_of_not_counts (h : ¬ Counts round table s) : count round table s = table := by
  unfold count
  split
  · next absent => exact if_neg fun first => h (.inl ⟨absent, first⟩)
  · next last present => exact if_neg fun next => h (.inr ⟨last, present, next⟩)

theorem get?_count_of_ne {other : Iri} (h : s ≠ other) :
    (count round table other).get? s = table.get? s := by
  unfold count
  split
  · split
    · exact Entries.get?_alter_of_ne _ _ h
    · rfl
  · split
    · exact Entries.get?_alter_of_ne _ _ h
    · rfl

/-- A round over subjects, each of which may come more than once. -/
theorem get?_foldl_count (table : Rounds) (subjects : List Iri) (s : Iri) :
    (subjects.foldl (count round) table).get? s = some round ↔
      (s ∈ subjects ∧ Counts round table s) ∨ table.get? s = some round := by
  induction subjects generalizing table with
  | nil => simp
  | cons t subjects ih =>
    rw [List.foldl_cons, ih, List.mem_cons]
    by_cases same : s = t
    · subst same
      by_cases counts : Counts round table s
      · simp [get?_count_self counts, counts]
      · simp [count_of_not_counts counts, counts]
    · have get? : (count round table t).get? s = table.get? s := get?_count_of_ne same
      have counts : Counts round (count round table t) s ↔ Counts round table s := by
        rw [Counts, Counts, get?]
      simp [get?, counts, same]

theorem nodup_foldl_count (nodup : (keys table).Nodup) (subjects : List Iri) :
    (keys (subjects.foldl (count round) table)).Nodup := by
  induction subjects generalizing table with
  | nil => exact nodup
  | cons t subjects ih => exact ih (nodup_count nodup t)

/-- What a round leaves of the table are the subjects that it found, of those it began with. -/
theorem survivors_counted (h : Current round table) (subjects : List Iri) :
    Current (round + 1) (survivors round (subjects.foldl (count round) table)) ∧
    ∀ s, s ∈ keys (survivors round (subjects.foldl (count round) table)) ↔
      s ∈ subjects ∧ (round = 0 ∨ s ∈ keys table) := by
  have nodup := @nodup_foldl_count round table h.nodup subjects
  refine ⟨⟨?_, ?_⟩, fun s => ?_⟩
  · exact List.Nodup.sublist (List.filter_sublist.map _) nodup
  · intro e mem
    have : e.2 = round := by simpa using (List.mem_filter.1 mem).2
    rw [this]
  · have old : table.get? s ≠ some round := by
      intro found
      have := h.last _ (Entries.mem_of_get? found)
      dsimp only at this
      omega
    have counts : Counts round table s ↔ round = 0 ∨ s ∈ keys table := by
      constructor
      · rintro (⟨_, first⟩ | ⟨last, present, _⟩)
        · exact .inl first
        · exact .inr (List.mem_map.2 ⟨_, Entries.mem_of_get? present, rfl⟩)
      · rintro (rfl | mem)
        · cases present : table.get? s with
          | none => exact .inl ⟨present, rfl⟩
          | some last => cases h.last _ (Entries.mem_of_get? present)
        · obtain ⟨⟨t, last⟩, present, rfl⟩ := List.mem_map.1 mem
          exact .inr ⟨last, Entries.get?_of_mem h.nodup present, h.last _ present⟩
    have survives : s ∈ keys (survivors round (subjects.foldl (count round) table)) ↔
        (subjects.foldl (count round) table).get? s = some round := by
      constructor
      · intro mem
        obtain ⟨⟨t, v⟩, kept, rfl⟩ := List.mem_map.1 mem
        obtain ⟨present, current⟩ := List.mem_filter.1 kept
        obtain rfl : v = round := by simpa using current
        exact Entries.get?_of_mem nodup present
      · intro found
        exact List.mem_map.2 ⟨(s, round), List.mem_filter.2 ⟨Entries.mem_of_get? found, by simp⟩, rfl⟩
    rw [survives, get?_foldl_count, counts]
    simp [old]

theorem countItems_ok (table : Rounds) (qs : List Quad) :
    countItems round table (qs.map .ok) =
      .ok ((qs.map (·.subject)).foldl (count round) table) := by
  unfold countItems
  induction qs generalizing table with
  | nil => rfl
  | cons q qs ih =>
    rw [List.map_cons, List.foldlM_cons]
    exact ih _

/-- A round whose scan does not fail goes on with what it leaves of the table. -/
theorem rounds_cons {ix : Index} {store : Store} {p : JoinPattern} {ps : List JoinPattern}
    {scan : QuadScan} {qs : List Quad} {r : Except Error Rounds}
    (gives : Gives (ix.query store p.toPattern) (.ok scan)) (yields : scan.Yields qs)
    (rest : Gives
      (if (survivors round ((qs.map (·.subject)).foldl (count round) table)).isEmpty
        then return survivors round ((qs.map (·.subject)).foldl (count round) table)
        else rounds ix store (round + 1)
          (survivors round ((qs.map (·.subject)).foldl (count round) table)) ps) r) :
    Gives (rounds ix store round table (p :: ps)) r := by
  obtain ⟨scan', drained, ended⟩ := yields.drain
  have counted := @countItems_ok round table qs
  have closed : closeAll [(countItems round table (qs.map .ok)).map fun _ => (), .ok ()] =
      .ok () := by
    rw [counted]
    rfl
  unfold rounds
  refine gives.bind ?_
  rw [drained]
  refine ended.close.attempt.bind ?_
  exact Gives.bind (Gives.lift closed) (Gives.bind (Gives.lift counted) rest)

end HashJoin

namespace Index

open HashJoin

variable {ix : Index} {store : Store} {T : Set QuadBytes} (lawful : ix.codec.registry.Lawful)
  (clear : ix.codec.fingerprint.Delimited)

include lawful clear

/-- The rounds from the given one on, where some subject is left. -/
theorem Keeps.rounds (h : ix.Keeps store T) (ps : List JoinPattern) {round : Nat} {table : Rounds}
    (current : Current round table) (left : ∃ s, round = 0 ∨ s ∈ keys table)
    (begun : ps = [] → 0 < round) :
    Decides (HashJoin.rounds ix store round table ps)
      (fun e => ∃ s, (round = 0 ∨ s ∈ keys table) ∧ ix.Fails T s ps e)
      fun last => Current (round + ps.length) last ∧
        ∀ s, s ∈ keys last ↔ (round = 0 ∨ s ∈ keys table) ∧ ix.Passes T s ps := by
  induction ps generalizing round table with
  | nil =>
    refine .given (Gives.pure table) (by simp [Fails]) ⟨current, fun s => ?_⟩
    have := begun rfl
    simp [Passes]
    omega
  | cons p ps ih =>
    rcases encodes_or_error ix.codec p.toPattern with encodes | ⟨e, failed, _⟩
    · obtain ⟨scan, qs, gives, yields, found⟩ := h.scan lawful clear encodes
      obtain ⟨current', kept⟩ := survivors_counted current (qs.map (·.subject))
      simp only [List.mem_map, found] at kept
      have next := @rounds_cons round table ix store p ps scan qs
      generalize survivors round ((qs.map (·.subject)).foldl (count round) table) = table'
        at current' kept next
      have rest : Decides (if table'.isEmpty then return table' else
          HashJoin.rounds ix store (round + 1) table' ps)
          (fun e => ∃ s, s ∈ keys table' ∧ ix.Fails T s ps e)
          fun last => Current (round + 1 + ps.length) last ∧
            ∀ s, s ∈ keys last ↔ s ∈ keys table' ∧ ix.Passes T s ps := by
        by_cases empty : table'.isEmpty = true
        · rw [if_pos empty]
          obtain rfl := List.isEmpty_iff.1 empty
          exact .given (Gives.pure []) (by simp [keys]) ⟨Current.nil _, by simp [keys]⟩
        · obtain ⟨⟨s, v⟩, mem⟩ := List.exists_mem_of_ne_nil table' (by simpa using empty)
          rw [if_neg empty]
          simpa using ih current' ⟨s, .inr (List.mem_map.2 ⟨_, mem, rfl⟩)⟩ fun _ => Nat.succ_pos _
      refine rest.imp (fun r step => next gives yields step) (fun e => exists_congr fun s => ?_)
        fun last holding => ⟨?_, fun s => ?_⟩
      · rw [kept, fails_cons encodes, and_comm (a := ix.Finds T s p), and_assoc]
      · rw [List.length_cons, Nat.add_comm ps.length, ← Nat.add_assoc]
        exact holding.1
      · rw [holding.2, kept, passes_cons encodes, and_comm (a := ix.Finds T s p), and_assoc]
    · obtain ⟨s, hs⟩ := left
      refine .failed ?_ ⟨s, hs, .inl failed⟩
      unfold HashJoin.rounds
      exact Gives.bind_error (JoinPattern.query_eq_error ix store failed (by simp))

/-- All rounds of a join of some patterns. -/
theorem Keeps.allRounds (h : ix.Keeps store T) {ps : List JoinPattern} (nonempty : ps ≠ []) :
    Decides (HashJoin.rounds ix store 0 [] ps) (fun e => ∃ s, ix.Fails T s ps e)
      fun last => Current ps.length last ∧ ∀ s, s ∈ keys last ↔ ix.Passes T s ps := by
  have rounds := h.rounds lawful clear ps (Current.nil 0) ⟨default, .inl rfl⟩
    fun none => absurd none nonempty
  simpa only [true_or, true_and, Nat.zero_add] using rounds

/-- A join by counting fails as probing some subject does, and otherwise gives the subjects that pass
all patterns. Of no patterns it gives none. -/
theorem Keeps.hashJoin (h : ix.Keeps store T) (p : JoinPattern) (ps : List JoinPattern) :
    Decides (ix.hashJoin store (p :: ps)) (fun e => ∃ s, ix.Fails T s (p :: ps) e)
      fun subjects => ∀ s, s ∈ subjects ↔ ix.Passes T s (p :: ps) := by
  have rounds := h.allRounds lawful clear (List.cons_ne_nil p ps)
  unfold Index.hashJoin
  cases rounds with
  | failed gives failing => exact .failed (Gives.bind_error gives) failing
  | given gives clean last => exact .given (gives.bind (Gives.pure _)) clean last.2

end Index

end QuadIndex
