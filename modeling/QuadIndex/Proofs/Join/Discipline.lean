import QuadIndex.Proofs.Join.Agreement
import QuadIndex.Proofs.Statistics.Steady

/-!
# What the caller of a join sees

The results of a join may be asked for the next one and closed as often as one likes, in any order.
Whatever the tables hold and wherever reading them fails, the answers are subjects up to a failure or
an end, and from then on the results stay quiet (`joins_disciplined`). One step of a stream either
ends it or gives the subject of a quad that all probes find (`SubjectStream.advance_moves`); a run is
an induction on the calls, in which results that are over stay so (`JoinResults.follow_of_over`).
-/

namespace QuadIndex

open Result Reading

namespace JoinResults

/-- What the results of a join are asked for. -/
inductive Call where
  | next
  | close
  deriving DecidableEq, Repr

/-- What the results of a join answer to a call. -/
inductive Answer where
  | next (item : Option (Except Error Iri))
  | close (result : Except Error Unit)

namespace Answer

/-- The call that this is an answer to. -/
def call : Answer → Call
  | next _ => .next
  | close _ => .close

/-- The item that the answer brings. -/
def item? : Answer → Option (Except Error Iri)
  | next item => item
  | close _ => none

/-- The results are over with this answer: a failure, an end, or that they are closed. -/
def Ends : Answer → Prop
  | next (some (.ok _)) => False
  | _ => True

end Answer

/-- The answer of results that are over. -/
def Call.quiet : Call → Answer
  | next => .next none
  | close => .close (.ok ())

/-- The answer comes from results that are over. -/
def Answer.Quiet (a : Answer) : Prop := a = a.call.quiet

@[simp] theorem Call.call_quiet (c : Call) : c.quiet.call = c := by
  cases c <;> rfl

@[simp] theorem Call.item?_quiet (c : Call) : c.quiet.item? = none := by
  cases c <;> rfl

/-- The answer to a call, and the results after it. Closed results stay closed, whether or not closing
them has failed. -/
def answer (r : JoinResults) : Call → Reading (Answer × JoinResults)
  | .next => do
    let (item, r) ← r.next
    return (.next item, r)
  | .close => do
    let result ← r.close.attempt
    return (.close result, r.closed)

/-- The answers to calls, one after another. -/
def follow (r : JoinResults) : List Call → Reading (List Answer)
  | [] => return []
  | c :: calls => do
    let (a, r) ← r.answer c
    let answers ← r.follow calls
    return a :: answers

end JoinResults

section Steady

theorem QuadScan.close_steady (s : QuadScan) : s.close.Steady := by
  rw [close]
  split
  · exact .pure _
  · exact Store.close_steady _

namespace Index

variable (ix : Index) (store : Store)

theorem query_steady (p : Pattern) : (ix.query store p).Steady := by
  refine Steady.bind (.lift _) fun plan => Steady.bind (.lift _) fun pattern => ?_
  exact (store.scan_steady _ _ _).bind fun _ => .pure _

theorem contains_steady (p : Pattern) : (ix.contains store p).Steady := by
  refine (ix.query_steady store p).bind fun scan => ?_
  split
  · exact .bind ⟨_, .passOver _⟩ fun _ => .throw _
  · exact (QuadScan.close_steady _).bind fun _ => .pure _
  · exact (QuadScan.close_steady _).bind fun _ => .pure _

theorem iterativeJoin_steady (ps : List JoinPattern) : (ix.iterativeJoin store ps).Steady := by
  cases ps with
  | nil => exact .pure _
  | cons p probes => exact (ix.query_steady store _).bind fun _ => .pure _

theorem matchesAll_steady (s : Iri) (ps : List JoinPattern) :
    (SubjectStream.matchesAll ix store s ps).Steady := by
  induction ps with
  | nil => exact .pure _
  | cons p ps ih =>
    refine (ix.contains_steady store _).bind fun found => ?_
    split
    · exact ih
    · exact .pure _

theorem rounds_steady (round : Nat) (table : HashJoin.Rounds) (ps : List JoinPattern) :
    (HashJoin.rounds ix store round table ps).Steady := by
  induction ps generalizing round table with
  | nil => exact .pure _
  | cons p ps ih =>
    refine (ix.query_steady store _).bind fun scan => ?_
    refine (QuadScan.close_steady _).attempt.bind fun closed => Steady.bind (.lift _) fun _ =>
      Steady.bind (.lift _) fun counted => ?_
    dsimp only
    split
    · exact .pure _
    · exact ih _ _

end Index

end Steady

namespace SubjectStream

variable {s : SubjectStream} {items : List (Except Error Quad)}

/-- What a step of a stream does, whatever its scan still reads: it ends, with a failure or without,
or it gives the subject of a quad that every probe finds, and goes on behind that quad. -/
inductive Moves (s : SubjectStream) (items : List (Except Error Quad)) :
    Option (Except Error Iri) → SubjectStream → Prop
  | ended : Moves s items none s.ended
  | failed (e : Error) : Moves s items (some (.error e)) s.ended
  | given {q : Quad} {outer' : QuadScan} : .ok q ∈ items →
    Gives (matchesAll s.index s.store q.subject s.probes) (.ok true) → outer'.drain.1 ⊆ items →
    Moves s items (some (.ok q.subject)) { s with outer := some outer', last := some q.subject }

theorem Moves.cons {first : Except Error Quad} {item : Option (Except Error Iri)}
    {s' : SubjectStream} (h : Moves s items item s') : Moves s (first :: items) item s' := by
  cases h with
  | ended => exact .ended
  | failed e => exact .failed e
  | given mem passes rest =>
    exact .given (List.mem_cons_of_mem first mem) passes (List.subset_cons_of_subset first rest)

/-- A step of a stream never fails itself: a failure is an item, and the last one. -/
theorem advance_moves (outer : QuadScan) (last : Option Iri) :
    ∃ item s', Gives (s.advance outer last) (.ok (item, s')) ∧ Moves s outer.drain.1 item s' := by
  -- By what the scan still reads: repeated subjects and those that a probe does not find are passed
  -- over, everything else is the end of the step.
  induction read : outer.drain.1 generalizing outer last with
  | nil =>
    rcases next : outer.next with ⟨_ | item, outer'⟩
    · rw [advance_of_end next]
      obtain ⟨closed, gives⟩ := outer'.close_steady
      cases closed with
      | ok _ => exact ⟨none, s.ended, gives.attempt.bind (.pure _), .ended⟩
      | error e => exact ⟨some (.error e), s.ended, gives.attempt.bind (.pure _), .failed e⟩
    · rw [QuadScan.drain_of_next next] at read
      cases read
  | cons item items ih =>
    rcases next : outer.next with ⟨_ | first, outer'⟩
    · rw [QuadScan.drain_of_end next] at read
      cases read
    · rw [QuadScan.drain_of_next next] at read
      obtain ⟨rfl, rest⟩ := List.cons.inj read
      obtain ⟨closed, gives⟩ := outer'.close_steady
      cases first with
      | error e =>
        rw [advance_of_error next]
        exact ⟨some (.error e), s.ended, gives.attempt.bind (.pure _), .failed e⟩
      | ok q =>
        rw [advance_of_quad next]
        by_cases again : last = some q.subject
        · rw [if_pos again]
          obtain ⟨item, s', gives, moves⟩ := ih outer' last rest
          exact ⟨item, s', gives, moves.cons⟩
        · rw [if_neg again]
          obtain ⟨passes, probed⟩ := Index.matchesAll_steady s.index s.store q.subject s.probes
          cases passes with
          | error e =>
            exact ⟨some (.error e), s.ended,
              probed.attempt.bind (gives.attempt.bind (.pure _)), .failed e⟩
          | ok passes =>
            cases passes with
            | true =>
              refine ⟨_, _, probed.attempt.bind (.pure _), .given List.mem_cons_self probed ?_⟩
              rw [rest]
              exact List.subset_cons_self _ _
            | false =>
              obtain ⟨item, s', gives, moves⟩ := ih outer' (some q.subject) rest
              exact ⟨item, s', probed.attempt.bind gives, moves.cons⟩

/-- Where all probes find a subject, each of them does. -/
theorem contains_of_matchesAll {ix : Index} {store : Store} {t : Iri} {ps : List JoinPattern}
    (h : Gives (matchesAll ix store t ps) (.ok true)) :
    ∀ p ∈ ps, Gives (ix.contains store (p.toPattern (some t))) (.ok true) := by
  induction ps with
  | nil => exact fun p mem => absurd mem List.not_mem_nil
  | cons p ps ih =>
    obtain ⟨found, gives, rest⟩ := h.of_bind (ix.contains_steady store _) fun found => by
      split
      · exact ix.matchesAll_steady store t ps
      · exact .pure _
    cases found with
    | true => exact List.forall_mem_cons.2 ⟨gives, ih rest⟩
    | false => cases rest.unique (.pure false)

end SubjectStream

namespace JoinResults

variable {r : JoinResults} {O : Except Error Iri → Prop}

/-- Nothing more comes, and nothing is left to be closed. -/
def Over : JoinResults → Prop
  | collected c => c.items.getD [] = []
  | streamed s => s.outer = none

/-- The items still to come are among some. -/
def Only (O : Except Error Iri → Prop) : JoinResults → Prop
  | collected c => ∀ s ∈ c.items.getD [], O (.ok s)
  | streamed s => (∀ e, O (.error e)) ∧ ∀ outer ∈ s.outer, ∀ q, .ok q ∈ outer.drain.1 →
    Gives (SubjectStream.matchesAll s.index s.store q.subject s.probes) (.ok true) →
      O (.ok q.subject)

/-- What a call does: it gives a subject, or it ends the results, with a failure or without. -/
inductive Answers (O : Except Error Iri → Prop) : Call → Answer → JoinResults → Prop
  | given {s : Iri} {r' : JoinResults} : O (.ok s) → r'.Only O →
    Answers O .next (.next (some (.ok s))) r'
  | failed {e : Error} {r' : JoinResults} : O (.error e) → r'.Over →
    Answers O .next (.next (some (.error e))) r'
  | ended {r' : JoinResults} : r'.Over → Answers O .next (.next none) r'
  | closed {result : Except Error Unit} {r' : JoinResults} : r'.Over →
    Answers O .close (.close result) r'

theorem next_streamed {s s' : SubjectStream} {item : Option (Except Error Iri)}
    (h : Gives s.next (.ok (item, s'))) :
    Gives (next (.streamed s)) (.ok (item, .streamed s')) := by
  unfold JoinResults.next
  exact h.bind (.pure _)

theorem next_answers (h : r.Only O) :
    ∃ item r', Gives r.next (.ok (item, r')) ∧ Answers O .next (.next item) r' := by
  cases r with
  | collected c =>
    obtain ⟨_ | _ | ⟨s, items⟩⟩ := c
    · exact ⟨none, _, .pure _, .ended rfl⟩
    · exact ⟨none, _, .pure _, .ended rfl⟩
    · obtain ⟨first, rest⟩ := List.forall_mem_cons.1 h
      exact ⟨some (.ok s), _, .pure _, .given first rest⟩
  | streamed s =>
    obtain ⟨failures, subjects⟩ := h
    cases begun : s.outer with
    | none =>
      have next : s.next = pure (none, s) := by rw [SubjectStream.next, begun]
      exact ⟨none, .streamed s, next_streamed (next ▸ .pure _), .ended begun⟩
    | some outer =>
      obtain ⟨item, s', gives, moves⟩ := @SubjectStream.advance_moves s outer s.last
      have next : s.next = s.advance outer s.last := by rw [SubjectStream.next, begun]
      refine ⟨item, .streamed s', next_streamed (next ▸ gives), ?_⟩
      cases moves with
      | ended => exact .ended rfl
      | failed e => exact .failed (failures e) rfl
      | given mem passes rest =>
        refine .given (subjects outer begun _ mem passes) ⟨failures, ?_⟩
        rintro _ ⟨⟩ q mem' passes'
        exact subjects outer begun q (rest mem') passes'

theorem close_steady (r : JoinResults) : r.close.Steady := by
  cases r with
  | collected c => exact .pure _
  | streamed s =>
    rw [close, SubjectStream.close]
    split
    · exact .pure _
    · exact QuadScan.close_steady _

theorem closed_over (r : JoinResults) : r.closed.Over := by
  cases r <;> rfl

/-- Every call has an answer. -/
theorem answer_gives (h : r.Only O) (c : Call) :
    ∃ a r', Gives (r.answer c) (.ok (a, r')) ∧ Answers O c a r' := by
  cases c with
  | next =>
    obtain ⟨item, r', gives, answers⟩ := next_answers h
    exact ⟨.next item, r', gives.bind (.pure _), answers⟩
  | close =>
    obtain ⟨result, gives⟩ := r.close_steady
    exact ⟨.close result, r.closed, gives.attempt.bind (.pure _), .closed r.closed_over⟩

theorem next_of_over (h : r.Over) : ∃ r', Gives r.next (.ok (none, r')) ∧ r'.Over := by
  cases r with
  | collected c =>
    obtain ⟨_ | _ | ⟨s, items⟩⟩ := c
    · exact ⟨_, .pure _, rfl⟩
    · exact ⟨_, .pure _, rfl⟩
    · cases h
  | streamed s =>
    have gone : s.outer = none := h
    have next : s.next = pure (none, s) := by rw [SubjectStream.next, gone]
    exact ⟨.streamed s, next_streamed (next ▸ .pure _), gone⟩

theorem close_of_over (h : r.Over) : Gives r.close (.ok ()) := by
  cases r with
  | collected c => exact .pure _
  | streamed s =>
    have gone : s.outer = none := h
    rw [close, SubjectStream.close, gone]
    exact .pure _

/-- Results that are over answer quietly and stay over. -/
theorem answer_of_over (h : r.Over) (c : Call) :
    ∃ r', Gives (r.answer c) (.ok (c.quiet, r')) ∧ r'.Over := by
  cases c with
  | next =>
    obtain ⟨r', gives, finished⟩ := next_of_over h
    exact ⟨r', gives.bind (.pure _), finished⟩
  | close => exact ⟨r.closed, (close_of_over h).attempt.bind (.pure _), r.closed_over⟩

theorem follow_of_over (h : r.Over) (calls : List Call) :
    Gives (r.follow calls) (.ok (calls.map Call.quiet)) := by
  induction calls generalizing r with
  | nil => exact .pure _
  | cons c calls ih =>
    obtain ⟨r', gives, finished⟩ := answer_of_over h c
    exact gives.bind ((ih finished).bind (.pure _))

/-- What holds of the answers to calls. -/
structure Disciplined (O : Except Error Iri → Prop) (calls : List Call) (answers : List Answer) :
    Prop where
  each : answers.map Answer.call = calls
  items : ∃ (subjects : List Iri) (failure : Option Error),
    answers.filterMap Answer.item? = subjects.map .ok ++ failure.toList.map .error
  only : ∀ item ∈ answers.filterMap Answer.item?, O item
  quiet : answers.Pairwise fun a b => a.Ends → b.Quiet

theorem Disciplined.given {calls : List Call} {answers : List Answer} {s : Iri}
    (h : Disciplined O calls answers) (first : O (.ok s)) :
    Disciplined O (.next :: calls) (.next (some (.ok s)) :: answers) where
  each := congrArg _ h.each
  items := by
    obtain ⟨subjects, failure, same⟩ := h.items
    exact ⟨s :: subjects, failure, congrArg _ same⟩
  only := List.forall_mem_cons.2 ⟨first, h.only⟩
  quiet := List.pairwise_cons.2 ⟨fun b mem ends => ends.elim, h.quiet⟩

/-- After the answer that ends the results, all others are quiet. -/
theorem Disciplined.ended {calls : List Call} {c : Call} {a : Answer} (answers : a.call = c)
    (failure : Option Error) (last : a.item? = failure.map .error)
    (possible : ∀ e ∈ failure, O (.error e)) :
    Disciplined O (c :: calls) (a :: calls.map Call.quiet) := by
  have nothing : (calls.map Call.quiet).filterMap Answer.item? = [] := by
    rw [List.filterMap_map, List.filterMap_eq_nil_iff]
    exact fun c _ => c.item?_quiet
  have items : (a :: calls.map Call.quiet).filterMap Answer.item? =
      failure.toList.map .error := by
    cases failure <;> simp [last, nothing]
  have quiet : ∀ b ∈ calls.map Call.quiet, b.Quiet := by
    intro b mem
    obtain ⟨c, _, rfl⟩ := List.mem_map.1 mem
    rw [Answer.Quiet, Call.call_quiet]
  constructor
  case each => simp [answers, Function.comp_def]
  case items => exact ⟨[], failure, items⟩
  case only =>
    rw [items]
    cases failure with
    | none => simp
    | some e => simpa using possible e rfl
  case quiet =>
    refine List.pairwise_cons.2 ⟨fun b mem _ => quiet b mem, ?_⟩
    apply List.pairwise_of_forall_mem_list
    exact fun _ _ b mem _ => quiet b mem

/-- The answers to any calls. -/
theorem follow_gives (h : r.Only O) (calls : List Call) :
    ∃ answers, Gives (r.follow calls) (.ok answers) ∧ Disciplined O calls answers := by
  induction calls generalizing r with
  | nil => exact ⟨[], .pure _, rfl, ⟨[], none, rfl⟩, by simp, .nil⟩
  | cons c calls ih =>
    obtain ⟨a, r', gives, answers⟩ := answer_gives h c
    cases answers with
    | @given s _ first only =>
      obtain ⟨answers, rest, disciplined⟩ := ih only
      exact ⟨_, gives.bind (rest.bind (.pure _)), disciplined.given first⟩
    | @failed e _ possible finished =>
      refine ⟨_, gives.bind ((follow_of_over finished calls).bind (.pure _)), ?_⟩
      exact .ended rfl (some e) rfl (by simpa using possible)
    | ended finished =>
      refine ⟨_, gives.bind ((follow_of_over finished calls).bind (.pure _)), ?_⟩
      exact .ended rfl none rfl (by simp)
    | closed finished =>
      refine ⟨_, gives.bind ((follow_of_over finished calls).bind (.pure _)), ?_⟩
      exact .ended rfl none rfl (by simp)

end JoinResults

/-- The scan of the pattern is read to its end without a failure, and it finds the subject. -/
def Index.Reads (ix : Index) (store : Store) (s : Iri) (p : JoinPattern) : Prop :=
  ∃ (scan : QuadScan) (qs : List Quad), Gives (ix.query store p.toPattern) (.ok scan) ∧
    scan.drain.1 = qs.map .ok ∧ ∃ q ∈ qs, q.subject = s

namespace HashJoin

variable {ix : Index} {store : Store} {round : Nat} {table counted last : Rounds}

/-- A round counts what a scan reads only where nothing in it has failed. -/
theorem items_of_countItems {items : List (Except Error Quad)}
    (h : countItems round table items = .ok counted) :
    ∃ qs : List Quad, items = qs.map .ok ∧
      counted = (qs.map (·.subject)).foldl (count round) table := by
  induction items generalizing table with
  | nil =>
    cases h
    exact ⟨[], rfl, rfl⟩
  | cons item items ih =>
    cases item with
    | error e => cases h
    | ok q =>
      obtain ⟨qs, rfl, rfl⟩ := ih h
      exact ⟨q :: qs, rfl, rfl⟩

/-- Rounds that give a table have read the first scan to its end, and went on with what that left. -/
theorem rounds_cons_eq_ok {p : JoinPattern} {ps : List JoinPattern}
    (h : Gives (rounds ix store round table (p :: ps)) (.ok last)) :
    ∃ (scan : QuadScan) (qs : List Quad), Gives (ix.query store p.toPattern) (.ok scan) ∧
      scan.drain.1 = qs.map .ok ∧
      Gives (if (survivors round ((qs.map (·.subject)).foldl (count round) table)).isEmpty
        then return survivors round ((qs.map (·.subject)).foldl (count round) table)
        else rounds ix store (round + 1)
          (survivors round ((qs.map (·.subject)).foldl (count round) table)) ps) (.ok last) := by
  obtain ⟨queried, querying⟩ := ix.query_steady store p.toPattern
  cases queried with
  | error e =>
    have failed : Gives (rounds ix store round table (p :: ps)) (.error e) := by
      unfold rounds
      exact querying.bind_error
    cases h.unique failed
  | ok scan =>
    obtain ⟨closed, closing⟩ := scan.drain.2.close_steady
    have later (counted : Rounds) : Steady (if (survivors round counted).isEmpty
        then return survivors round counted
        else rounds ix store (round + 1) (survivors round counted) ps) := by
      split
      · exact .pure _
      · exact ix.rounds_steady store _ _ _
    obtain ⟨rest, gives⟩ := Classical.axiomOfChoice later
    have result : Gives (rounds ix store round table (p :: ps)) (do
        closeAll [(countItems round table scan.drain.1).map fun _ => (), closed]
        rest (← countItems round table scan.drain.1)) := by
      unfold rounds
      exact querying.bind (closing.attempt.bind ((Gives.lift rfl).bind_result fun _ =>
        (Gives.lift rfl).bind_result gives))
    obtain ⟨_, _, same⟩ := bind_eq_ok_iff.1 (h.unique result).symm
    obtain ⟨counted, counting, same⟩ := bind_eq_ok_iff.1 same
    obtain ⟨qs, items, rfl⟩ := items_of_countItems counting
    refine ⟨scan, qs, querying, items, ?_⟩
    rw [← same]
    exact gives _

/-- What the rounds leave was found by all scans, each of them read to its end. -/
theorem reads_of_rounds {ps : List JoinPattern} (current : Current round table)
    (h : Gives (rounds ix store round table ps) (.ok last)) {s : Iri} (left : s ∈ keys last) :
    (round = 0 ∨ s ∈ keys table) ∧ ∀ p ∈ ps, ix.Reads store s p := by
  induction ps generalizing round table with
  | nil =>
    cases h.unique (.pure table)
    exact ⟨.inr left, fun p mem => absurd mem List.not_mem_nil⟩
  | cons p ps ih =>
    obtain ⟨scan, qs, gives, read, rest⟩ := rounds_cons_eq_ok h
    obtain ⟨current', kept⟩ := survivors_counted current (qs.map (·.subject))
    have found (mem : s ∈ keys (survivors round ((qs.map (·.subject)).foldl (count round) table))) :
        (round = 0 ∨ s ∈ keys table) ∧ ix.Reads store s p := by
      obtain ⟨subject, before⟩ := (kept s).1 mem
      exact ⟨before, scan, qs, gives, read, List.mem_map.1 subject⟩
    split at rest
    · next empty =>
      cases rest.unique (.pure _)
      rw [List.isEmpty_iff.1 empty] at left
      exact absurd left List.not_mem_nil
    · obtain ⟨before, later⟩ := ih current' rest
      obtain ⟨first, reads⟩ := found (before.resolve_left (Nat.succ_ne_zero round))
      exact ⟨first, List.forall_mem_cons.2 ⟨reads, later⟩⟩

end HashJoin

namespace Index

/-- Of no pattern, a join by probing gives nothing. Otherwise it gives only subjects of the first scan
that every probe finds, and failures. -/
theorem iterativeJoin_only {ix : Index} {store : Store} {ps : List JoinPattern}
    {stream : SubjectStream} (h : Gives (ix.iterativeJoin store ps) (.ok stream)) :
    (JoinResults.streamed stream).Only fun item => ∀ s, item = .ok s →
      ∃ (p : JoinPattern) (probes : List JoinPattern) (outer : QuadScan) (q : Quad),
        ps = p :: probes ∧ Gives (ix.query store p.toPattern) (.ok outer) ∧
        .ok q ∈ outer.drain.1 ∧ q.subject = s ∧
        ∀ x ∈ probes, Gives (ix.contains store (x.toPattern (some s))) (.ok true) := by
  cases ps with
  | nil =>
    cases h.unique (.pure _)
    constructor
    · intro e s same
      cases same
    · intro outer begun
      cases begun
  | cons p probes =>
    obtain ⟨outer, queried, begun⟩ := h.of_bind (ix.query_steady store _) fun _ => .pure _
    cases begun.unique (.pure _)
    constructor
    · intro e s same
      cases same
    · rintro _ ⟨⟩ q mem passes s ⟨⟩
      exact ⟨p, probes, outer, q, rfl, queried, mem, rfl,
        SubjectStream.contains_of_matchesAll passes⟩

/-- In any store, whatever its tables hold and wherever it fails: a join by probing fails at once, or
answers every sequence of calls with subjects of the first scan that every probe finds, then with one
failure at most, and quietly from the first failure, end or closing on. A join by counting fails and
gives nothing, or answers with subjects only; each of them was found by the scans of all patterns,
none of which failed. -/
theorem joins_disciplined (ix : Index) (store : Store) (ps : List JoinPattern) :
    ((∃ e, Gives (ix.join store .iterative ps) (.error e)) ∨
      ∃ results, Gives (ix.join store .iterative ps) (.ok results) ∧
        ∀ calls, ∃ (answers : List JoinResults.Answer) (subjects : List Iri)
            (failure : Option Error),
          Gives (results.follow calls) (.ok answers) ∧ answers.map (·.call) = calls ∧
          answers.filterMap (·.item?) = subjects.map .ok ++ failure.toList.map .error ∧
          (answers.Pairwise fun a b => a.Ends → b.Quiet) ∧
          ∀ s ∈ subjects, ∃ (p : JoinPattern) (probes : List JoinPattern) (outer : QuadScan)
            (q : Quad), ps = p :: probes ∧ Gives (ix.query store p.toPattern) (.ok outer) ∧
              .ok q ∈ outer.drain.1 ∧ q.subject = s ∧
              ∀ x ∈ probes, Gives (ix.contains store (x.toPattern (some s))) (.ok true)) ∧
    ((∃ e, Gives (ix.join store .hash ps) (.error e)) ∨
      ∃ results, Gives (ix.join store .hash ps) (.ok results) ∧
        ∀ calls, ∃ (answers : List JoinResults.Answer) (subjects : List Iri),
          Gives (results.follow calls) (.ok answers) ∧ answers.map (·.call) = calls ∧
          answers.filterMap (·.item?) = subjects.map .ok ∧
          (answers.Pairwise fun a b => a.Ends → b.Quiet) ∧
          ∀ s ∈ subjects, ∀ p ∈ ps, ∃ (scan : QuadScan) (qs : List Quad),
            Gives (ix.query store p.toPattern) (.ok scan) ∧ scan.drain.1 = qs.map .ok ∧
            ∃ q ∈ qs, q.subject = s) := by
  constructor
  · obtain ⟨begun, gives⟩ := ix.iterativeJoin_steady store ps
    cases begun with
    | error e => exact .inl ⟨e, gives.bind_error⟩
    | ok stream =>
      refine .inr ⟨.streamed stream, gives.bind (.pure _), fun calls => ?_⟩
      obtain ⟨answers, followed, disciplined⟩ :=
        JoinResults.follow_gives (iterativeJoin_only gives) calls
      obtain ⟨subjects, failure, items⟩ := disciplined.items
      refine ⟨answers, subjects, failure, followed, disciplined.each, items, disciplined.quiet,
        fun s mem => ?_⟩
      apply disciplined.only (.ok s) _ s rfl
      rw [items]
      exact List.mem_append_left _ (List.mem_map_of_mem mem)
  · obtain ⟨counted, gives⟩ := ix.rounds_steady store 0 [] ps
    cases counted with
    | error e => exact .inl ⟨e, (gives.bind_error).bind_error⟩
    | ok table =>
      have joined : Gives (ix.hashJoin store ps) (.ok (HashJoin.keys table)) := gives.bind (.pure _)
      refine .inr ⟨.collected (.ofList (HashJoin.keys table)), joined.bind (.pure _),
        fun calls => ?_⟩
      have only : (JoinResults.collected (.ofList (HashJoin.keys table))).Only fun item =>
          ∃ s, item = .ok s ∧ ∀ p ∈ ps, ix.Reads store s p :=
        fun s left => ⟨s, rfl, (HashJoin.reads_of_rounds (.nil 0) gives left).2⟩
      obtain ⟨answers, followed, disciplined⟩ := JoinResults.follow_gives only calls
      obtain ⟨subjects, failure, items⟩ := disciplined.items
      have only := disciplined.only
      rw [items] at only
      cases failure with
      | some e =>
        -- No failure is among the items that counting can give.
        obtain ⟨_, same, _⟩ := only (.error e) (List.mem_append_right _ (List.mem_singleton.2 rfl))
        cases same
      | none =>
        refine ⟨answers, subjects, followed, disciplined.each,
          items.trans (List.append_nil _), disciplined.quiet, fun s mem => ?_⟩
        obtain ⟨_, same, reads⟩ := only (.ok s) (List.mem_append_left _ (List.mem_map_of_mem mem))
        cases same
        exact reads

end Index

end QuadIndex
