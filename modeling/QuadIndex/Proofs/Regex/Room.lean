import QuadIndex.Proofs.Text.Order
import QuadIndex.Regex.NamedSet
import QuadIndex.Regex.Program.Layout

/-!
# The room of programs

Each part of an expression adds a limited room to a draft, whatever stands there already, and cannot
fail where that much is left (`Fills`). States that are found again take none, so no bound depends on
which are found.
-/

namespace QuadIndex.Regex.Program

/-- The layout takes at most the given room, and succeeds wherever that much is left. -/
def Fills (layout : Draft → Option Draft) (room : Nat) : Prop :=
  ∀ d, d.room + room ≤ Draft.roomLimit → ∃ d', layout d = some d' ∧ d'.room ≤ d.room + room

namespace Fills

variable {layout further part : Draft → Option Draft} {m n : Nat}

theorem mono (h : Fills layout m) (le : m ≤ n) : Fills layout n := by
  intro d fits
  obtain ⟨d', made, room⟩ := h d (by omega)
  exact ⟨d', made, by omega⟩

theorem add (states lists : Nat) : Fills (·.add? states lists) (32 * states + lists) := by
  intro d fits
  have grown : Draft.room { d with states := d.states + states, lists := d.lists + lists } =
      d.room + (32 * states + lists) := by
    simp only [Draft.room]
    omega
  exact ⟨_, if_pos (grown ▸ fits), Nat.le_of_eq grown⟩

theorem link : Fills Draft.link? 4 := by
  intro d fits
  unfold Draft.link?
  split
  · exact add 0 4 { d with branching := false } fits
  · exact ⟨d, rfl, Nat.le_add_right _ _⟩

theorem bind (h : Fills layout m) (h' : Fills further n) :
    Fills (fun d => (layout d).bind further) (m + n) := by
  intro d fits
  obtain ⟨d', made, room⟩ := h d (by omega)
  obtain ⟨d'', made', room'⟩ := h' d' (by omega)
  exact ⟨d'', by simp only [made, Option.bind_some, made'], by omega⟩

theorem ending (branching : Bool) : Fills (fun d => some (d.ending branching)) 0 :=
  fun d _ => ⟨d.ending branching, rfl, Nat.le_refl _⟩

/-! ## Repetitions -/

theorem more (h : Fills part n) (k : Nat) : Fills (more? part k) (k * (n + 4)) := by
  induction k with
  | zero => exact fun d _ => ⟨d, rfl, Nat.le_add_right _ _⟩
  | succ k ih =>
    have turn : more? part (k + 1) = fun d => (d.link?.bind part).bind (more? part k) := by
      funext d
      rw [more?]
      cases d.link?.bind part <;> rfl
    rw [turn]
    exact ((link.bind h).bind ih).mono (by rw [Nat.succ_mul]; omega)

theorem copies (h : Fills part n) (k : Nat) : Fills (copies? part (k + 1)) (n + k * (n + 4)) :=
  h.bind (h.more k)

/-- Any number of copies, one of which is laid out. -/
theorem star (h : Fills part n) (consumes : Bool) :
    Fills (repeated? part consumes 0 none) (n + 116) := by
  cases consumes with
  | true =>
    have laid := (add 1 0).bind (h.bind (link.bind ((add 0 4).bind (ending true))))
    exact laid.mono (n := n + 116) (by omega)
  | false =>
    have laid := h.bind (link.bind ((add 3 16).bind (ending false)))
    exact laid.mono (n := n + 116) (by omega)

/-- A fixed number of copies. -/
theorem times (h : Fills part n) (consumes : Bool) (k : Nat) :
    Fills (repeated? part consumes (k + 1) (some (k + 1))) (n + k * (n + 4)) := by
  intro d fits
  obtain ⟨d', made, room⟩ := h.copies k d fits
  refine ⟨d', ?_, room⟩
  simp [repeated?, made]

end Fills

/-! ## Sets -/

/-- The room of a state that is still open, once it is laid out. -/
def OpenState.room (s : OpenState) : Nat := 32 + 8 * (s.done.length + s.last.toList.length)

/-- The room of a chain of open states. -/
def chainRoom : List OpenState → Nat
  | [] => 0
  | s :: chain => s.room + chainRoom chain

theorem chainRoom_cons (s : OpenState) (chain : List OpenState) :
    chainRoom (s :: chain) = s.room + chainRoom chain := rfl

variable {l : Laid} {chain : List OpenState} {rs : List ByteInterval}

theorem Laid.exists_state? (l : Laid) (ts : List Transition)
    (fits : l.draft.room + (32 + 8 * ts.length) ≤ Draft.roomLimit) :
    ∃ n l', l.state? ts = some (n, l') ∧ l'.draft.room ≤ l.draft.room + (32 + 8 * ts.length) := by
  rw [Laid.state?]
  dsimp only
  split
  · exact ⟨_, l, rfl, Nat.le_add_right _ _⟩
  · have same : 32 * 1 + ts.length * Draft.rangeRoom = 32 + 8 * ts.length :=
      congrArg (32 + ·) (Nat.mul_comm _ _)
    obtain ⟨d, made, room⟩ := Fills.add 1 (ts.length * Draft.rangeRoom) l.draft (same ▸ fits)
    simp only [made, Option.bind_eq_bind, Option.bind_some]
    exact ⟨_, _, rfl, same ▸ room⟩

theorem OpenState.length_closed (s : OpenState) (target : Nat) :
    32 + 8 * (s.closed target).length = s.room := by
  unfold closed room
  cases s.last with
  | none => simp
  | some bytes => simp

theorem OpenState.exists_close? (target : Nat)
    (fits : l.draft.room + chainRoom chain ≤ Draft.roomLimit) :
    ∃ n l', close? target chain l = some (n, l') ∧
      l'.draft.room ≤ l.draft.room + chainRoom chain := by
  induction chain with
  | nil => exact ⟨target, l, rfl, Nat.le_refl _⟩
  | cons s rest ih =>
    rw [chainRoom_cons] at fits ⊢
    obtain ⟨n, l', closed, room⟩ := ih (by omega)
    have own := s.length_closed n
    obtain ⟨n', l'', laid, room'⟩ := l'.exists_state? (s.closed n) (by omega)
    refine ⟨n', l'', ?_, by omega⟩
    change (close? target rest l).bind _ = _
    rw [closed]
    exact laid

theorem chainRoom_opened (rs : List ByteInterval) :
    chainRoom (rs.map fun r => ⟨[], some r⟩) = 40 * rs.length := by
  induction rs with
  | nil => rfl
  | cons r rs ih =>
    have new : OpenState.room ⟨[], some r⟩ = 40 := rfl
    rw [List.map_cons, chainRoom_cons, new, ih, List.length_cons]
    omega

/-- With one more sequence there are no more new states than it has bytes. -/
theorem OpenState.exists_add? (target : Nat)
    (fits : l.draft.room + (chainRoom chain + 40 * rs.length) ≤ Draft.roomLimit) :
    ∃ chain' l', add? target chain rs l = some (chain', l') ∧
      l'.draft.room + chainRoom chain' ≤ l.draft.room + (chainRoom chain + 40 * rs.length) := by
  induction chain generalizing rs with
  | nil => exact ⟨_, l, rfl, by rw [chainRoom_opened]; simp [chainRoom]⟩
  | cons s rest ih =>
    rw [chainRoom_cons] at fits ⊢
    cases rs with
    | nil => exact ⟨_, l, rfl, by rw [chainRoom_opened]; simp⟩
    | cons r rs =>
      rw [List.length_cons] at fits ⊢
      rw [add?]
      by_cases shared : s.last = some r
      · obtain ⟨rest', l', added, room⟩ := @ih rs (by omega)
        refine ⟨s :: rest', l', ?_, by rw [chainRoom_cons]; omega⟩
        simp [shared, added]
      · obtain ⟨n, l', closed, room⟩ := @exists_close? l rest target (by omega)
        refine ⟨⟨s.closed n, some r⟩ :: rs.map fun r => ⟨[], some r⟩, l', ?_, ?_⟩
        · simp [shared, closed]
        · have own := s.length_closed n
          have new : OpenState.room ⟨s.closed n, some r⟩ = 32 + 8 * ((s.closed n).length + 1) := rfl
          rw [chainRoom_cons, chainRoom_opened, new]
          omega

/-- The room of the states for the sequences, if none is found again. -/
def sequencesRoom : List (List ByteInterval) → Nat
  | [] => 0
  | rs :: seqs => 40 * rs.length + 4 + sequencesRoom seqs

theorem sequencesRoom_cons (rs : List ByteInterval) (seqs : List (List ByteInterval)) :
    sequencesRoom (rs :: seqs) = 40 * rs.length + 4 + sequencesRoom seqs := rfl

theorem exists_foldlM_add? (target : Nat) {seqs : List (List ByteInterval)}
    (fits : l.draft.room + (chainRoom chain + sequencesRoom seqs) ≤ Draft.roomLimit) :
    ∃ chain' l', seqs.foldlM (fun (chain, l) rs => OpenState.add? target chain rs l) (chain, l) =
        some (chain', l') ∧
      l'.draft.room + chainRoom chain' ≤ l.draft.room + (chainRoom chain + sequencesRoom seqs) := by
  induction seqs generalizing chain l with
  | nil => exact ⟨chain, l, rfl, by omega⟩
  | cons rs seqs ih =>
    rw [sequencesRoom_cons] at fits ⊢
    obtain ⟨chain', l', added, room⟩ := @OpenState.exists_add? l chain rs target (by omega)
    obtain ⟨chain'', l'', others, room'⟩ := @ih l' chain' (by omega)
    refine ⟨chain'', l'', ?_, by omega⟩
    rw [List.foldlM_cons]
    dsimp only
    rw [added]
    exact others

theorem fills_forwardStates? (seqs : List (List ByteInterval)) :
    Fills (forwardStates? seqs) (64 + sequencesRoom seqs) := by
  intro d fits
  obtain ⟨start, (made : d.add? 1 = some start), room⟩ := Fills.add 1 0 d (by omega)
  have chain : chainRoom [{}] = 32 := rfl
  have within : Laid.draft { draft := start } = start := rfl
  obtain ⟨chain', l, added, room'⟩ := @exists_foldlM_add? { draft := start } [{}] d.states seqs
    (by rw [chain, within]; omega)
  obtain ⟨n, l', closed, room''⟩ := @OpenState.exists_close? l chain' d.states
    (by rw [chain, within] at room'; omega)
  refine ⟨l'.draft, ?_, by rw [chain, within] at room'; omega⟩
  rw [forwardStates?, made]
  simp only [Option.bind_eq_bind, Option.bind_some, added, closed]
  rfl

/-! Backwards, each byte of a sequence takes at most one state. -/

theorem Suffixes.exists_state? (l : Suffixes) (target : Nat) (bytes : ByteInterval)
    (fits : l.draft.room + 32 ≤ Draft.roomLimit) :
    ∃ n l', l.state? target bytes = some (n, l') ∧ l'.draft.room ≤ l.draft.room + 32 := by
  rw [Suffixes.state?]
  dsimp only
  split
  · exact ⟨_, l, rfl, Nat.le_add_right _ _⟩
  · obtain ⟨d, (made : l.draft.add? 1 = some d), room⟩ := Fills.add 1 0 l.draft fits
    simp only [made, Option.bind_eq_bind, Option.bind_some]
    exact ⟨_, _, rfl, room⟩

theorem Suffixes.exists_foldlM_state? (l : Suffixes) (target : Nat) (rs : List ByteInterval)
    (fits : l.draft.room + 32 * rs.length ≤ Draft.roomLimit) :
    ∃ n l', rs.foldlM (fun (target, l) bytes => Suffixes.state? l target bytes) (target, l) =
      some (n, l') ∧ l'.draft.room ≤ l.draft.room + 32 * rs.length := by
  induction rs generalizing target l with
  | nil => exact ⟨target, l, rfl, Nat.le_refl _⟩
  | cons r rs ih =>
    rw [List.length_cons] at fits ⊢
    obtain ⟨n, l', first, room⟩ := l.exists_state? target r (by omega)
    obtain ⟨n', l'', others, room'⟩ := ih l' n (by omega)
    refine ⟨n', l'', ?_, by omega⟩
    rw [List.foldlM_cons]
    dsimp only
    rw [first]
    exact others

theorem Suffixes.exists_branch? (l : Suffixes) (target : Nat) (rs : List ByteInterval)
    (fits : l.draft.room + (40 * rs.length + 4) ≤ Draft.roomLimit) :
    ∃ l', l.branch? target rs = some l' ∧
      l'.draft.room ≤ l.draft.room + (40 * rs.length + 4) := by
  obtain ⟨n, l', laid, room⟩ := l.exists_foldlM_state? target rs (by omega)
  obtain ⟨d, (made : l'.draft.add? 0 Draft.branchRoom = some d), room'⟩ :=
    Fills.add 0 4 l'.draft (by omega)
  refine ⟨{ l' with draft := d }, ?_, by dsimp only; omega⟩
  rw [Suffixes.branch?, laid]
  simp only [Option.bind_eq_bind, Option.bind_some, made]
  rfl

theorem fills_backwardStates? (seqs : List (List ByteInterval)) :
    Fills (backwardStates? seqs) (64 + sequencesRoom seqs) := by
  have all (target : Nat) (l : Suffixes)
      (fits : l.draft.room + sequencesRoom seqs ≤ Draft.roomLimit) :
      ∃ l', seqs.foldlM (fun l rs => l.branch? target rs) l = some l' ∧
        l'.draft.room ≤ l.draft.room + sequencesRoom seqs := by
    induction seqs generalizing l with
    | nil => exact ⟨l, rfl, by omega⟩
    | cons rs seqs ih =>
      rw [sequencesRoom_cons] at fits ⊢
      obtain ⟨l', first, room⟩ := l.exists_branch? target rs (by omega)
      obtain ⟨l'', others, room'⟩ := ih l' (by omega)
      refine ⟨l'', ?_, by omega⟩
      rw [List.foldlM_cons, first]
      exact others
  intro d fits
  obtain ⟨start, (made : d.add? 2 = some start), room⟩ := Fills.add 2 0 d (by omega)
  have within : Suffixes.draft { draft := start } = start := rfl
  obtain ⟨l, added, room'⟩ := all (d.states + 1) { draft := start } (by rw [within]; omega)
  refine ⟨l.draft, ?_, by rw [within] at room'; omega⟩
  rw [backwardStates?, made]
  simp only [Option.bind_eq_bind, Option.bind_some, added]
  rfl

/-- The room of the states for one character of a set. -/
def setRoom (s : CharSet) : Nat := 64 + 8 * s.ranges.length + sequencesRoom (sequences s)

theorem fills_setStates? (direction : Direction) (s : CharSet) :
    Fills (setStates? direction s) (setRoom s) := by
  unfold setStates? setRoom
  split
  · exact (Fills.add 2 (s.ranges.length * 8)).mono (by omega)
  · cases direction with
    | forwards => exact (fills_forwardStates? _).mono (by omega)
    | backwards => exact (fills_backwardStates? _).mono (by omega)

/-! ## Forms -/

/-- A form without choices and without numbered groups, and room for its states. -/
inductive Costs : Shape → Nat → Prop
  | empty : Costs .empty 32
  | anchor (a : Anchor) : Costs (.anchor a) 32
  | literal (cs : List Char) : Costs (.literal cs) (32 * (Text.spell cs).length)
  | set (s : CharSet) : Costs (.set s) (setRoom s)
  | star {body : Shape} {n : Nat} (greedy : Bool) : Costs body n →
    Costs (.repeated body 0 none greedy) (n + 116)
  | times {body : Shape} {n : Nat} (k : Nat) (greedy : Bool) : Costs body n →
    Costs (.repeated body (k + 1) (some (k + 1)) greedy) (n + k * (n + 4))
  | seq {first rest : Shape} {m n : Nat} : Costs first m → Costs rest n →
    Costs (.seq first rest) (m + (4 + n))

namespace Costs

variable {s t : Shape} {m n : Nat}

/-- Most forms stay as they are. -/
theorem beside (h : Costs s m) (h' : Costs t n)
    (same : s.append t = if t = .empty then s else .seq s t) :
    ∃ k ≤ m + (4 + n), Costs (s.append t) k := by
  rw [same]
  split
  · exact ⟨m, Nat.le_add_right _ _, h⟩
  · exact ⟨_, Nat.le_refl _, h.seq h'⟩

/-- A literal becomes longer. -/
theorem literal_append (cs : List Char) (h : Costs t n) :
    ∃ k ≤ 32 * (Text.spell cs).length + (4 + n), Costs ((Shape.literal cs).append t) k := by
  have join (ds : List Char) : 32 * (Text.spell (cs ++ ds)).length =
      32 * (Text.spell cs).length + 32 * (Text.spell ds).length := by
    rw [Text.spell_append, List.length_append, Nat.mul_add]
  cases t with
  | literal ds =>
    cases h
    exact ⟨_, by rw [join]; omega, literal (cs ++ ds)⟩
  | seq first rest =>
    cases first with
    | literal ds =>
      obtain _ | _ | _ | _ | _ | _ | ⟨first, rest⟩ := h
      cases first
      exact ⟨_, by rw [join]; omega, (literal (cs ++ ds)).seq rest⟩
    | _ => exact (literal cs).beside h rfl
  | _ => exact (literal cs).beside h rfl

/-- One after another, two forms take no more than a link besides. -/
theorem append (h : Costs s m) (h' : Costs t n) :
    ∃ k ≤ m + (4 + n), Costs (s.append t) k := by
  induction h generalizing t n with
  | empty => exact ⟨n, by omega, by rwa [Shape.append]⟩
  | seq _ _ ih ih' =>
    obtain ⟨k, le, rest⟩ := ih' h'
    obtain ⟨k', le', whole⟩ := ih rest
    exact ⟨k', by omega, by rwa [Shape.append]⟩
  | literal cs => exact literal_append cs h'
  | anchor a => exact (anchor a).beside h' (by cases t <;> rfl)
  | set s => exact (set s).beside h' (by cases t <;> rfl)
  | star greedy h => exact (star greedy h).beside h' (by cases t <;> rfl)
  | times k greedy h => exact (times k greedy h).beside h' (by cases t <;> rfl)

theorem fills (h : Costs s n) (direction : Direction) : Fills (states? direction s 0) n := by
  have alone {layout : Draft → Option Draft} {k : Nat} (h : Fills layout k) :
      Fills (fun d => (layout d).bind fun d => if 0 = 0 then some d else branched? 0 d) k := by
    have same : (fun d => (layout d).bind fun d => if 0 = 0 then some d else branched? 0 d) =
        layout := by
      funext d
      cases layout d <;> rfl
    rwa [same]
  have closed {layout : Draft → Option Draft} {k : Nat} (h : Fills layout k) :
      Fills (fun d => (layout d).map (·.ending false)) k := by
    intro d fits
    obtain ⟨d', made, room⟩ := h d fits
    exact ⟨d'.ending false, by simp only [made, Option.map_some], room⟩
  induction h with
  | empty => exact alone (closed (Fills.add 1 0))
  | anchor a => exact alone (closed (Fills.add 1 0))
  | literal cs =>
    have length : (bytesOf direction cs).length = (Text.spell cs).length := by
      cases direction <;> simp [bytesOf, Text.utf8_eq_spell]
    rw [← length]
    exact alone (closed (Fills.add (bytesOf direction cs).length 0))
  | set s => exact alone (closed (fills_setStates? direction s))
  | star greedy h ih => exact alone (ih.star _)
  | times k greedy h ih => exact alone (ih.times _ k)
  | seq h h' ih ih' =>
    cases direction with
    | forwards => exact ih.bind (Fills.link.bind (alone ih'))
    | backwards =>
      refine (ih'.bind (Fills.link.bind (alone ih))).mono ?_
      omega

end Costs

end QuadIndex.Regex.Program

namespace QuadIndex.Regex

open Program

/-- The program for the expression takes at most the given room. -/
def Costs (r : Regex) (room : Nat) : Prop := ∃ k ≤ room, Program.Costs (.ofRegex r) k

theorem edges_singleton (c : Char) : (CharSet.singleton c).edges = [c.toNat, c.toNat + 1] := by
  have bounds := Text.toNat_bounds c
  unfold CharSet.singleton CharSet.between CharSet.interval CharSet.inter CharSet.operate CharSet.all
  rw [dif_pos (Nat.le_refl _)]
  generalize c.toNat = n at bounds
  simp only [CharSet.combine, CharSet.mark]
  grind

theorem ofSet_singleton (c : Char) : Shape.ofSet (.singleton c) = .literal [c] := by
  have only : (CharSet.singleton c).single? = some c := by
    simp [CharSet.single?, CharSet.ranges, edges_singleton, CharSet.ranges.pairs]
  rw [Shape.ofSet, only]

/-- A character cannot be repeated in place. -/
theorem isStill_ofSet (s : CharSet) : (Shape.ofSet s).isStill = false := by
  unfold Shape.ofSet Shape.isStill
  split
  · rfl
  · rw [Shape.mostLength]
    split <;> rfl

namespace Costs

variable {r : Regex} {rs : List Regex} {m n : Nat} {s : CharSet} {c : Char}

theorem mono (h : Costs r m) (le : m ≤ n) : Costs r n := by
  obtain ⟨k, le', h⟩ := h
  exact ⟨k, Nat.le_trans le' le, h⟩

theorem empty : Costs .empty 32 := ⟨32, Nat.le_refl _, .empty⟩

theorem anchor (a : Anchor) : Costs (.anchor a) 32 := ⟨32, Nat.le_refl _, .anchor a⟩

theorem seq {first second : Regex} (h : Costs first m) (h' : Costs second n) :
    Costs (.seq first second) (m + (4 + n)) := by
  obtain ⟨k, le, h⟩ := h
  obtain ⟨k', le', h'⟩ := h'
  obtain ⟨k'', le'', whole⟩ := h.append h'
  exact ⟨k'', by omega, whole⟩

/-- A group without a number takes no room of its own. -/
theorem group (h : Costs r n) : Costs (.group none r) n := h

theorem one (s : CharSet) : Costs (.one s) (128 + setRoom s) := by
  change ∃ k ≤ _, Program.Costs (Shape.ofSet s) k
  unfold Shape.ofSet
  split
  · next c _ =>
    have short := c.utf8Size_le_four
    rw [← String.length_utf8EncodeChar] at short
    refine ⟨_, ?_, .literal [c]⟩
    rw [Text.spell_cons, List.length_append]
    change 32 * (_ + 0) ≤ _
    omega
  · exact ⟨_, Nat.le_add_left _ _, .set s⟩

theorem singleton (c : Char) : Costs (.one (.singleton c)) (32 * c.utf8Size) := by
  change ∃ k ≤ _, Program.Costs (Shape.ofSet (.singleton c)) k
  rw [ofSet_singleton]
  refine ⟨_, ?_, .literal [c]⟩
  rw [← String.length_utf8EncodeChar, Text.spell_cons, List.length_append]
  exact Nat.le_refl _

theorem star (s : CharSet) (greedy : Bool) :
    Costs (.repeated (.one s) 0 none greedy) (244 + setRoom s) := by
  obtain ⟨k, le, h⟩ := one s
  refine ⟨k + 116, by omega, ?_⟩
  have shape : Shape.ofRegex (.repeated (.one s) 0 none greedy) =
      .repeated (Shape.ofSet s) 0 none greedy := by
    change (Shape.ofSet s).times 0 none greedy = _
    simp [Shape.times, isStill_ofSet]
  exact shape ▸ .star greedy h

theorem times (s : CharSet) (k : Nat) (greedy : Bool) (several : k ≠ 0) :
    Costs (.repeated (.one s) (k + 1) (some (k + 1)) greedy) ((k + 1) * (132 + setRoom s)) := by
  obtain ⟨j, le, h⟩ := one s
  refine ⟨j + k * (j + 4), ?_, ?_⟩
  · have turns := Nat.mul_le_mul_left k (show j + 4 ≤ 132 + setRoom s by omega)
    rw [Nat.add_mul, Nat.one_mul]
    omega
  · have shape : Shape.ofRegex (.repeated (.one s) (k + 1) (some (k + 1)) greedy) =
        .repeated (Shape.ofSet s) (k + 1) (some (k + 1)) greedy := by
      change (Shape.ofSet s).times (k + 1) (some (k + 1)) greedy = _
      simp [Shape.times, isStill_ofSet, several]
    exact shape ▸ .times k greedy h

/-- The program for the expression has room in both directions. -/
theorem fits (h : Costs r n) (small : n + 212 ≤ Draft.roomLimit) : r.fits = true := by
  obtain ⟨k, le, h⟩ := h
  -- what comes before the expression takes little room, whether it is anchored or not
  have begins (anchored : Bool) {layout : Draft → Option Draft} {j : Nat} (h : Fills layout j)
      (small : 112 + j ≤ Draft.roomLimit) :
      ∃ d, (if anchored then (Draft.add? {} 1).bind layout else (Draft.add? {} 3 16).bind layout) =
        some d := by
    have within (states lists : Nat) (few : 32 * states + lists ≤ 112) :
        ∃ d, (Draft.add? {} states lists).bind layout = some d := by
      have whole := (Fills.add states lists).bind h
      have none : Draft.room {} = 0 := rfl
      obtain ⟨d, made, _⟩ := whole {} (by omega)
      exact ⟨d, made⟩
    cases anchored with
    | true => exact within 1 0 (by decide)
    | false => exact within 3 16 (by decide)
  have both (direction : Direction) : (draft? direction (.ofRegex r)).isSome = true := by
    refine Option.isSome_iff_exists.2 ?_
    cases direction with
    | forwards =>
      have rest := (Fills.add 1 0).bind ((h.fills .forwards).bind (Fills.link.bind (Fills.add 2 0)))
      exact begins _ rest (by omega)
    | backwards =>
      have rest := (h.fills .backwards).bind (Fills.link.bind (Fills.add 1 0))
      exact begins _ rest (by omega)
  rw [Regex.fits]
  simp only [both, Bool.and_self]

end Costs

/-- The programs for the expressions take at most the given room, with the links between them. -/
inductive CostsAll : List Regex → Nat → Prop
  | nil {n : Nat} : CostsAll [] n
  | cons {r : Regex} {rs : List Regex} {m n : Nat} : Costs r m → CostsAll rs n →
    CostsAll (r :: rs) (m + (4 + n))

namespace CostsAll

variable {rs ss : List Regex} {m n : Nat}

theorem mono (h : CostsAll rs m) (le : m ≤ n) : CostsAll rs n := by
  obtain ⟨k, rfl⟩ := Nat.exists_eq_add_of_le le
  clear le
  induction h with
  | nil => exact .nil
  | cons first _ ih =>
    have whole := CostsAll.cons first ih
    rwa [← Nat.add_assoc 4, ← Nat.add_assoc] at whole

theorem append (h : CostsAll rs m) (h' : CostsAll ss n) : CostsAll (rs ++ ss) (m + n) := by
  induction h with
  | nil => exact h'.mono (Nat.le_add_left _ _)
  | cons first _ ih =>
    have whole := CostsAll.cons first ih
    rwa [← Nat.add_assoc 4, ← Nat.add_assoc] at whole

theorem sequence (h : CostsAll rs n) : Costs (sequence rs) (n + 32) := by
  induction h with
  | nil => exact Costs.empty.mono (Nat.le_add_left _ _)
  | cons first _ ih => exact (first.seq ih).mono (by omega)

end CostsAll

end QuadIndex.Regex
