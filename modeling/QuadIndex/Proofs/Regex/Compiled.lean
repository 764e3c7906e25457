import Mathlib
import QuadIndex.Proofs.Regex.Room
import QuadIndex.Proofs.Regex.Written

/-!
# Texts that are compiled for certain

A text of symbols, repetitions of these and groups of such is read wherever it stands (`Builds`). Its
levels are few, and the room of its program is bounded, so where that much is left it is compiled
(`Builds.exists_ofText?`).
-/

namespace QuadIndex.Regex

variable {known : Properties} {e e' : List Char} {ns : List (Nested Regex)} {t : State} {m n : Nat}

theorem depthBeside_le {ds : List Nat} (h : ∀ d ∈ ds, d ≤ n) : depthBeside ds ≤ n + 1 := by
  have most : ds.foldr max 0 ≤ n := by
    induction ds with
    | nil => exact Nat.zero_le n
    | cons d ds ih =>
      obtain ⟨first, others⟩ := List.forall_mem_cons.1 h
      exact Nat.max_le.2 ⟨first, ih others⟩
  unfold depthBeside
  split
  · exact Nat.zero_le _
  · exact Nat.le_succ_of_le (h _ (by simp))
  · exact Nat.succ_le_succ most

theorem State.pushAll_eq (t : State) (ns : List (Nested Regex)) : t.pushAll ns =
    { t with inner := { t.inner with parts := (ns.map Part.expression).reverse ++ t.inner.parts } } := by
  induction ns generalizing t with
  | nil => rfl
  | cons n ns ih =>
    change (t.push n.value n.depth).pushAll ns = _
    rw [ih, List.map_cons, List.reverse_cons, List.append_assoc]
    rfl

namespace Group

variable {g : Group}

theorem chosen_of_single (single : g.alternatives = []) :
    g.chosen.value = sequence (g.parts.reverse.filterMap Part.expression?) := by
  rw [chosen, single]
  change g.sequenced.value = _
  rw [sequenced]
  congr 2

theorem depth_chosen_of_single (single : g.alternatives = [])
    (few : ∀ p ∈ g.parts, p.depth ≤ n) : g.chosen.depth ≤ n + 1 := by
  rw [chosen, single]
  change g.sequenced.depth ≤ _
  refine depthBeside_le fun d mem => ?_
  obtain ⟨p, within, rfl⟩ := List.mem_map.1 mem
  exact few p within

end Group

theorem filterMap_expressions (ns : List (Nested Regex)) :
    (ns.map Part.expression).filterMap Part.expression? = ns.map (·.value) := by
  rw [List.filterMap_map, ← List.filterMap_eq_map]
  rfl

/-- In parentheses, expressions stand for their sequence. -/
theorem Adds.enclosed (h : Adds e ns) (few : ∀ k ∈ ns, k.depth ≤ n) : ∃ k ≤ n + 2,
    Adds ("(?:".toList ++ (e ++ [')'])) [⟨group none (sequence (ns.map (·.value))), k⟩] := by
  let g (known : Properties) : Group :=
    { outside := .dotted known, parts := (ns.map Part.expression).reverse }
  have value (known : Properties) :
      (g known).closed.value = group none (sequence (ns.map (·.value))) := by
    change group none (g known).chosen.value = _
    rw [(g known).chosen_of_single rfl, List.reverse_reverse, filterMap_expressions]
  have depth : (g .none).chosen.depth ≤ n + 1 :=
    (g .none).depth_chosen_of_single rfl fun p mem => by
      obtain ⟨k, within, rfl⟩ := List.mem_map.1 (List.mem_reverse.1 mem)
      exact few k within
  refine ⟨(g .none).closed.depth, Nat.succ_le_succ depth, fun known t more options _ => ?_⟩
  have inside : (t.enter (.dotted known)).pushAll ns =
      { t.enter (.dotted known) with inner := g known } := by
    rw [State.pushAll_eq]
    simp only [State.enter, options, List.append_nil, g]
  have closing : State.step? { t.enter (.dotted known) with inner := g known } ')' more =
      some (t.push (g known).closed.value (g .none).closed.depth, more) := by
    change some ({ t with
      options := .dotted known
      inner := t.inner.push (.expression (g known).closed) }, more) = _
    rw [← options]
    rfl
  have plain : t.options.verbose = false := by
    rw [options]
    rfl
  have all : "(?:".toList ++ (e ++ [')']) ++ more = '(' :: '?' :: ':' :: (e ++ ')' :: more) := by
    simp
  rw [all, State.read?_of_step plain (State.step?_enter options _)
    (by simp only [List.length_cons]; omega), h known (t.enter (.dotted known)) _ rfl (by simp), inside,
    State.read?_of_step rfl closing (by simp), value]
  rfl

/-- The text is read as expressions that test no places, with few levels and room for at most the
given program. -/
structure Builds (e : List Char) (room : Nat) : Prop where
  begins : e ≠ [] ∧ e.head? ≠ some '?'
  adds : ∃ ns, Adds e ns ∧ (∀ n ∈ ns, n.value.AnchorFree ∧ n.depth ≤ 4) ∧
    CostsAll (ns.map (·.value)) room

namespace Builds

theorem of_adds {k : Nested Regex} (begins : e ≠ [] ∧ e.head? ≠ some '?') (adds : Adds e [k])
    (free : k.value.AnchorFree) (few : k.depth ≤ 4) (costs : Costs k.value n) :
    Builds e (n + 4) := by
  refine ⟨begins, [k], adds, ?_, .cons costs (.nil (n := 0))⟩
  intro j mem
  obtain rfl := List.mem_singleton.1 mem
  exact ⟨free, few⟩

theorem mono (h : Builds e m) (le : m ≤ n) : Builds e n := by
  obtain ⟨begins, ns, adds, flat, costs⟩ := h
  exact ⟨begins, ns, adds, flat, costs.mono le⟩

theorem append (h : Builds e m) (h' : Builds e' n) : Builds (e ++ e') (m + n) := by
  obtain ⟨⟨some, unmarked⟩, ns, adds, flat, costs⟩ := h
  obtain ⟨⟨some', unmarked'⟩, ns', adds', flat', costs'⟩ := h'
  refine ⟨⟨by simp [some], by rwa [List.head?_append_of_ne_nil _ some]⟩, ns ++ ns',
    adds.append adds' unmarked' some', List.forall_mem_append.2 ⟨flat, flat'⟩, ?_⟩
  rw [List.map_append]
  exact costs.append costs'

theorem denotes (h : Builds e n) : ∃ l, Denotes known e l := by
  obtain ⟨begins, ns, adds, flat, _⟩ := h
  refine ⟨_, begins, _, adds.writes, anchorFree_sequence.2 fun r mem => ?_, rfl⟩
  obtain ⟨k, within, rfl⟩ := List.mem_map.1 mem
  exact (anchorFree_bare _).2 (flat k within).1

/-- Between marks of the start and of the end the text is compiled. -/
theorem exists_ofText? (h : Builds e n) (small : n + 400 ≤ Program.Draft.roomLimit) {text : String}
    (written : text.toList = '(' :: '?' :: 's' :: ')' :: '^' :: (e ++ ['$'])) :
    ∃ r, ofText? text known = some r := by
  obtain ⟨_, ns, adds, flat, costs⟩ := h
  let all : List (Nested Regex) := ns ++ [⟨anchor .textEnd, 0⟩]
  let r := ((State.anchored known).pushAll all).inner.chosen
  have parts : ((State.anchored known).pushAll all).inner.parts =
      (all.map Part.expression).reverse ++ [.expression ⟨anchor .textStart, 0⟩, .options] := by
    rw [State.pushAll_eq]
    rfl
  have single : ((State.anchored known).pushAll all).inner.alternatives = [] := by
    rw [State.pushAll_eq]
    rfl
  have read : (State.start known).read? text.toList = some r := by
    have whole := adds.append pushes_end.adds (by simp) (by simp)
    have open' : ((State.anchored known).pushAll all).outer = [] := by
      rw [State.pushAll_eq]
      rfl
    have plain : ((State.anchored known).pushAll all).options.verbose = false := by
      rw [State.pushAll_eq]
      rfl
    have same := whole known (State.anchored known) [] rfl (by simp)
    rw [List.append_nil] at same
    rw [written, read?_start, same, State.read?.eq_def, skipBlanks_plain plain, open']
    rfl
  have value : r.value = sequence (anchor .textStart :: (ns.map (·.value) ++ [anchor .textEnd])) := by
    have names : all.map (·.value) = ns.map (·.value) ++ [anchor .textEnd] := by simp [all]
    rw [Group.chosen_of_single single, parts, List.reverse_append, List.reverse_reverse,
      List.filterMap_append, filterMap_expressions, names]
    rfl
  have depth : r.depth ≤ depthLimit := by
    have few : r.depth ≤ 4 + 1 := Group.depth_chosen_of_single single fun p mem => by
      rw [parts, List.mem_append, List.mem_reverse, List.mem_map] at mem
      rcases mem with ⟨k, within, rfl⟩ | within
      · rcases List.mem_append.1 within with within | within
        · exact (flat k within).2
        · obtain rfl := List.mem_singleton.1 within
          exact Nat.zero_le _
      · simp only [List.mem_cons, List.not_mem_nil, or_false] at within
        rcases within with rfl | rfl <;> exact Nat.zero_le _
    exact Nat.le_trans few (by decide)
  have fits : r.value.fits = true := by
    have ends := CostsAll.cons (n := 0) (Costs.anchor .textEnd) .nil
    have whole := (CostsAll.cons (Costs.anchor .textStart) (costs.append ends)).sequence
    rw [value]
    exact whole.fits (by omega)
  refine ⟨r.value, ?_⟩
  rw [ofText?, read, Option.bind_some, if_pos ⟨depth, fits⟩]

end Builds

/-! ## Symbols -/

theorem builds_hex {d : Char} {k : Nat} (digit : hexValue? d = some k) (valid : k.isValidChar) :
    Builds ['\\', 'x', '0', d] 132 := by
  have short := (Char.ofNat k).utf8Size_le_four
  exact .of_adds (by simp) (pushes_hex digit valid).adds trivial (Nat.zero_le _)
    ((Costs.singleton _).mono (by omega))

set_option maxRecDepth 20000 in
theorem setRoom_all : Program.setRoom .all ≤ 2000 := by cbv

theorem builds_rest : Builds ['.', '*'] 2248 :=
  .of_adds (by simp) pushes_dot.star trivial (by decide)
    ((Costs.star .all true).mono (Nat.add_le_add_left setRoom_all 244))

set_option maxRecDepth 20000 in
theorem setRoom_other {k : Nat} (low : k < 2) :
    Program.setRoom (CharSet.empty.union (.singleton (Char.ofNat k))).complement ≤ 2000 := by
  match k, low with
  | 0, _ => cbv
  | 1, _ => cbv

/-- Any text without a delimiter of keys. -/
theorem builds_other {d : Char} {k : Nat} (digit : hexValue? d = some k) (valid : k.isValidChar)
    (low : k < 2) : Builds ['[', '^', '\\', 'x', '0', d, ']', '*'] 2248 :=
  .of_adds (by simp) (pushes_other digit valid).star trivial (by decide : 2 ≤ 4)
    ((Costs.star _ true).mono (Nat.add_le_add_left (setRoom_other low) 244))

theorem setRoom_digit : Program.setRoom
    ((CharSet.empty.union (.between '0' '9')).union (.between 'a' 'f')) ≤ 200 := by cbv

theorem builds_digits :
    Builds ['[', '0', '-', '9', 'a', '-', 'f', ']', '\x7b', '3', '2', '\x7d'] 10628 := by
  refine .of_adds (by simp) pushes_digit.thirtyTwo trivial (by decide) ?_
  refine (Costs.times _ 31 true (by decide)).mono ?_
  have room := setRoom_digit
  omega

end QuadIndex.Regex
