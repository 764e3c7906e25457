import QuadIndex.Proofs.Regex.Enclosed
import QuadIndex.Proofs.Text.Utf8

/-!
# Texts that write expressions side by side

Outside of groups, a text in parentheses adds its expression to those that stand before it, and so
do characters, sets and repetitions of these (`Writes`). So a text put together from such pieces,
between marks of the start and of the end, matches the texts of the product of their languages
(`Denotes.isMatch`).
-/

namespace QuadIndex.Regex

variable {known : Properties} {e e' cs more : List Char} {r : Regex} {rs rs' : List Regex}
variable {t : State} {depth : Nat}

/-- The expression of the part, if it has one. -/
def Part.expression? : Part → Option Regex
  | options => none
  | expression r => some r.value

namespace State

/-- No group is open, and the sequence so far is that of the given expressions, but for groups. -/
structure Holds (known : Properties) (t : State) (rs : List Regex) : Prop where
  options : t.options = .dotted known
  outer : t.outer = []
  alternatives : t.inner.bare.alternatives = []
  parts : t.inner.bare.parts.reverse.filterMap Part.expression? = rs

namespace Holds

theorem plain (h : Holds known t rs) : t.options.verbose = false := by
  rw [h.options]
  rfl

theorem chosen (h : Holds known t rs) : t.inner.chosen.value.bare = sequence rs := by
  have bare : t.inner.bare.chosen.value = t.inner.chosen.value.bare := by
    rw [Group.chosen_bare]
    rfl
  rw [← bare, Group.chosen, h.alternatives, ← h.parts]
  change t.inner.bare.sequenced.value = _
  rw [Group.sequenced]
  congr 2

theorem push (h : Holds known t rs) (r : Regex) (depth : Nat) :
    Holds known (t.push r depth) (rs ++ [r.bare]) where
  options := h.options
  outer := h.outer
  alternatives := h.alternatives
  parts := by
    rw [← h.parts, State.push, Group.bare_push]
    simp [Group.push, Part.bare, Part.expression?, Nested.bare]

end Holds

end State

/-- After any expressions the text adds the given ones, or else the whole text cannot be read. What
follows must not turn around the last repetition. -/
def Writes (known : Properties) (e : List Char) (rs : List Regex) : Prop :=
  ∀ (t : State) ss more, t.Holds known ss → more.head? ≠ some '?' → t.read? (e ++ more) = none ∨
    ∃ t' : State, t.read? (e ++ more) = t'.read? more ∧ t'.Holds known (ss ++ rs)

theorem Writes.append (h : Writes known e rs) (h' : Writes known e' rs')
    (unmarked : e'.head? ≠ some '?') (some : e' ≠ []) : Writes known (e ++ e') (rs ++ rs') := by
  intro t ss more holds clear
  have first : (e' ++ more).head? ≠ Option.some '?' := by
    cases e' with
    | nil => exact absurd rfl some
    | cons c e' => exact unmarked
  rw [List.append_assoc]
  rcases h t ss _ holds first with failed | ⟨t', same, holds'⟩
  · exact .inl failed
  · rcases h' t' _ more holds' clear with failed | ⟨t'', same', holds''⟩
    · exact .inl (same.trans failed)
    · exact .inr ⟨t'', same.trans same', List.append_assoc ss rs rs' ▸ holds''⟩

/-- Opens a group without a number and with the same options. -/
theorem State.step?_enter (options : t.options = .dotted known) (more : List Char) :
    t.step? '(' ('?' :: ':' :: more) = some (t.enter (.dotted known), more) := by
  have span : (':' :: more).span (fun c => c != ':' && c != ')') = ([], ':' :: more) := rfl
  have plain : t.options.verbose = false := by
    rw [options]
    rfl
  have kept : t.options.change? [] = some (.dotted known) := by
    rw [options]
    rfl
  change t.open? (skipBlanks t.options _) = _
  rw [skipBlanks_plain plain, State.open?]
  · simp only [span, kept]
    rfl
  all_goals exact fun _ same => absurd (List.cons.inj same).1 (by decide)

/-- In parentheses, an expression on its own stands for itself. -/
theorem writes_enclosed {text : String} (h : Expresses known text r) :
    Writes known ("(?:".toList ++ (text.toList ++ [')'])) [r.bare] := by
  obtain ⟨s, reads, closed, rfl, _⟩ := h
  intro t ss more holds _
  have opened := State.step?_enter holds.options (text.toList ++ ')' :: more)
  have within : State.Within [t.inner.bare] (State.dotted known) (t.enter (.dotted known)) := {
    options := rfl
    inner := by simp only [State.enter, State.dotted, holds.options]
    outer := by simp [State.enter, State.dotted, holds.outer] }
  have all : "(?:".toList ++ (text.toList ++ [')']) ++ more =
      '(' :: '?' :: ':' :: (text.toList ++ ')' :: more) := by simp
  rw [all, State.read?_of_step holds.plain opened (by simp only [List.length_cons]; omega)]
  rcases within.reads rfl reads more with failed | ⟨t', same, h'⟩
  · exact .inl failed
  · have around := h'.outer
    rw [closed, List.map_nil, List.nil_append] at around
    obtain ⟨parent, around, alike⟩ := List.map_eq_singleton_iff.1 around
    have plain : t'.options.verbose = false := by
      rw [h'.options, reads.options]
      rfl
    have closing : t'.step? ')' more = some ({ t' with
      options := t'.inner.outside
      inner := parent.push (.expression t'.inner.closed)
      outer := [] }, more) := by
      change t'.close?.map (fun t => (t, more)) = _
      rw [State.close?, around]
      rfl
    refine .inr ⟨_, same.trans (State.read?_of_step plain closing (by simp)), ?_, rfl, ?_, ?_⟩
    · have base := reads.base
      rw [State.base, closed] at base
      have outside : t'.inner.bare.outside = s.inner.bare.outside := by rw [h'.inner]
      exact outside.trans base
    · rw [Group.bare_push, alike]
      exact holds.alternatives
    · rw [Group.bare_push, alike, Part.bare, Group.closed_bare h'.inner, ← holds.parts]
      simp only [Group.push, List.reverse_cons, List.filterMap_append]
      rfl

/-! ## Texts that are read for certain -/

/-- The state with the expressions added to the sequence. -/
def State.pushAll (t : State) (ns : List (Nested Regex)) : State :=
  ns.foldl (fun t n => t.push n.value n.depth) t

theorem State.Holds.pushAll {ns : List (Nested Regex)} (h : t.Holds known rs) :
    (t.pushAll ns).Holds known (rs ++ ns.map (·.value.bare)) := by
  induction ns generalizing t rs with
  | nil => exact (List.append_nil rs).symm ▸ h
  | cons n ns ih =>
    have others := ih (h.push n.value n.depth)
    rwa [List.append_assoc] at others

/-- Wherever it stands, the text adds the expressions. What follows must not turn around the last
repetition. -/
def Adds (e : List Char) (ns : List (Nested Regex)) : Prop :=
  ∀ (known : Properties) (t : State) more, t.options = .dotted known → more.head? ≠ some '?' →
    t.read? (e ++ more) = (t.pushAll ns).read? more

namespace Adds

variable {ns ns' : List (Nested Regex)}

theorem writes (h : Adds e ns) : Writes known e (ns.map (·.value.bare)) :=
  fun t _ more holds unmarked => .inr ⟨_, h known t more holds.options unmarked, holds.pushAll⟩

theorem options_pushAll (t : State) (ns : List (Nested Regex)) :
    (t.pushAll ns).options = t.options := by
  induction ns generalizing t with
  | nil => rfl
  | cons n ns ih => exact ih _

theorem append (h : Adds e ns) (h' : Adds e' ns') (unmarked : e'.head? ≠ some '?')
    (some : e' ≠ []) : Adds (e ++ e') (ns ++ ns') := by
  intro known t more options clear
  have first : (e' ++ more).head? ≠ Option.some '?' := by
    rwa [List.head?_append_of_ne_nil _ some]
  rw [List.append_assoc, h known t _ options first,
    h' known (t.pushAll ns) more ((options_pushAll t ns).trans options) clear]
  simp only [State.pushAll, List.foldl_append]

end Adds

/-- The text of one symbol adds the expression in one step. -/
def Pushes (e : List Char) (n : Nested Regex) : Prop :=
  ∃ c cs, e = c :: cs ∧ ∀ (known : Properties) (t : State) more, t.options = .dotted known →
    t.step? c (cs ++ more) = some (t.push n.value n.depth, more)

namespace Pushes

variable {n : Nested Regex}

theorem length_lt_cons_append (c : Char) (cs more : List Char) :
    more.length < (c :: (cs ++ more)).length := by
  simp only [List.length_cons, List.length_append]
  omega

theorem of_step {c : Char} (step : ∀ (known : Properties) (t : State) more,
    t.options = .dotted known → t.step? c (cs ++ more) = some (t.push n.value n.depth, more)) :
    Pushes (c :: cs) n :=
  ⟨c, cs, rfl, step⟩

theorem read? (h : Pushes e n) (options : t.options = .dotted known) (more : List Char) :
    t.read? (e ++ more) = (t.push n.value n.depth).read? more := by
  obtain ⟨c, cs, rfl, step⟩ := h
  refine State.read?_of_step ?_ (step known t more options) (length_lt_cons_append c cs more)
  rw [options]
  rfl

theorem adds (h : Pushes e n) : Adds e [n] := fun _ _ more options _ => h.read? options more

theorem adds_cons (h : Pushes e n) {ns : List (Nested Regex)} (h' : Adds e' ns) :
    Adds (e ++ e') (n :: ns) := by
  intro known t more options unmarked
  rw [List.append_assoc, h.read? options]
  exact h' known (t.push n.value n.depth) more options unmarked

theorem reads_cons (h : Pushes e n) (options : t.options = .dotted known) {t' : State}
    (rest : (t.push n.value n.depth).Reads e' t') : t.Reads (e ++ e') t' := by
  obtain ⟨c, cs, rfl, step⟩ := h
  exact .cons (step known t e' options) (length_lt_cons_append c cs e') rfl rest

/-- A mark of repetition after the symbol, which may hold a count. -/
theorem repeated (h : Pushes e n) {c : Char} {least : Nat} {most : Option Nat}
    (mark : ∀ (known : Properties) (t : State) more, t.options = .dotted known →
      more.head? ≠ some '?' →
        t.step? c (cs ++ more) = (t.repeat? least most true).map fun t => (t, more)) :
    Adds (e ++ c :: cs) [⟨.repeated n.value least most true, n.depth + 1⟩] := by
  intro known t more options unmarked
  have marked := mark known (t.push n.value n.depth) more options unmarked
  change _ = some (t.push (.repeated n.value least most true) (n.depth + 1), more) at marked
  rw [List.append_assoc, h.read? options]
  refine State.read?_of_step ?_ marked (length_lt_cons_append c cs more)
  change t.options.verbose = false
  rw [options]
  rfl

end Pushes

theorem greed_of_unmarked (unmarked : more.head? ≠ some '?') :
    greed (.dotted known) more = (true, more) := by
  rw [greed]
  · rfl
  · rintro after rfl
    exact unmarked rfl

theorem Pushes.star {n : Nested Regex} (h : Pushes e n) :
    Adds (e ++ ['*']) [⟨.repeated n.value 0 none true, n.depth + 1⟩] := by
  refine h.repeated fun known t more options unmarked => ?_
  simp only [List.nil_append, State.step?, options, greed_of_unmarked unmarked]

theorem Pushes.thirtyTwo {n : Nested Regex} (h : Pushes e n) :
    Adds (e ++ ['\x7b', '3', '2', '\x7d']) [⟨.repeated n.value 32 (some 32) true, n.depth + 1⟩] := by
  refine h.repeated fun known t more options unmarked => ?_
  have counted : bounds? (.dotted known) (['3', '2', '\x7d'] ++ more) = some ((32, some 32), more) := by
    have span : ('3' :: '2' :: '\x7d' :: more).span Char.isDigit =
        (['3', '2'], '\x7d' :: more) := rfl
    have digit : CharSet.blank.contains '3' = false := by
      simp [CharSet.contains, CharSet.blank, CharSet.blankRanges]
    have brace : CharSet.blank.contains '\x7d' = false := by
      simp [CharSet.contains, CharSet.blank, CharSet.blankRanges]
    have number : (Numeral.nat? ['3', '2']).filter (· < 2 ^ 32) = some 32 := by decide
    have count : count? (.dotted known) (['3', '2', '\x7d'] ++ more) = (some 32, '\x7d' :: more) := by
      change count? (.dotted known) ('3' :: '2' :: '\x7d' :: more) = _
      rw [count?, List.dropWhile_cons, digit, if_neg Bool.false_ne_true,
        spanVisible_eq_span rfl (Nat.lt_succ_self _), span]
      dsimp only
      rw [number, List.dropWhile_cons, brace, if_neg Bool.false_ne_true]
    rw [bounds?, skipBlanks_plain rfl, count]
    rfl
  simp only [State.step?, options, counted, skipBlanks_plain (o := .dotted known) rfl,
    Option.bind_eq_bind, Option.bind_some,
    greed_of_unmarked unmarked]
  cases t.repeat? 32 (some 32) true <;> rfl

/-! ## Symbols -/

theorem pushes_dot : Pushes ['.'] ⟨one .all, 0⟩ :=
  Pushes.of_step fun known t more options => by
    simp only [State.step?, options]
    rfl

theorem pushes_literal {c : Char} (ordinary : isMeta c = false) :
    Pushes [c] ⟨one (.singleton c), 0⟩ :=
  Pushes.of_step fun known t more options => by
    unfold State.step?
    dsimp only
    rw [options]
    split
    all_goals first
      | exact absurd ordinary (by decide)
      | rfl

theorem escape?_special {c : Char} (special : isMeta c = true) (more : List Char) :
    escape? (.dotted known) (c :: more) = some (.literal c, more) := by
  have mem : c ∈ "\\.+*?()|[]\x7b\x7d^$#&-~".toList := List.contains_iff_mem.1 special
  simp only [String.reduceToList, List.mem_cons, List.not_mem_nil, or_false] at mem
  rcases mem with rfl | rfl | rfl | rfl | rfl | rfl | rfl | rfl | rfl | rfl | rfl | rfl | rfl |
    rfl | rfl | rfl | rfl | rfl <;> rfl

theorem pushes_escaped {c : Char} (special : isMeta c = true) :
    Pushes ['\\', c] ⟨one (.singleton c), 0⟩ :=
  Pushes.of_step fun known t more options => by
    simp only [State.step?, options, List.singleton_append, escape?_special special]
    rfl

theorem escape?_hex {d : Char} {n : Nat} (digit : hexValue? d = some n) (valid : n.isValidChar)
    (more : List Char) :
    escape? (.dotted known) ('x' :: '0' :: d :: more) = some (.literal (Char.ofNat n), more) := by
  have zero : hexValue? '0' = some 0 := rfl
  have read : codePoint? (.dotted known) 2 ('0' :: d :: more) = some (Char.ofNat n, more) := by
    have digits : hexDigits? (.dotted known) 2 0 ('0' :: d :: more) = some (n, more) := by
      rw [hexDigits?, skipBlanks_plain rfl]
      simp only [zero, Option.bind_some]
      rw [hexDigits?, skipBlanks_plain rfl]
      simp [digit, hexDigits?]
    change (hexDigits? (.dotted known) 2 0 ('0' :: d :: more)).bind _ = _
    rw [digits]
    change (charOf? n).bind _ = _
    rw [charOf?, if_pos valid]
    rfl
  change (codePoint? (.dotted known) 2 ('0' :: d :: more)).map _ = _
  rw [read]
  rfl

/-- A character by its code point of one digit. -/
theorem pushes_hex {d : Char} {n : Nat} (digit : hexValue? d = some n) (valid : n.isValidChar) :
    Pushes ['\\', 'x', '0', d] ⟨one (.singleton (Char.ofNat n)), 0⟩ :=
  Pushes.of_step fun known t more options => by
    simp only [State.step?, options, List.cons_append, List.nil_append, escape?_hex digit valid]
    rfl

namespace Bracket

variable {o : Options} {b b' : Bracket} {rest : List Char}

theorem read?_of_item (plain : o.verbose = false)
    (step : step? o b [] cs = some (.inl (b', []), rest)) (shorter : rest.length < cs.length) :
    read? o b [] cs = read? o b' [] rest := by
  rw [read?, skipBlanks_plain plain, step]
  exact if_pos shorter

theorem read?_of_end (plain : o.verbose = false) {s : Nested CharSet}
    (step : step? o b [] cs = some (.inr s, rest)) : read? o b [] cs = some (s, rest) := by
  rw [read?, skipBlanks_plain plain, step]

end Bracket

theorem pushes_digit : Pushes ['[', '0', '-', '9', 'a', '-', 'f', ']']
    ⟨one ((CharSet.empty.union (.between '0' '9')).union (.between 'a' 'f')), 2⟩ :=
  Pushes.of_step fun known t more options => by
    let b : Bracket := { negated := false }
    let b' := b.add ⟨.between '0' '9', 0⟩
    have start : Bracket.start (.dotted known) ('0' :: '-' :: '9' :: 'a' :: '-' :: 'f' :: ']' :: more) =
        (b, '0' :: '-' :: '9' :: 'a' :: '-' :: 'f' :: ']' :: more) := rfl
    have digits :
        Bracket.step? (.dotted known) b [] ('0' :: '-' :: '9' :: 'a' :: '-' :: 'f' :: ']' :: more) =
          some (.inl (b', []), 'a' :: '-' :: 'f' :: ']' :: more) := rfl
    have letters : Bracket.step? (.dotted known) b' [] ('a' :: '-' :: 'f' :: ']' :: more) =
        some (.inl (b'.add ⟨.between 'a' 'f', 0⟩, []), ']' :: more) := rfl
    simp only [State.step?, options, List.cons_append, List.nil_append, start]
    rw [Bracket.read?_of_item rfl digits (by simp), Bracket.read?_of_item rfl letters (by simp),
      Bracket.read?_of_end rfl rfl]
    rfl

/-- Any character but one, given by its code point of one digit. -/
theorem pushes_other {d : Char} {n : Nat} (digit : hexValue? d = some n) (valid : n.isValidChar) :
    Pushes ['[', '^', '\\', 'x', '0', d, ']']
      ⟨one (CharSet.empty.union (.singleton (Char.ofNat n))).complement, 1⟩ :=
  Pushes.of_step fun known t more options => by
    let b : Bracket := { negated := true }
    have start : Bracket.start (.dotted known) ('^' :: '\\' :: 'x' :: '0' :: d :: ']' :: more) =
        (b, '\\' :: 'x' :: '0' :: d :: ']' :: more) := rfl
    have item : Bracket.step? (.dotted known) b [] ('\\' :: 'x' :: '0' :: d :: ']' :: more) =
        some (.inl (b.add ⟨.singleton (Char.ofNat n), 0⟩, []), ']' :: more) := by
      change ((escape? (.dotted known) ('x' :: '0' :: d :: ']' :: more)).bind _).bind _ = _
      rw [escape?_hex digit valid]
      rfl
    simp only [State.step?, options, List.cons_append, List.nil_append, start]
    rw [Bracket.read?_of_item rfl item (by simp), Bracket.read?_of_end rfl rfl]
    rfl

/-! ## Languages of texts -/

/-- In any place outside of groups, the text stands for the language. -/
def Denotes (known : Properties) (e : List Char) (l : Language Char) : Prop :=
  (e ≠ [] ∧ e.head? ≠ some '?') ∧
    ∃ rs, Writes known e rs ∧ (sequence rs).AnchorFree ∧ (sequence rs).language = l

namespace Denotes

variable {l m : Language Char}

theorem of_writes (clear : e ≠ [] ∧ e.head? ≠ some '?') (h : Writes known e [r])
    (free : r.AnchorFree) : Denotes known e r.language :=
  ⟨clear, [r], h, ⟨free, trivial⟩, mul_one r.language⟩

theorem append (h : Denotes known e l) (h' : Denotes known e' m) :
    Denotes known (e ++ e') (l * m) := by
  obtain ⟨⟨some, unmarked⟩, rs, writes, free, rfl⟩ := h
  obtain ⟨⟨some', unmarked'⟩, rs', writes', free', rfl⟩ := h'
  refine ⟨⟨by simp [some], ?_⟩, rs ++ rs', writes.append writes' unmarked' some', ?_, ?_⟩
  · rwa [List.head?_append_of_ne_nil _ some]
  · rw [anchorFree_sequence] at free free' ⊢
    exact List.forall_mem_append.2 ⟨free, free'⟩
  · exact language_sequence_append rs rs'

theorem enclosed {text : String} (h : Expresses known text r) :
    Denotes known ("(?:".toList ++ (text.toList ++ [')'])) r.language := by
  obtain ⟨_, _, _, _, free⟩ := id h
  rw [← language_bare]
  exact of_writes (by simp) (writes_enclosed h) ((anchorFree_bare r).2 free)

end Denotes

theorem denotes_dot : Denotes known ['.'] (one .all).language :=
  .of_writes (by simp) pushes_dot.adds.writes trivial

theorem denotes_hex {d : Char} {n : Nat} (digit : hexValue? d = some n) (valid : n.isValidChar) :
    Denotes known ['\\', 'x', '0', d] {[Char.ofNat n]} := by
  rw [← language_singleton]
  exact .of_writes (by simp) (pushes_hex digit valid).adds.writes trivial

/-- The text that stands for anything but one character. -/
theorem denotes_other {d : Char} {n : Nat} (digit : hexValue? d = some n) (valid : n.isValidChar) :
    ∃ l, Denotes known ['[', '^', '\\', 'x', '0', d, ']', '*'] l ∧
      ∀ w, w ∈ l ↔ ∀ c ∈ w, c ≠ Char.ofNat n := by
  refine ⟨_, .of_writes (by simp) (pushes_other digit valid).star.writes trivial, fun w => ?_⟩
  refine mem_star.trans ?_
  apply forall₂_congr
  intro c _
  rw [CharSet.contains_complement, CharSet.contains_union, CharSet.contains_empty, Bool.false_or,
    Bool.not_eq_true', Bool.eq_false_iff, Ne, Ne, contains_singleton]

/-- The text that stands for thirty-two digits. -/
theorem denotes_digits : ∃ l,
    Denotes known ['[', '0', '-', '9', 'a', '-', 'f', ']', '\x7b', '3', '2', '\x7d'] l ∧
      ∀ w, w ∈ l ↔ w.length = 32 ∧ ∀ c ∈ w, ('0' ≤ c ∧ c ≤ '9') ∨ ('a' ≤ c ∧ c ≤ 'f') := by
  refine ⟨_, .of_writes (by simp) pushes_digit.thirtyTwo.writes trivial, fun w => ?_⟩
  refine mem_times.trans ?_
  refine and_congr_right fun _ => forall₂_congr fun c _ => ?_
  simp

/-- Behind the option that a dot stands for any character, and the mark of the start. -/
def State.anchored (known : Properties) : State :=
  State.push { State.start known with
    options := .dotted known
    inner := (State.start known).inner.push .options } (anchor .textStart) 0

theorem State.holds_anchored : (State.anchored known).Holds known [anchor .textStart] :=
  ⟨rfl, rfl, rfl, rfl⟩

theorem read?_start (more : List Char) :
    (State.start known).read? ('(' :: '?' :: 's' :: ')' :: '^' :: more) =
      (State.anchored known).read? more := by
  let s : State := { State.start known with
    options := .dotted known
    inner := (State.start known).inner.push .options }
  have options : (State.start known).step? '(' ('?' :: 's' :: ')' :: '^' :: more) =
      some (s, '^' :: more) := rfl
  have start : s.step? '^' more = some (State.anchored known, more) := rfl
  rw [State.read?_of_step rfl options (by simp only [List.length_cons]; omega),
    State.read?_of_step rfl start (by simp)]

theorem pushes_end : Pushes ['$'] ⟨anchor .textEnd, 0⟩ :=
  Pushes.of_step fun known t more options => by
    simp only [State.step?, options]
    rfl

/-- Between marks of the start and of the end, a text is an expression that matches the bytes which a
text of the language spells. -/
theorem Denotes.isMatch {l : Language Char} (h : Denotes known e l) {r : Nested Regex}
    (read : (State.start known).read? ('(' :: '?' :: 's' :: ')' :: '^' :: (e ++ ['$'])) = some r)
    (bs : Bytes) :
    r.value.isMatch bs = true ↔ ∃ w ∈ l, bs = Text.spell w := by
  obtain ⟨_, rs, writes, free, rfl⟩ := h
  have whole := writes.append pushes_end.adds.writes (by simp) (by simp)
  rw [read?_start] at read
  rcases whole _ _ [] State.holds_anchored (by simp) with failed | ⟨t', same, holds'⟩
  · rw [List.append_nil, read] at failed
    cases failed
  · rw [List.append_nil, read, State.read?.eq_def, skipBlanks_plain holds'.plain,
      holds'.outer] at same
    cases same
    have bare := holds'.chosen
    rw [Regex.isMatch, Regex.search, ← advance_bare, bare]
    refine (search_between free _).trans ?_
    simp only [Text.symbols_eq_map_iff]

end QuadIndex.Regex
