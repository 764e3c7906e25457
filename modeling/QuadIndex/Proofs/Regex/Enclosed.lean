import QuadIndex.Proofs.Regex.Language
import QuadIndex.Proofs.Regex.Local

/-!
# Expressions inside others

A text is an expression on its own if reading it from the start comes to its end with all groups
closed. Where it never changes the options, the same text in parentheses is read as that expression
in any place: the groups around it and the numbers of groups before it make no difference to what is
read inside (`Within.step`, `Within.reads`).
-/

namespace QuadIndex.Regex

variable {o : Options} {c : Char} {cs rest more : List Char} {g h : Group}

/-! ## Groups without their numbers -/

/-- The expression without its groups. -/
def Nested.bare (r : Nested Regex) : Nested Regex := ⟨r.value.bare, r.depth⟩

/-- The part without the groups in it. -/
def Part.bare : Part → Part
  | options => options
  | expression r => expression r.bare

namespace Group

/-- The group without its number and without the groups in it. -/
def bare (g : Group) : Group :=
  { g with
    number := none
    alternatives := g.alternatives.map Nested.bare
    parts := g.parts.map Part.bare }

theorem depth_bare (p : Part) : p.bare.depth = p.depth := by
  cases p <;> rfl

theorem sequenced_bare (g : Group) : g.bare.sequenced = g.sequenced.bare := by
  simp only [sequenced, bare, Nested.bare, bare_sequence, List.map_filterMap, List.map_map,
    ← List.map_reverse, List.filterMap_map, Function.comp_def, depth_bare]
  congr 3
  funext p
  cases p <;> rfl

theorem chosen_bare (g : Group) : g.bare.chosen = g.chosen.bare := by
  have all : (g.bare.sequenced :: g.bare.alternatives).reverse =
      (g.sequenced :: g.alternatives).reverse.map Nested.bare := by
    rw [sequenced_bare, List.map_reverse]
    rfl
  have depths : (g.bare.sequenced :: g.bare.alternatives).map (·.depth) =
      (g.sequenced :: g.alternatives).map (·.depth) := by
    rw [sequenced_bare]
    simp [bare, Nested.bare]
  unfold chosen
  rw [all, depths]
  cases (g.sequenced :: g.alternatives).reverse with
  | nil => rfl
  | cons r rs => simp only [Nested.bare, bare_anyOf, List.map_cons, List.map_map, Function.comp_def]

theorem bare_push (g : Group) (p : Part) : (g.push p).bare = g.bare.push p.bare := rfl

theorem bare_alternate (g : Group) : g.alternate.bare = g.bare.alternate := by
  simp only [alternate, sequenced_bare]
  rfl

theorem bare_repeat? (g : Group) (least : Nat) (most : Option Nat) (greedy : Bool) :
    (g.repeat? least most greedy).map bare = g.bare.repeat? least most greedy := by
  unfold Group.repeat?
  rcases parts : g.parts with _ | ⟨_ | r, others⟩ <;>
    simp [bare, Part.bare, Nested.bare, parts, Regex.bare]

/-- Groups alike but for numbers are the same expression when they are closed. -/
theorem closed_bare (same : h.bare = g.bare) : h.closed.bare = g.closed.bare := by
  have chosen := congrArg Group.chosen same
  rw [chosen_bare, chosen_bare, Nested.bare, Nested.bare, Nested.mk.injEq] at chosen
  simp only [closed, Nested.bare, Regex.bare, chosen.1, chosen.2]

end Group

/-- The options under which a dot stands for any character, with the properties that are known. -/
def Options.dotted (known : Properties) : Options := { properties := known, dotAll := true }

namespace State

/-- The start of a text where a dot stands for any character. -/
def dotted (known : Properties) : State :=
  { options := .dotted known, inner := { outside := .dotted known } }

/-- Reading the text takes one state to the other, and never changes the options. -/
inductive Reads : State → List Char → State → Prop
  | nil {s : State} : Reads s [] s
  | cons {s s' s'' : State} {c : Char} {cs rest : List Char} :
    s.step? c cs = some (s', rest) → rest.length < (c :: cs).length → s'.options = s.options →
    Reads s' rest s'' → Reads s (c :: cs) s''

variable {s s' t : State} {P : List Group}

/-- Opens a group with a name that is not taken, which ends with an angle. -/
def enterNamed? (s : State) (cs : List Char) : Option (State × List Char) :=
  (groupName? cs).bind fun named =>
    if s.names.contains named.1 then none
    else some ({ s.enterNumbered with names := named.1 :: s.names }, named.2)

/-- The state stands inside groups just as another does that has none of these around it. -/
structure Within (P : List Group) (s t : State) : Prop where
  options : t.options = s.options
  inner : t.inner.bare = s.inner.bare
  outer : t.outer.map Group.bare = s.outer.map Group.bare ++ P

theorem read?_of_step (plain : s.options.verbose = false) (step : s.step? c cs = some (s', rest))
    (shorter : rest.length < (c :: cs).length) : s.read? (c :: cs) = s'.read? rest := by
  rw [read?.eq_def s, skipBlanks_plain plain]
  simp only [step]
  exact if_pos shorter

theorem read?_of_no_step (plain : s.options.verbose = false) (step : s.step? c cs = none) :
    s.read? (c :: cs) = none := by
  rw [read?.eq_def s, skipBlanks_plain plain]
  simp only [step]

namespace Within

theorem push (h : Within P s t) (r : Regex) (depth : Nat) :
    Within P (s.push r depth) (t.push r depth) where
  options := h.options
  inner := congrArg (·.push (.expression ⟨r.bare, depth⟩)) h.inner
  outer := h.outer

theorem changeOptions (h : Within P s t) (options : Options) :
    Within P { s with options, inner := s.inner.push .options }
      { t with options, inner := t.inner.push .options } where
  options := rfl
  inner := congrArg (·.push .options) h.inner
  outer := h.outer

theorem alternate (h : Within P s t) : Within P { s with inner := s.inner.alternate }
    { t with inner := t.inner.alternate } where
  options := h.options
  inner := by rw [Group.bare_alternate, Group.bare_alternate, h.inner]
  outer := h.outer

theorem repeat? (h : Within P s t) {least : Nat} {most : Option Nat} {greedy : Bool}
    (repeated : s.repeat? least most greedy = some s') :
    ∃ t', t.repeat? least most greedy = some t' ∧ Within P s' t' := by
  obtain ⟨g, found, rfl⟩ := Option.map_eq_some_iff.1 repeated
  have bare : (t.inner.repeat? least most greedy).map Group.bare = some g.bare := by
    rw [Group.bare_repeat?, h.inner, ← Group.bare_repeat?, found, Option.map_some]
  obtain ⟨g', found', same⟩ := Option.map_eq_some_iff.1 bare
  exact ⟨{ t with inner := g' }, Option.map_eq_some_iff.2 ⟨g', found', rfl⟩,
    h.options, same, h.outer⟩

/-- A mark of repetition, and the mark after it. -/
theorem repeatMark (h : Within P s t) {least : Nat} {most : Option Nat}
    (repeated : (s.repeat? least most (greed o cs).1).map (fun s => (s, (greed o cs).2)) =
      some (s', rest)) (more : List Char) :
    ∃ t', (t.repeat? least most (greed o (cs ++ ')' :: more)).1).map
      (fun t => (t, (greed o (cs ++ ')' :: more)).2)) = some (t', rest ++ ')' :: more) ∧
      Within P s' t' := by
  obtain ⟨s', found, same⟩ := Option.map_eq_some_iff.1 repeated
  cases same
  rw [greed_append]
  obtain ⟨t', repeated', h'⟩ := h.repeat? found
  exact ⟨t', Option.map_eq_some_iff.2 ⟨t', repeated', rfl⟩, h'⟩

theorem enter (h : Within P s t) (inside : Options) :
    Within P (s.enter inside) (t.enter inside) where
  options := rfl
  inner := by
    simp only [State.enter, h.options]
  outer := by
    simp only [State.enter, List.map_cons, List.cons_append, h.inner, h.outer]

theorem enterNumbered (h : Within P s t) : Within P s.enterNumbered t.enterNumbered where
  options := h.options
  inner := by
    simp only [State.enterNumbered, h.options]
    rfl
  outer := by
    simp only [State.enterNumbered, List.map_cons, List.cons_append, h.inner, h.outer]

theorem close? (h : Within P s t) (closed : s.close? = some s') :
    ∃ t', t.close? = some t' ∧ Within P s' t' := by
  unfold State.close? at closed ⊢
  have outer := h.outer
  cases around : s.outer with
  | nil =>
    rw [around] at closed
    cases closed
  | cons parent others =>
    rw [around] at closed outer
    cases closed
    obtain ⟨parent', others', around', same, outer'⟩ := List.map_eq_cons_iff.1 outer
    rw [around']
    have outside : t.inner.bare.outside = s.inner.bare.outside := by rw [h.inner]
    refine ⟨_, rfl, outside, ?_, outer'⟩
    simp only [Group.bare_push, Part.bare, Group.closed_bare h.inner, same]

theorem enterNamed? (h : Within P s t) (entered : s.enterNamed? cs = some (s', rest))
    (more : List Char) : t.enterNamed? (cs ++ ')' :: more) = none ∨
      ∃ t', t.enterNamed? (cs ++ ')' :: more) = some (t', rest ++ ')' :: more) ∧
        Within P s' t' := by
  obtain ⟨⟨name, after⟩, read, entered⟩ := Option.bind_eq_some_iff.1 entered
  rw [State.enterNamed?, groupName?_local _ _ _ more read, Option.bind_some]
  dsimp only at entered ⊢
  split at entered
  · cases entered
  · cases entered
    split
    · exact .inl rfl
    · have inside := h.enterNumbered
      exact .inr ⟨_, rfl, inside.options, inside.inner, inside.outer⟩

theorem open? (h : Within P s t) (opened : s.open? cs = some (s', rest)) (more : List Char) :
    t.open? (cs ++ ')' :: more) = none ∨
      ∃ t', t.open? (cs ++ ')' :: more) = some (t', rest ++ ')' :: more) ∧ Within P s' t' := by
  unfold State.open? at opened
  split at opened
  · cases opened
  · cases opened
  · cases opened
  · cases opened
  · exact h.enterNamed? opened more
  · next name notAhead notAheadNot =>
    rw [List.cons_append, List.cons_append, State.open?]
    · exact h.enterNamed? opened more
    · exact append_ne_cons notAhead (by decide) more
    · exact append_ne_cons notAheadNot (by decide) more
  · next inside notAhead notAheadNot notBehind notBehindNot notNamed notAngle =>
    rw [List.cons_append, State.open?]
    · split at opened
      · next letters after same =>
        obtain ⟨options, changed, same'⟩ := Option.bind_eq_some_iff.1 opened
        cases same'
        simp only [span_append same, h.options, changed]
        exact .inr ⟨_, rfl, h.enter options⟩
      · next letters x after notColon same =>
        simp only [span_append same, h.options]
        split at opened
        · cases opened
        · next some =>
          obtain ⟨options, changed, same'⟩ := Option.bind_eq_some_iff.1 opened
          cases same'
          rw [if_neg some, changed]
          exact .inr ⟨_, rfl, h.changeOptions options⟩
      · cases opened
    · exact append_ne_cons notAhead (by decide) more
    · exact append_ne_cons notAheadNot (by decide) more
    · exact append_ne_cons_cons notBehind (by decide) (by decide) more
    · exact append_ne_cons_cons notBehindNot (by decide) (by decide) more
    · exact append_ne_cons_cons notNamed (by decide) (by decide) more
    · exact append_ne_cons notAngle (by decide) more
  · next unmarked =>
    cases opened
    rw [State.open?]
    · exact .inr ⟨_, rfl, h.enterNumbered⟩
    all_goals exact fun _ => append_ne_cons unmarked (by decide) more _

/-- One step inside groups does the same as alone, or fails because of a name. -/
theorem step (h : Within P s t) (plain : s.options.verbose = false)
    (stepped : s.step? c cs = some (s', rest)) (more : List Char) :
    t.step? c (cs ++ ')' :: more) = none ∨
      ∃ t', t.step? c (cs ++ ')' :: more) = some (t', rest ++ ')' :: more) ∧ Within P s' t' := by
  unfold State.step? at stepped ⊢
  rw [h.options]
  dsimp only at stepped ⊢
  simp only [skipBlanks_plain plain] at stepped ⊢
  split at stepped
  · exact h.open? stepped more
  · obtain ⟨s', closed, same⟩ := Option.map_eq_some_iff.1 stepped
    cases same
    obtain ⟨t', closed', h'⟩ := h.close? closed
    rw [closed']
    exact .inr ⟨t', rfl, h'⟩
  · cases stepped
    exact .inr ⟨_, rfl, rfl, h.alternate.inner, h.outer⟩
  · obtain ⟨⟨set, after⟩, read, same⟩ := Option.map_eq_some_iff.1 stepped
    cases same
    rw [Bracket.start_append plain, Bracket.read?_local plain _ _ _ _ _ more read]
    exact .inr ⟨_, rfl, h.push _ _⟩
  · exact .inr (h.repeatMark stepped more)
  · exact .inr (h.repeatMark stepped more)
  · exact .inr (h.repeatMark stepped more)
  · obtain ⟨⟨⟨least, most⟩, after⟩, read, stepped⟩ := Option.bind_eq_some_iff.1 stepped
    obtain ⟨s', repeated, same⟩ := Option.bind_eq_some_iff.1 stepped
    cases same
    rw [bounds?_local plain _ _ _ more read, Option.bind_eq_bind, Option.bind_some, greed_append]
    obtain ⟨t', repeated', h'⟩ := h.repeat? repeated
    exact .inr ⟨t', Option.bind_eq_some_iff.2 ⟨t', repeated', rfl⟩, h'⟩
  · obtain ⟨⟨p, after⟩, read, same⟩ := Option.map_eq_some_iff.1 stepped
    cases same
    rw [escape?_local plain _ _ _ more read]
    exact .inr ⟨_, rfl, h.push _ _⟩
  all_goals
    cases stepped
    exact .inr ⟨_, rfl, h.push _ _⟩

/-- Reading a text inside groups does the same as alone, or fails because of a name. -/
theorem reads (h : Within P s t) (plain : s.options.verbose = false) (reads : Reads s cs s')
    (more : List Char) : t.read? (cs ++ ')' :: more) = none ∨
      ∃ t', t.read? (cs ++ ')' :: more) = t'.read? (')' :: more) ∧ Within P s' t' := by
  induction reads generalizing t with
  | nil => exact .inr ⟨t, rfl, h⟩
  | @cons s s' s'' c cs rest stepped shorter same _ ih =>
    have plain' := h.options ▸ plain
    rcases h.step plain stepped more with failed | ⟨t', stepped', h'⟩
    · exact .inl (read?_of_no_step plain' failed)
    · have shorter' : (rest ++ ')' :: more).length < (c :: (cs ++ ')' :: more)).length := by
        simp only [List.length_append, List.length_cons] at shorter ⊢
        omega
      rw [List.cons_append, read?_of_step plain' stepped' shorter']
      exact ih h' (same ▸ plain)

end Within

/-! ## The options outside -/

/-- The options outside of all groups. -/
def base (s : State) : Options := (s.outer.getLastD s.inner).outside

theorem base_eq (outer : s'.outer = s.outer) (inner : s'.inner.outside = s.inner.outside) :
    s'.base = s.base := by
  rw [base, base, outer]
  cases s.outer with
  | nil => exact inner
  | cons g gs => rfl

theorem base_of_enter (outer : s'.outer = s.inner :: s.outer) : s'.base = s.base := by
  rw [base, base, outer, List.getLastD_cons]

theorem base_of_close (closed : s.close? = some s') : s'.base = s.base := by
  unfold State.close? at closed
  split at closed
  · cases closed
  · next parent others around =>
    cases closed
    rw [base, base, around, List.getLastD_cons]
    cases others with
    | nil => rfl
    | cons g gs => rfl

theorem base_of_repeat {least : Nat} {most : Option Nat} {greedy : Bool}
    (repeated : s.repeat? least most greedy = some s') : s'.base = s.base := by
  obtain ⟨g, found, rfl⟩ := Option.map_eq_some_iff.1 repeated
  unfold Group.repeat? at found
  split at found
  · cases found
    exact base_eq rfl rfl
  · cases found

theorem base_of_enterNamed (entered : s.enterNamed? cs = some (s', rest)) : s'.base = s.base := by
  obtain ⟨named, _, entered⟩ := Option.bind_eq_some_iff.1 entered
  split at entered
  · cases entered
  · cases entered
    exact base_of_enter rfl

theorem base_of_open (opened : s.open? cs = some (s', rest)) : s'.base = s.base := by
  unfold State.open? at opened
  split at opened
  iterate 4 cases opened
  · exact base_of_enterNamed opened
  · exact base_of_enterNamed opened
  · split at opened
    · obtain ⟨inside, _, same⟩ := Option.bind_eq_some_iff.1 opened
      cases same
      exact base_of_enter rfl
    · split at opened
      · cases opened
      · obtain ⟨options, _, same⟩ := Option.bind_eq_some_iff.1 opened
        cases same
        exact base_eq rfl rfl
    · cases opened
  · cases opened
    exact base_of_enter rfl

/-- No step changes the options outside of all groups. -/
theorem base_of_step (stepped : s.step? c cs = some (s', rest)) : s'.base = s.base := by
  unfold State.step? at stepped
  dsimp only at stepped
  split at stepped
  · exact base_of_open stepped
  · obtain ⟨s', closed, same⟩ := Option.map_eq_some_iff.1 stepped
    cases same
    exact base_of_close closed
  · cases stepped
    exact base_eq rfl rfl
  · obtain ⟨read, _, same⟩ := Option.map_eq_some_iff.1 stepped
    cases same
    exact base_eq rfl rfl
  iterate 3
    obtain ⟨s', repeated, same⟩ := Option.map_eq_some_iff.1 stepped
    cases same
    exact base_of_repeat repeated
  · obtain ⟨bounds, _, stepped⟩ := Option.bind_eq_some_iff.1 stepped
    obtain ⟨s', repeated, same⟩ := Option.bind_eq_some_iff.1 stepped
    cases same
    exact base_of_repeat repeated
  · obtain ⟨read, _, same⟩ := Option.map_eq_some_iff.1 stepped
    cases same
    exact base_eq rfl rfl
  all_goals
    cases stepped
    exact base_eq rfl rfl

theorem Reads.base (reads : Reads s cs s') : s'.base = s.base := by
  induction reads with
  | nil => rfl
  | cons stepped _ _ _ ih => exact ih.trans (base_of_step stepped)

theorem Reads.options (reads : Reads s cs s') : s'.options = s.options := by
  induction reads with
  | nil => rfl
  | cons _ _ same _ ih => exact ih.trans same

/-- What is read by steps is read. -/
theorem Reads.read? (plain : s.options.verbose = false) (reads : Reads s cs s')
    (closed : s'.outer = []) : s.read? cs = some s'.inner.chosen := by
  induction reads with
  | nil =>
    rw [State.read?.eq_def, skipBlanks_plain plain, closed]
    rfl
  | cons stepped shorter same _ ih =>
    rw [read?_of_step plain stepped shorter]
    exact ih (same ▸ plain) closed

end State

/-- The text on its own, with a dot standing for any character, is an expression without changes of
options and without tests of places. -/
def Expresses (known : Properties) (text : String) (r : Regex) : Prop :=
  ∃ s, (State.dotted known).Reads text.toList s ∧ s.outer = [] ∧ s.inner.chosen.value = r ∧
    r.AnchorFree

theorem Expresses.unique {known : Properties} {text : String} {r r' : Regex}
    (h : Expresses known text r) (h' : Expresses known text r') : r = r' := by
  obtain ⟨s, reads, closed, rfl, _⟩ := h
  obtain ⟨s', reads', closed', rfl, _⟩ := h'
  have same := (reads.read? rfl closed).symm.trans (reads'.read? rfl closed')
  rw [Option.some.inj same]

/-! ## Sets by property -/

/-- A property in braces is read as the set that it names, if it is known. -/
theorem propertySet?_braces {o : Options} (plain : o.verbose = false) {name : List Char}
    (unclosed : '\x7d' ∉ name) {set : CharSet}
    (found : o.properties (.named (String.ofList name)) = some set) (others : Bool)
    (more : List Char) :
    propertySet? o others ('\x7b' :: (name ++ '\x7d' :: more)) =
      some (o.members others set, more) := by
  have span : (name ++ '\x7d' :: more).span (· != '\x7d') = (name, '\x7d' :: more) := by
    have inside : ∀ c ∈ name, (c != '\x7d') = true := by
      intro c mem
      exact bne_iff_ne.2 fun same => unclosed (same ▸ mem)
    rw [List.span_eq_takeWhile_dropWhile, List.takeWhile_append_of_pos inside,
      List.dropWhile_append_of_pos inside]
    simp
  have read : property? o ('\x7b' :: (name ++ '\x7d' :: more)) =
      some (.named (String.ofList name), more) := by
    simp only [property?, skipBlanks_plain plain, spanVisible_eq_span plain (Nat.lt_succ_self _), span]
  rw [propertySet?, read]
  simp only [Option.bind_eq_bind, Option.bind_some, found]
  rfl

/-- The sign of a set by property, or of the characters outside of it. -/
def propertySign (others : Bool) : Char := if others then 'P' else 'p'

/-- Outside of brackets, a known property in braces adds its set to the sequence. -/
theorem State.step?_property {s : State} (plain : s.options.verbose = false) {name : List Char}
    (unclosed : '\x7d' ∉ name) {set : CharSet}
    (found : s.options.properties (.named (String.ofList name)) = some set) (others : Bool)
    (more : List Char) :
    s.step? '\\' (propertySign others :: '\x7b' :: (name ++ '\x7d' :: more)) =
      some (s.push (one (s.options.members others set)) 0, more) := by
  have read := propertySet?_braces plain unclosed found others more
  change (escape? s.options _).map _ = _
  cases others with
  | false =>
    change ((propertySet? s.options false _).map _).map _ = _
    rw [read]
    rfl
  | true =>
    change ((propertySet? s.options true _).map _).map _ = _
    rw [read]
    rfl

/-- A known property in braces is an expression: that of its characters, or of the others. -/
theorem expresses_property {known : Properties} {name : List Char} (unclosed : '\x7d' ∉ name)
    {set : CharSet} (found : known (.named (String.ofList name)) = some set) (others : Bool) :
    Expresses known (String.ofList ('\\' :: propertySign others :: '\x7b' :: (name ++ ['\x7d'])))
      (sequence [one (if others then set.complement else set)]) := by
  have step := State.step?_property (s := .dotted known) rfl unclosed found others []
  have shorter : 0 < (name ++ ['\x7d']).length + 3 := Nat.succ_pos _
  have reads := State.Reads.cons step shorter rfl .nil
  rw [← @String.toList_ofList (_ :: _)] at reads
  exact ⟨_, reads, rfl, rfl, trivial, trivial⟩

end QuadIndex.Regex
