import Mathlib.Data.List.TakeDrop
import Mathlib.Data.List.TakeWhile
import QuadIndex.Regex.Reader

/-!
# What is read before a closing parenthesis

Where blanks are not skipped, whatever reads a symbol of the notation from a text reads the same
from that text and a closing parenthesis after it: the parenthesis ends counts, names and runs of
hyphens, and it is no digit and no mark of an operation.
-/

namespace QuadIndex.Regex

variable {α β : Type} {o : Options} {cs rest more : List Char}

/-- What is read from a text is also read where a closing parenthesis follows the text. -/
def Local (f : List Char → Option (α × List Char)) : Prop :=
  ∀ cs a rest more, f cs = some (a, rest) → f (cs ++ ')' :: more) = some (a, rest ++ ')' :: more)

theorem Local.map {f : List Char → Option (α × List Char)} (h : Local f) (g : α → β) :
    Local fun cs => (f cs).map fun p => (g p.1, p.2) := by
  intro cs b rest more read
  obtain ⟨⟨a, rest⟩, found, same⟩ := Option.map_eq_some_iff.1 read
  cases same
  exact Option.map_eq_some_iff.2 ⟨_, h cs a rest more found, rfl⟩

/-- A closing parenthesis does not make a text begin with another character. -/
theorem append_ne_cons {c : Char} (other : ∀ after, cs = c :: after → False) (apart : ')' ≠ c)
    (more after : List Char) : cs ++ ')' :: more = c :: after → False := by
  intro same
  cases cs with
  | nil => exact apart (List.cons.inj same).1
  | cons d cs => exact other cs (congrArg (· :: cs) (List.cons.inj same).1)

theorem append_ne_cons_cons {c d : Char} (other : ∀ after, cs = c :: d :: after → False)
    (apart : ')' ≠ c) (apart' : ')' ≠ d) (more after : List Char) :
    cs ++ ')' :: more = c :: d :: after → False := by
  intro same
  cases cs with
  | nil => exact apart (List.cons.inj same).1
  | cons e cs =>
    obtain ⟨rfl, later⟩ := List.cons.inj same
    exact append_ne_cons (fun after same => other after (congrArg (e :: ·) same)) apart' _ _ later

theorem skipBlanks_plain (plain : o.verbose = false) (cs : List Char) : skipBlanks o cs = cs := by
  rw [skipBlanks, plain, if_neg Bool.false_ne_true]

/-! ## Spans -/

section

variable {test : Char → Bool}

/-- A span that ends before the end of the text does not depend on what follows. -/
theorem span_append {taken : List Char} {x : Char} (h : cs.span test = (taken, x :: rest))
    (more : List Char) : (cs ++ more).span test = (taken, x :: (rest ++ more)) := by
  simp only [List.span_eq_takeWhile_dropWhile, Prod.mk.injEq] at h ⊢
  induction cs generalizing taken with
  | nil => cases h.2
  | cons c cs ih =>
    cases passes : test c with
    | false =>
      simp only [List.takeWhile_cons, List.dropWhile_cons, passes] at h
      simp_all
    | true =>
      simp only [List.takeWhile_cons, List.dropWhile_cons, passes, if_true] at h
      obtain ⟨rfl, later⟩ := h
      simp [passes, ih ⟨rfl, later⟩]

/-- A span ends before what fails the test. -/
theorem span_append_cons {c : Char} (fails : test c = false) (cs more : List Char) :
    (cs ++ c :: more).span test = ((cs.span test).1, (cs.span test).2 ++ c :: more) := by
  simp only [List.span_eq_takeWhile_dropWhile]
  induction cs with
  | nil => simp [fails]
  | cons d cs ih =>
    obtain ⟨taken, later⟩ := Prod.mk.inj ih
    cases passes : test d <;> simp [passes, taken, later]

theorem spanVisible_eq_span (plain : o.verbose = false) {fuel : Nat} (enough : cs.length < fuel) :
    spanVisible o test fuel cs = cs.span test := by
  induction fuel generalizing cs with
  | zero => cases enough
  | succ fuel ih =>
    rw [spanVisible, skipBlanks_plain plain]
    cases cs with
    | nil => rfl
    | cons c cs =>
      have inner := ih (Nat.lt_of_succ_lt_succ enough)
      simp only [inner, List.span_eq_takeWhile_dropWhile]
      cases passes : test c <;> simp [passes]

end

section

variable (plain : o.verbose = false)

include plain

theorem hexDigits?_local (count n : Nat) : Local (hexDigits? o count n) := by
  intro cs k rest more h
  induction count generalizing n cs with
  | zero =>
    cases h
    rfl
  | succ count ih =>
    rw [hexDigits?, skipBlanks_plain plain] at h ⊢
    cases cs with
    | nil => cases h
    | cons c cs =>
      obtain ⟨d, digit, h⟩ := Option.bind_eq_some_iff.1 h
      exact Option.bind_eq_some_iff.2 ⟨d, digit, ih _ _ h⟩

theorem hexInBraces?_append {fuel fuel' : Nat} (enough : fuel ≤ fuel') {n : Option Nat} {k : Nat}
    (h : hexInBraces? o fuel n cs = some (k, rest)) (more : List Char) :
    hexInBraces? o fuel' n (cs ++ more) = some (k, rest ++ more) := by
  induction fuel generalizing fuel' n cs with
  | zero => cases h
  | succ fuel ih =>
    obtain ⟨fuel', rfl⟩ := Nat.exists_eq_add_of_le' enough
    rw [hexInBraces?, skipBlanks_plain plain] at h
    rw [← Nat.add_assoc, hexInBraces?, skipBlanks_plain plain]
    split at h
    · obtain ⟨m, rfl, same⟩ := Option.map_eq_some_iff.1 h
      cases same
      rfl
    · next c cs other =>
      obtain ⟨d, digit, h⟩ := Option.bind_eq_some_iff.1 h
      rw [List.cons_append]
      split
      · next same => exact (other (List.cons.inj same).1).elim
      · next same =>
        cases same
        exact Option.bind_eq_some_iff.2 ⟨d, digit, ih (Nat.le_of_succ_le_succ enough) h⟩
      · next same => cases same
    · cases h

theorem codePoint?_local (count : Nat) : Local (codePoint? o (count + 1)) := by
  intro cs c rest more h
  simp only [codePoint?, skipBlanks_plain plain, Option.bind_eq_bind] at h ⊢
  split at h
  · next inside =>
    obtain ⟨⟨n, rest⟩, read, h⟩ := Option.bind_eq_some_iff.1 h
    obtain ⟨c, valid, same⟩ := Option.bind_eq_some_iff.1 h
    cases same
    have longer : inside.length + 1 ≤ (inside ++ ')' :: more).length + 1 := by simp
    refine Option.bind_eq_some_iff.2 ⟨_, hexInBraces?_append plain longer read _, ?_⟩
    exact Option.bind_eq_some_iff.2 ⟨c, valid, rfl⟩
  · next other =>
    obtain ⟨⟨n, rest⟩, read, h⟩ := Option.bind_eq_some_iff.1 h
    obtain ⟨c, valid, same⟩ := Option.bind_eq_some_iff.1 h
    cases same
    split
    · next same => exact (append_ne_cons other (by decide) _ _ same).elim
    · refine Option.bind_eq_some_iff.2 ⟨_, hexDigits?_local plain _ _ _ _ _ more read, ?_⟩
      exact Option.bind_eq_some_iff.2 ⟨c, valid, rfl⟩

theorem edge?_local : Local (edge? o) := by
  intro cs a rest more h
  rw [edge?.eq_def] at h
  split at h
  · next inside =>
    rw [spanVisible_eq_span plain (Nat.lt_succ_self _)] at h
    have read : ∀ {name x after},
        inside.span (fun c => c.isAlpha || c == '-') = (name, x :: after) →
        spanVisible o (fun c => c.isAlpha || c == '-') ((inside ++ ')' :: more).length + 1)
          (inside ++ ')' :: more) = (name, x :: (after ++ ')' :: more)) := fun same =>
      (spanVisible_eq_span plain (Nat.lt_succ_self _)).trans (span_append same _)
    rw [List.cons_append, edge?]
    split at h
    · cases h
    · next after some none =>
      cases h
      cases after with
      | nil => exact (some rfl).elim
      | cons x after =>
        rw [read none]
        rfl
    · next name after some same =>
      rw [read same]
      cases name with
      | nil => exact (some rfl).elim
      | cons x name =>
        -- one case for each name of a place
        split at h
        iterate 4
          next named =>
            cases h
            simp only [named]
        · cases h
    · cases h
  · next other =>
    cases h
    rw [edge?]
    exact append_ne_cons other (by decide) more

theorem property?_local : Local (property? o) := by
  intro cs a rest more h
  simp only [property?, skipBlanks_plain plain] at h ⊢
  split at h
  · next inside =>
    rw [spanVisible_eq_span plain (Nat.lt_succ_self _)] at h
    split at h
    · next text x after same =>
      cases h
      rw [List.cons_append]
      simp only [spanVisible_eq_span plain (Nat.lt_succ_self _), span_append same]
    · cases h
  · cases h
  · next c after notBrace notBackslash =>
    cases h
    rw [List.cons_append]
    split
    · next same => exact (notBrace (List.cons.inj same).1).elim
    · next same => exact (notBackslash (List.cons.inj same).1).elim
    · next same =>
      cases same
      rfl
    · next same => cases same
  · cases h

theorem propertySet?_local (others : Bool) : Local (propertySet? o others) := by
  intro cs s rest more h
  obtain ⟨⟨property, after⟩, read, h⟩ := Option.bind_eq_some_iff.1 h
  obtain ⟨set, known, same⟩ := Option.bind_eq_some_iff.1 h
  cases same
  refine Option.bind_eq_some_iff.2 ⟨_, property?_local plain _ _ _ more read, ?_⟩
  exact Option.bind_eq_some_iff.2 ⟨set, known, rfl⟩

theorem escape?_local : Local (escape? o) := by
  intro cs p rest more h
  cases cs with
  | nil => cases h
  | cons c cs =>
    rw [List.cons_append]
    unfold escape? at h ⊢
    dsimp only at h ⊢
    split at h
    · exact Local.map (codePoint?_local plain 1) Primitive.literal _ _ _ more h
    · exact Local.map (codePoint?_local plain 3) Primitive.literal _ _ _ more h
    · exact Local.map (codePoint?_local plain 7) Primitive.literal _ _ _ more h
    · exact Local.map (propertySet?_local plain false) Primitive.set _ _ _ more h
    · exact Local.map (propertySet?_local plain true) Primitive.set _ _ _ more h
    all_goals try
      cases h
      rfl
    · exact Local.map (edge?_local plain) Primitive.anchor _ _ _ more h
    · split at h
      · next ascii =>
        cases h
        exact if_pos ascii
      · cases h

/-! ## Repetitions and groups -/

omit plain in
theorem greed_append (cs more : List Char) :
    greed o (cs ++ ')' :: more) = ((greed o cs).1, (greed o cs).2 ++ ')' :: more) := by
  rw [greed.eq_def o cs]
  split
  · rfl
  · next other =>
    rw [greed]
    exact append_ne_cons other (by decide) more

theorem count?_append (cs more : List Char) :
    count? o (cs ++ ')' :: more) = ((count? o cs).1, (count? o cs).2 ++ ')' :: more) := by
  have dropped (cs : List Char) : (cs ++ ')' :: more).dropWhile CharSet.blank.contains =
      cs.dropWhile CharSet.blank.contains ++ ')' :: more := by
    have mark : CharSet.blank.contains ')' = false := by
      simp [CharSet.contains, CharSet.blank, CharSet.blankRanges]
    have spans := congrArg Prod.snd (span_append_cons mark cs more)
    simpa only [List.span_eq_takeWhile_dropWhile] using spans
  simp only [count?, dropped, spanVisible_eq_span plain (Nat.lt_succ_self _),
    @span_append_cons Char.isDigit ')' rfl]

theorem bounds?_local : Local (bounds? o) := by
  intro cs a rest more h
  simp only [bounds?, skipBlanks_plain plain, count?_append plain, Option.bind_eq_bind] at h ⊢
  obtain ⟨least, counted, h⟩ := Option.bind_eq_some_iff.1 h
  rw [counted, Option.bind_some]
  split at h
  · next first =>
    cases h
    rw [first]
    rfl
  · next after first =>
    simp only [first, List.cons_append]
    split at h
    · cases h
      rfl
    · next other =>
      split at h
      · next most after counted =>
        split
        · next same => exact (append_ne_cons other (by decide) _ _ same).elim
        · rw [count?_append plain, counted]
          dsimp only [List.cons_append]
          split at h
          · next ordered =>
            cases h
            exact if_pos ordered
          · cases h
      · cases h
  · cases h

omit plain in
theorem groupName?_local : Local groupName? := by
  intro cs name rest more h
  unfold groupName? at h ⊢
  split at h
  · next c name' x after same =>
    rw [span_append same]
    dsimp only at h ⊢
    split at h
    · next named =>
      cases h
      exact if_pos named
    · cases h
  · cases h

/-! ## Brackets -/

namespace Bracket

theorem hyphens_eq {fuel : Nat} (enough : cs.length ≤ fuel) (b : Bracket) :
    leading.hyphens o fuel b cs =
      ((cs.span (· == '-')).1.foldl addChar b, (cs.span (· == '-')).2) := by
  simp only [List.span_eq_takeWhile_dropWhile]
  induction cs generalizing fuel b with
  | nil => cases fuel <;> rfl
  | cons c cs ih =>
    obtain ⟨fuel, rfl⟩ := Nat.exists_eq_add_of_le' enough
    rw [List.length_cons, ← Nat.add_assoc]
    by_cases hyphen : c = '-'
    · subst hyphen
      rw [leading.hyphens, skipBlanks_plain plain, ih (Nat.le_add_left _ _)]
      rfl
    · rw [leading.hyphens]
      · simp [hyphen]
      · rintro _ _ _ same
        exact hyphen (List.cons.inj same).1

theorem leading_append (b : Bracket) (cs more : List Char) :
    b.leading o (cs ++ ')' :: more) = ((b.leading o cs).1, (b.leading o cs).2 ++ ')' :: more) := by
  simp only [leading, hyphens_eq plain (Nat.le_refl _), @span_append_cons (· == '-') ')' rfl,
    skipBlanks_plain plain]
  split
  · by_cases closing : ∃ after, cs = ']' :: after
    · obtain ⟨after, rfl⟩ := closing
      rfl
    · have other : ∀ after, cs = ']' :: after → False := fun after same => closing ⟨after, same⟩
      split
      · next same => exact (append_ne_cons other (by decide) _ _ same).elim
      · rfl
  · rfl

theorem start_append (cs more : List Char) :
    start o (cs ++ ')' :: more) = ((start o cs).1, (start o cs).2 ++ ')' :: more) := by
  rw [start.eq_def o cs, start.eq_def o (cs ++ ')' :: more)]
  simp only [skipBlanks_plain plain]
  by_cases negated : ∃ after, cs = '^' :: after
  · obtain ⟨after, rfl⟩ := negated
    exact leading_append plain _ after more
  · have other : ∀ after, cs = '^' :: after → False := fun after same => negated ⟨after, same⟩
    split
    · next same => exact (append_ne_cons other (by decide) _ _ same).elim
    · exact leading_append plain _ cs more

omit plain in
/-- Names of sets hold no parenthesis. -/
theorem named?_of_mem {name : List Char} (mem : ')' ∈ name) :
    CharSet.named? (String.ofList name) = none := by
  have apart {s : String} (same : String.ofList name = s) : ')' ∈ s.toList := by
    rw [← same, String.toList_ofList]
    exact mem
  unfold CharSet.named?
  split
  all_goals first
    | rfl
    | next same => exact absurd (apart same) (by decide)

omit plain in
/-- A colon and a bracket that end a name come before a parenthesis, or else the name holds it. -/
theorem span_name (cs more : List Char) :
    (∃ name after, cs.span (· != ':') = (name, ':' :: ']' :: after) ∧
      (cs ++ ')' :: more).span (· != ':') = (name, ':' :: ']' :: (after ++ ')' :: more))) ∨
    (∀ name after, cs.span (· != ':') ≠ (name, ':' :: ']' :: after)) ∧
      ∀ name after, (cs ++ ')' :: more).span (· != ':') = (name, ':' :: ']' :: after) →
        ')' ∈ name := by
  rcases whole : cs.span (· != ':') with ⟨name, _ | ⟨x, after⟩⟩
  · refine .inr ⟨fun name' after same => ?_, fun name' after same => ?_⟩
    · cases same
    · rw [List.span_eq_takeWhile_dropWhile, Prod.mk.injEq] at whole
      have all := List.dropWhile_eq_nil_iff.1 whole.2
      rw [List.span_eq_takeWhile_dropWhile, List.takeWhile_append_of_pos all] at same
      rw [← (Prod.mk.inj same).1]
      simp
  · have longer := span_append whole (')' :: more)
    by_cases named : x = ':' ∧ after.head? = some ']'
    · obtain ⟨rfl, first⟩ := named
      obtain ⟨after, rfl⟩ := List.head?_eq_some_iff.1 first
      exact .inl ⟨name, after, rfl, longer⟩
    · refine .inr ⟨fun name' after' same => ?_, fun name' after' same => ?_⟩
      · cases same
        exact named ⟨rfl, rfl⟩
      · obtain ⟨rfl, rest⟩ := Prod.mk.inj (longer.symm.trans same)
        obtain ⟨rfl, rest⟩ := List.cons.inj rest
        cases after with
        | nil => cases rest
        | cons y after =>
          cases rest
          exact (named ⟨rfl, rfl⟩).elim

omit plain in
theorem named?_append (cs more : List Char) :
    named? o (cs ++ ')' :: more) = (named? o cs).map fun p => (p.1, p.2 ++ ')' :: more) := by
  by_cases colon : ∃ after, cs = ':' :: after
  · obtain ⟨after, rfl⟩ := colon
    by_cases negated : ∃ inside, after = '^' :: inside
    · obtain ⟨inside, rfl⟩ := negated
      rw [List.cons_append, List.cons_append, named?, named?]
      rcases span_name inside more with ⟨name, after, short, long⟩ | ⟨short, long⟩
      · rw [short, long]
        simp only [Option.map_map, Function.comp_def]
      · split
        · next same =>
          rw [named?_of_mem (long _ _ same), Option.map_none]
          split
          · next same => exact (short _ _ same).elim
          · rfl
        · rfl
    · have other : ∀ inside, after = '^' :: inside → False :=
        fun inside same => negated ⟨inside, same⟩
      rw [List.cons_append, named?, named?]
      · rcases span_name after more with ⟨name, rest, short, long⟩ | ⟨short, long⟩
        · rw [short, long]
          simp only [Option.map_map, Function.comp_def]
        · split
          · next same =>
            rw [named?_of_mem (long _ _ same), Option.map_none]
            split
            · next same => exact (short _ _ same).elim
            · rfl
          · rfl
      · exact other
      · exact append_ne_cons other (by decide) more
  · have other : ∀ after, cs = ':' :: after → False := fun after same => colon ⟨after, same⟩
    rw [named?, named?]
    · rfl
    · exact other
    · exact append_ne_cons other (by decide) more

theorem primitive?_local : Local (primitive? o) := by
  intro cs p rest more h
  rw [primitive?.eq_def] at h
  split at h
  · exact escape?_local plain _ _ _ more h
  · next other =>
    cases h
    rw [List.cons_append, primitive?]
    exact other
  · cases h

theorem item?_local : Local (item? o) := by
  intro cs p rest more h
  simp only [item?, skipBlanks_plain plain, Option.bind_eq_bind] at h ⊢
  obtain ⟨⟨first, after⟩, read, h⟩ := Option.bind_eq_some_iff.1 h
  rw [primitive?_local plain _ _ _ more read, Option.bind_some]
  cases after with
  | nil => cases h
  | cons c after =>
    by_cases hyphen : c = '-'
    · subst hyphen
      cases after with
      | nil => cases h
      | cons d after =>
        simp only [List.cons_append] at h ⊢
        have same : (d :: (after ++ ')' :: more)).head? = (d :: after).head? := rfl
        rw [same]
        split at h
        · next alone =>
          rw [if_pos alone]
          cases first <;> cases h <;> rfl
        · next range =>
          rw [if_neg range]
          obtain ⟨⟨second, after⟩, read', h⟩ := Option.bind_eq_some_iff.1 h
          have further := primitive?_local plain _ _ _ more read'
          rw [List.cons_append] at further
          rw [further, Option.bind_some]
          dsimp only at h ⊢
          split at h
          · split at h
            · next ordered =>
              cases h
              exact if_pos ordered
            · cases h
          · cases h
    · simp only [List.cons_append] at h ⊢
      split at h
      · next none => cases none
      · next same => exact (hyphen (List.cons.inj same).1).elim
      · split
        · next none => cases none
        · next same => exact (hyphen (List.cons.inj same).1).elim
        · cases first <;> cases h <;> rfl

theorem step?_local (inner : Bracket) (outer : List Bracket) : Local (step? o inner outer) := by
  intro cs p rest more h
  rw [step?.eq_def] at h
  split at h
  · cases h
  · next after =>
    rw [List.cons_append, step?, named?_append]
    cases named : named? o after with
    | some named =>
      rw [named] at h
      cases h
      rfl
    | none =>
      rw [named] at h
      cases h
      rw [Option.map_none, start_append plain]
      rfl
  · next after =>
    rw [List.cons_append]
    cases outer with
    | nil =>
      cases h
      rfl
    | cons parent outer =>
      cases h
      rfl
  · cases h
    rfl
  · cases h
    rfl
  · cases h
    rfl
  · next notEmpty notOpen notClose notAnd notMinus notTilde =>
    obtain ⟨⟨s, after⟩, read, h⟩ := Option.bind_eq_some_iff.1 h
    cases h
    rw [step?, item?_local plain _ _ _ more read]
    · rfl
    · simp
    · exact append_ne_cons notOpen (by decide) more
    · exact append_ne_cons notClose (by decide) more
    · exact append_ne_cons_cons notAnd (by decide) (by decide) more
    · exact append_ne_cons_cons notMinus (by decide) (by decide) more
    · exact append_ne_cons_cons notTilde (by decide) (by decide) more

theorem read?_local (inner : Bracket) (outer : List Bracket) : Local (read? o inner outer) := by
  intro cs s rest more h
  fun_induction read? o inner outer cs with
  | case1 => cases h
  | case2 inner outer cs s' after stepped =>
    cases h
    rw [skipBlanks_plain plain] at stepped
    rw [read?, skipBlanks_plain plain, step?_local plain _ _ _ _ _ more stepped]
  | case3 inner outer cs inner' outer' after stepped shorter ih =>
    rw [skipBlanks_plain plain] at stepped
    rw [read?, skipBlanks_plain plain, step?_local plain _ _ _ _ _ more stepped]
    have shorter' : (after ++ ')' :: more).length < (cs ++ ')' :: more).length := by
      simpa using shorter
    exact (if_pos shorter').trans (ih h)
  | case4 => cases h

end Bracket

end

end QuadIndex.Regex
