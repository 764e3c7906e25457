import QuadIndex.Proofs.Path.KeyExpression
import QuadIndex.Proofs.Regex.Compiled

/-!
# Expressions of one text, and of one marker

The text of each character in turn is an expression that matches one text only
(`accepts_verbatim_iff`). With it for the subject, or a marker for the object, an expression over keys
is compiled (`exists_compile`): it has few levels, and the room of its program grows with the text.
-/

namespace QuadIndex.KeyExpression

open Regex Regex.Program

/-- The expression of a text. -/
def verbatim (s : String) : String := String.join (s.toList.map escape)

/-- The expressions of characters one after another. -/
def characters (cs : List Char) : List (Nested Regex) := cs.map fun c => ⟨one (.singleton c), 0⟩

variable {known : Properties} {cs : List Char} {anything : String} {n : Nat}

theorem toList_verbatim (s : String) :
    (verbatim s).toList = s.toList.flatMap fun c => (escape c).toList := by
  rw [verbatim, String.toList_join, List.flatMap_map]

theorem adds_characters (cs : List Char) :
    Adds (cs.flatMap fun c => (escape c).toList) (characters cs) := by
  induction cs with
  | nil => exact fun _ t more _ _ => rfl
  | cons c cs ih => exact (pushes_escape c).adds_cons ih

theorem reads_characters (cs : List Char) {t : State} (options : t.options = .dotted known) :
    t.Reads (cs.flatMap fun c => (escape c).toList) (t.pushAll (characters cs)) := by
  induction cs generalizing t with
  | nil => exact .nil
  | cons c cs ih => exact (pushes_escape c).reads_cons options (ih options)

theorem anchorFree_characters (cs : List Char) :
    (sequence ((characters cs).map (·.value))).AnchorFree := by
  refine anchorFree_sequence.2 fun r mem => ?_
  obtain ⟨_, within, rfl⟩ := List.mem_map.1 mem
  obtain ⟨c, _, rfl⟩ := List.mem_map.1 within
  trivial

theorem language_characters (cs : List Char) :
    (sequence ((characters cs).map (·.value))).language = {cs} := by
  induction cs with
  | nil => rfl
  | cons c cs ih =>
    change (one (.singleton c)).language * _ = _
    rw [language_singleton]
    change {[c]} * (sequence ((characters cs).map (·.value))).language = _
    rw [ih]
    exact Set.image2_singleton

theorem expresses_verbatim (s : String) :
    Expresses known (verbatim s) (sequence ((characters s.toList).map (·.value))) := by
  refine ⟨_, toList_verbatim s ▸ reads_characters s.toList rfl, ?_, ?_, anchorFree_characters _⟩
  · rw [State.pushAll_eq]
    rfl
  · rw [State.pushAll_eq, Group.chosen_of_single rfl]
    change sequence ((((characters s.toList).map Part.expression).reverse ++ []).reverse.filterMap
      Part.expression?) = _
    rw [List.append_nil, List.reverse_reverse, filterMap_expressions]

/-- The expression of a text matches that text and no other. -/
theorem accepts_verbatim_iff {s : String} {bs : Bytes} :
    Accepts known (verbatim s) bs ↔ bs = Text.utf8 s := by
  constructor
  · rintro ⟨r, t, expressed, rfl, mem⟩
    obtain rfl := expressed.unique (expresses_verbatim s)
    rw [language_characters] at mem
    rw [String.toList_inj.1 (Set.mem_singleton_iff.1 mem)]
  · rintro rfl
    refine ⟨_, s, expresses_verbatim s, rfl, ?_⟩
    rw [language_characters]
    rfl

/-! ## Room -/

theorem costsAll_characters (cs : List Char) :
    CostsAll ((characters cs).map (·.value)) (36 * (Text.spell cs).length) := by
  induction cs with
  | nil => exact .nil
  | cons c cs ih =>
    refine (CostsAll.cons (Costs.singleton c) ih).mono ?_
    have some := c.utf8Size_pos
    rw [Text.spell_cons, List.length_append, String.length_utf8EncodeChar]
    omega

/-- The expression of a text in parentheses is compiled. -/
theorem builds_verbatim (s : String) :
    Builds ("(?:".toList ++ ((verbatim s).toList ++ [')'])) (36 * (Text.utf8 s).length + 36) := by
  rw [toList_verbatim, Text.utf8_eq_spell]
  obtain ⟨k, few, adds⟩ := (adds_characters s.toList).enclosed (n := 0) fun k mem => by
    obtain ⟨c, _, rfl⟩ := List.mem_map.1 mem
    exact Nat.le_refl 0
  exact .of_adds (by simp) adds (anchorFree_characters _) (Nat.le_trans few (by decide))
    (costsAll_characters _).sequence.group

theorem builds_escape (c : Char) : Builds (escape c).toList 132 := by
  have short := c.utf8Size_le_four
  exact .of_adds (begins_escape c) (pushes_escape c).adds trivial (Nat.zero_le _)
    ((Costs.singleton c).mono (by omega))

/-- What is asked of a component by its text, or nothing, is compiled. -/
theorem builds_group (any : Builds anything.toList n) (text? : Option String) :
    Builds (group anything (text?.map verbatim)).toList
      (n + 36 * (text?.elim 0 fun s => (Text.utf8 s).length) + 36) := by
  cases text? with
  | none => exact any.mono (by simp only [Option.elim_none]; omega)
  | some s =>
    have text : (group anything (some (verbatim s))).toList =
        "(?:".toList ++ ((verbatim s).toList ++ [')']) := by
      simp [group]
    rw [Option.map_some, text]
    exact (builds_verbatim s).mono (by simp only [Option.elim_some]; omega)

/-- The bytes of the text that is asked for at a position. -/
def share (subject : Option String) (i : Position) : Nat :=
  if i = .subject then subject.elim 0 fun s => (Text.utf8 s).length else 0

theorem builds_component (any : Builds anything.toList n) (subject : Option String)
    (marker : Option UInt8) (i : Position) :
    Builds (component { subject := subject.map verbatim, marker } anything i).toList
      (n + 36 * share subject i + 132) := by
  cases i with
  | subject => exact (builds_group any subject).mono (by simp [share])
  | predicate => exact any.mono (by omega)
  | object =>
    cases marker with
    | none =>
      have text : component { subject := subject.map verbatim } anything .object = anything := by
        simp [component, group]
      rw [text]
      exact any.mono (by omega)
    | some m =>
      have text : component { subject := subject.map verbatim, marker := some m } anything .object =
          escape (Char.ofNat m.toNat) ++ anything := rfl
      rw [text, String.toList_append]
      exact ((builds_escape _).append any).mono (by omega)

theorem builds_leading (hashed : Bool) {e : List Char} (h : Builds e n) :
    Builds (leading hashed ++ e) (n + 10628) := by
  cases hashed with
  | false => exact h.mono (Nat.le_add_right _ _)
  | true => exact (builds_digits.append h).mono (by omega)

theorem builds_text (subject : Option String) (marker : Option UInt8) (f : RowForm) :
    Builds (Parts.text { subject := subject.map verbatim, marker } f)
      (36 * share subject .subject + 30000) := by
  have inner : Builds "[^\\x00]*".toList 2248 := builds_other (k := 0) rfl (by decide) (by decide)
  have last : Builds "[^\\x01]*".toList 2248 := builds_other (k := 1) rfl (by decide) (by decide)
  have nul : Builds ['\\', 'x', '0', '0'] 132 := builds_hex (k := 0) rfl (by decide)
  have heading : Builds ['\\', 'x', '0', '1'] 132 := builds_hex (k := 1) rfl (by decide)
  have component {anything : String} (any : Builds anything.toList 2248) (i : Position) :=
    builds_component any subject marker i
  -- the subject stands at one place of the three
  have once : share subject f.layout.order.1 + share subject f.layout.order.2.1 +
      share subject f.layout.order.2.2 = share subject .subject := by
    cases f.layout <;> simp [Layout.order, share]
  exact ((builds_leading f.hashed (component inner _)).append (nul.append
    ((component inner _).append (nul.append ((component last _).append (heading.append
    (last.append (heading.append builds_rest)))))))).mono (by omega)

/-- With the text of a subject and a marker, an expression over keys is compiled, unless the text is
longer than programs can be. -/
theorem exists_compile (subject : Option String) (marker : Option UInt8) {f : RowForm}
    {e : KeyExpression} (made : ofParts? f { subject := subject.map verbatim, marker } = some e)
    (short : ∀ s ∈ subject, (Text.utf8 s).length ≤ 2 ^ 18) : ∃ r, e.compile known = .ok r := by
  have limit : Draft.roomLimit = 10485760 := rfl
  have size : share subject .subject ≤ 2 ^ 18 := by
    cases subject with
    | none => exact Nat.zero_le _
    | some s => exact short s rfl
  obtain ⟨r, read⟩ := (builds_text subject marker f).exists_ofText? (by omega)
    (ofParts?_eq_some made).2
  exact ⟨r, by rw [compile, read]⟩

end QuadIndex.KeyExpression
