import QuadIndex.Model.Pattern
import QuadIndex.Proofs.Key.Component
import QuadIndex.Proofs.Text.Order

/-!
# The range of the IRIs that begin with a text

Texts are stored in the order of their characters, and between a character and the next one there is
none. So from a text on, those below the text in which its last character that has a next one gives
way to that are the ones that begin with it. There is no such text only where every character is the
last of all; then no text lies above all that begin so.
-/

namespace QuadIndex

open Bytes Text

variable {c d : Char} {lead stop key : List Char}

/-- Between a character and the next one there is none. -/
theorem lt_nextChar?_iff (h : nextChar? c = some d) (x : Char) : x < d ↔ ¬ c < x := by
  have own := toNat_bounds c
  have other := toNat_bounds x
  unfold nextChar? at h
  generalize number : (if c.toNat = 0xd7ff then 0xe000 else c.toNat + 1) = n at h
  obtain ⟨small, rfl⟩ : n ≤ 0x10ffff ∧ Char.ofNat n = d := by simpa using h
  have valid : n.isValidChar := by
    unfold Nat.isValidChar
    split at number <;> omega
  show x.toNat < (Char.ofNat n).toNat ↔ ¬ c.toNat < x.toNat
  rw [toNat_ofNat valid]
  split at number <;> omega

theorem nextChar?_eq_none_iff : nextChar? c = none ↔ c.toNat = 0x10ffff := by
  have small := toNat_lt c
  simp only [nextChar?, ite_eq_right_iff, reduceCtorEq, imp_false]
  split <;> omega

theorem not_lt_of_nextChar?_eq_none (h : nextChar? c = none) (x : Char) : ¬ c < x := by
  have small := toNat_lt x
  have last := nextChar?_eq_none_iff.1 h
  show ¬ c.toNat < x.toNat
  omega

theorem textSuccessor?_eq_none_iff :
    textSuccessor? lead = none ↔ ∀ c ∈ lead, nextChar? c = none := by
  induction lead with
  | nil => simp [textSuccessor?]
  | cons c lead ih =>
    rw [List.forall_mem_cons, ← ih]
    cases later : textSuccessor? lead <;> simp [textSuccessor?, later]

/-- The last character that has a next one gives way to it. -/
theorem exists_of_textSuccessor? (h : textSuccessor? lead = some stop) :
    ∃ before c d after, lead = before ++ c :: after ∧ stop = before ++ [d] ∧
      nextChar? c = some d ∧ ∀ x ∈ after, nextChar? x = none := by
  induction lead generalizing stop with
  | nil => cases h
  | cons c lead ih =>
    cases later : textSuccessor? lead with
    | some s =>
      simp only [textSuccessor?, later, Option.some.injEq] at h
      obtain ⟨before, b, d, after, rfl, rfl, rest⟩ := ih later
      exact ⟨c :: before, b, d, after, rfl, h.symm, rest⟩
    | none =>
      simp only [textSuccessor?, later, Option.map_eq_some_iff] at h
      obtain ⟨d, next, rfl⟩ := h
      exact ⟨[], c, d, lead, rfl, rfl, next, textSuccessor?_eq_none_iff.1 later⟩

/-- From a text on, what begins with it is what lies below its successor. -/
theorem between_textSuccessor?_iff (h : textSuccessor? lead = some stop) :
    ¬ key < lead ∧ key < stop ↔ lead <+: key := by
  obtain ⟨before, c, d, after, rfl, rfl, next, last⟩ := exists_of_textSuccessor? h
  have exact (le : ¬ key < before ++ c :: after) :
      key < before ++ [d] ↔ before ++ c :: after <+: key :=
    Beginning.lt_next_iff (lt_nextChar?_iff next) (Char.lt_irrefl c)
      (fun x mem => not_lt_of_nextChar?_eq_none (last x mem)) le
  constructor
  · rintro ⟨le, lt⟩
    exact (exact le).1 lt
  · intro starts
    have le : ¬ key < before ++ c :: after := starts.le
    exact ⟨le, (exact le).2 starts⟩

/-- Where there is no successor, no text lies above all that begin so. -/
theorem exists_not_lt_of_textSuccessor?_eq_none (h : textSuccessor? lead = none)
    (stop : List Char) : ∃ key, lead <+: key ∧ ¬ key < stop := by
  have last := textSuccessor?_eq_none_iff.1 h
  by_cases below : lead < stop
  · have starts : lead <+: stop := Beginning.of_greatest
      (fun c mem => not_lt_of_nextChar?_eq_none (last c mem)) (List.lt_asymm below)
    exact ⟨stop, starts, List.lt_irrefl stop⟩
  · exact ⟨lead, List.prefix_refl lead, below⟩

/-- Only the first three characters are spelled by delimiters. -/
theorem clear_utf8EncodeChar_iff :
    (∀ x ∈ String.utf8EncodeChar c, isDelimiter x = false) ↔ 2 < c.toNat := by
  have byte {n : Nat} (small : n < 256) : isDelimiter (UInt8.ofNat n) = false ↔ 2 < n := by
    rw [isDelimiter, decide_eq_false_iff_not, UInt8.not_le, UInt8.lt_iff_toNat_lt,
      UInt8.toNat_ofNat', Nat.mod_eq_of_lt small]
    rfl
  show _ ↔ 2 < c.val.toNat
  dsimp only [String.utf8EncodeChar]
  generalize c.val.toNat = v
  split_ifs <;> simp only [List.forall_mem_cons, List.not_mem_nil, false_imp_iff, forall_const, and_true]
  · exact byte (by omega)
  · rw [byte (by omega), byte (by omega)]
    omega
  · rw [byte (by omega), byte (by omega), byte (by omega)]
    omega
  · rw [byte (by omega), byte (by omega), byte (by omega), byte (by omega)]
    omega

theorem clear_textSuccessor? (h : textSuccessor? lead = some stop)
    (clear : ∀ x ∈ spell lead, isDelimiter x = false) :
    ∀ x ∈ spell stop, isDelimiter x = false := by
  have each {cs : List Char} : (∀ x ∈ spell cs, isDelimiter x = false) ↔ ∀ c ∈ cs, 2 < c.toNat := by
    simp only [← clear_utf8EncodeChar_iff, spell, List.forall_mem_flatMap]
  obtain ⟨before, c, d, after, rfl, rfl, next, _⟩ := exists_of_textSuccessor? h
  rw [each] at clear ⊢
  intro x mem
  rcases List.mem_append.1 mem with mem | mem
  · exact clear x (List.mem_append_left _ mem)
  · obtain rfl := List.mem_singleton.1 mem
    have less : c < x := (lt_nextChar?_iff next c).2 (Char.lt_irrefl c)
    exact Nat.lt_trans (clear c (by simp)) less

theorem Term.startingWith?_eq_some {lead : String} {t : Term Iri}
    (h : Term.startingWith? lead = some t) :
    ∃ stop, textSuccessor? lead.toList = some stop ∧ t = .range ⟨lead⟩ ⟨String.ofList stop⟩ := by
  obtain ⟨stop, next, rfl⟩ := Option.map_eq_some_iff.1 h
  exact ⟨stop, next, rfl⟩

theorem Term.startingWith?_eq_none_iff {lead : String} :
    Term.startingWith? lead = none ↔ textSuccessor? lead.toList = none := Option.map_eq_none_iff

/-- The range of a beginning holds the texts that begin so and no others, and has bounds without
delimiters if the beginning has none. There is no such range only where the beginning repeats the
last of all characters, and no text lies above all that begin so. -/
theorem Term.startingWith?_exact (lead : String) :
    (∀ t, Term.startingWith? lead = some t → ∃ stop : Iri, t = .range ⟨lead⟩ stop ∧
      (∀ s : String, utf8 lead ≤ utf8 s ∧ utf8 s < utf8 stop.text ↔ lead.toList <+: s.toList) ∧
      ((∀ b ∈ utf8 lead, isDelimiter b = false) → (∀ b ∈ utf8 stop.text, isDelimiter b = false) ∧
        t.mapM Iri.encode = .ok (.range (utf8 lead) (utf8 stop.text)))) ∧
    (Term.startingWith? lead = none ↔ ∀ c ∈ lead.toList, c.toNat = 0x10ffff) ∧
    (Term.startingWith? lead = none ↔
      ¬ ∃ stop : String, ∀ s : String, lead.toList <+: s.toList → utf8 s < utf8 stop) := by
  have order {s t : String} : utf8 s < utf8 t ↔ s.toList < t.toList := by
    rw [utf8_eq_spell, utf8_eq_spell, spell_lt_spell_iff]
  have between {stop : List Char} (h : textSuccessor? lead.toList = some stop) (s : String) :
      utf8 lead ≤ utf8 s ∧ utf8 s < utf8 (String.ofList stop) ↔ lead.toList <+: s.toList := by
    rw [le_iff_not_lt, order, order, String.toList_ofList, between_textSuccessor?_iff h]
  refine ⟨fun t h => ?_, ?_, ?_⟩
  · obtain ⟨stop, next, rfl⟩ := startingWith?_eq_some h
    refine ⟨⟨String.ofList stop⟩, rfl, between next, fun clear => ?_⟩
    have clear' : ∀ b ∈ utf8 (String.ofList stop), isDelimiter b = false := by
      rw [utf8_eq_spell] at clear ⊢
      rw [String.toList_ofList]
      exact clear_textSuccessor? next clear
    have first : (⟨lead⟩ : Iri).encode = .ok (utf8 lead) :=
      Iri.encode_eq_ok_iff.2 ⟨rfl, above_utf8_iff.2 clear⟩
    have last : (⟨String.ofList stop⟩ : Iri).encode = .ok (utf8 (String.ofList stop)) :=
      Iri.encode_eq_ok_iff.2 ⟨rfl, above_utf8_iff.2 clear'⟩
    exact ⟨clear', by simp only [Term.mapM, first, last]; rfl⟩
  · rw [startingWith?_eq_none_iff, textSuccessor?_eq_none_iff]
    exact forall₂_congr fun _ _ => nextChar?_eq_none_iff
  · rw [startingWith?_eq_none_iff]
    constructor
    · rintro none ⟨stop, above⟩
      obtain ⟨key, starts, not_lt⟩ := exists_not_lt_of_textSuccessor?_eq_none none stop.toList
      have lt := above (String.ofList key) (by rwa [String.toList_ofList])
      rw [order, String.toList_ofList] at lt
      exact not_lt lt
    · intro unbounded
      cases next : textSuccessor? lead.toList with
      | none => rfl
      | some stop =>
        exact absurd ⟨String.ofList stop, fun s starts => ((between next s).2 starts).2⟩ unbounded

end QuadIndex
