import Mathlib.Tactic.SplitIfs
import QuadIndex.Number.Shortest
import QuadIndex.Proofs.Number.Numeral

/-!
# Decimal texts

A text that writes a decimal is read as the word of its digits and its exponent
(`ofText?_of_writes`), and what is read as a finite word writes a decimal (`exists_writes`). The other
texts that are read are names of infinity and of no number.
-/

namespace QuadIndex

open Numeral

/-- A decimal as it is written: a sign, digits before and behind the point, at least one of them,
and an exponent. -/
structure Decimal where
  negative : Bool
  whole : List Char
  part : List Char
  exponent : Int
  digits : AllDigits (whole ++ part)
  ne_nil : whole ++ part ≠ []

namespace Decimal

/-- The characters of a sign. A plus may be left out. -/
inductive Sign : Bool → List Char → Prop
  | minus : Sign true ['-']
  | plus : Sign false ['+']
  | left : Sign false []

/-- The characters of the point and of the digits behind it. Without such digits the point may be
left out. -/
inductive Fraction : List Char → List Char → Prop
  | point {ds : List Char} : Fraction ds ('.' :: ds)
  | left : Fraction [] []

/-- The characters of an exponent. It may be left out if it is 0. -/
inductive Exponent : Int → List Char → Prop
  | marked {c : Char} {ds : List Char} {e : Int} :
      c = 'e' ∨ c = 'E' → int? ds = some e → Exponent e (c :: ds)
  | left : Exponent 0 []

/-- The characters write the decimal. -/
def Writes (d : Decimal) (cs : List Char) : Prop :=
  ∃ sign fraction exponent, Sign d.negative sign ∧ Fraction d.part fraction ∧
    Exponent d.exponent exponent ∧ cs = sign ++ (d.whole ++ (fraction ++ exponent))

/-- The word that the digits and the exponent are read as. -/
def word (d : Decimal) : Binary64 :=
  .ofDecimal d.negative (value (d.whole ++ d.part)) (d.exponent - d.part.length)

end Decimal

namespace Binary64

open Decimal

/-! ## The parts of a text -/

section Parts

variable {negative : Bool} {c : Char} {cs part rest text : List Char} {e : Int}

/-- A decimal begins with such a character behind its sign. -/
def Leads (c : Char) : Prop := c.isDigit = true ∨ c = '.'

theorem sign_of_leads (lead : Leads c) : sign (c :: cs) = (false, c :: cs) := by
  unfold sign
  split
  · next heq =>
    cases heq
    exact absurd lead (by unfold Leads; decide)
  · next heq =>
    cases heq
    exact absurd lead (by unfold Leads; decide)
  · rfl

theorem sign_append (h : Sign negative text) (lead : Leads c) :
    sign (text ++ c :: cs) = (negative, c :: cs) := by
  cases h with
  | minus => rfl
  | plus => rfl
  | left => exact sign_of_leads lead

theorem exists_sign (h : sign cs = (negative, rest)) :
    ∃ text, Sign negative text ∧ cs = text ++ rest := by
  unfold sign at h
  split at h
  · cases h
    exact ⟨_, .minus, rfl⟩
  · cases h
    exact ⟨_, .plus, rfl⟩
  · cases h
    exact ⟨_, .left, rfl⟩

theorem exponent?_eq_some_iff : exponent? cs = some e ↔ Exponent e cs := by
  constructor
  · intro h
    unfold exponent? at h
    split at h
    · cases h
      exact .left
    · split_ifs at h with letter
      exact .marked letter h
  · intro h
    cases h with
    | marked letter read => exact (if_pos letter).trans read
    | left => rfl

/-- The characters of an exponent begin with no digit and with no point. -/
theorem not_leads_of_exponent (h : Exponent e text) : ∀ c ∈ text.head?, ¬ Leads c := by
  cases h with
  | left => simp
  | marked letter => rcases letter with rfl | rfl <;> simp [Leads]

/-- Digits end before a fraction and what follows it. -/
theorem fraction_ends (h : Fraction part text) (stop : ∀ c ∈ rest.head?, ¬ Leads c) :
    ∀ c ∈ (text ++ rest).head?, c.isDigit = false := by
  cases h with
  | point => simp
  | left => exact fun c hc => Bool.eq_false_iff.2 fun digit => stop c hc (.inl digit)

theorem fraction_append (h : Fraction part text) (digits : AllDigits part)
    (stop : ∀ c ∈ rest.head?, ¬ Leads c) : fraction (text ++ rest) = (part, rest) := by
  cases h with
  | point =>
    exact span_allDigits digits fun c hc => Bool.eq_false_iff.2 fun digit => stop c hc (.inl digit)
  | left =>
    unfold fraction
    split
    · next point => exact absurd (.inr rfl) (stop '.' (by rw [← List.nil_append rest, point]; rfl))
    · rfl

theorem exists_fraction (h : fraction cs = (part, rest)) :
    ∃ text, Fraction part text ∧ cs = text ++ rest := by
  unfold fraction at h
  split at h
  · rw [List.span_eq_takeWhile_dropWhile] at h
    cases h
    refine ⟨_, .point, ?_⟩
    rw [List.cons_append, List.takeWhile_append_dropWhile]
  · cases h
    exact ⟨[], .left, rfl⟩

/-- A text that begins with a digit or with the point is no name. -/
theorem map_toLower_ne (lead : Leads c) {first : Char} {letters : List Char}
    (other : ¬ Leads first) : (c :: cs).map Char.toLower ≠ first :: letters := by
  have lower : c.toLower = c := by
    refine dif_neg fun capital => ?_
    rcases lead with digit | rfl
    · have := digit_bounds digit
      have : 65 ≤ c.toNat := UInt32.le_iff_toNat_le.1 capital.1
      omega
    · exact absurd capital (by decide)
  intro same
  rw [List.map_cons, lower] at same
  exact other ((List.cons.inj same).1 ▸ lead)

end Parts

/-! ## Texts as decimals -/

section Texts

variable {s : String} {d : Decimal}

theorem exists_leads {fraction rest : List Char} (h : Fraction d.part fraction) :
    ∃ c cs, Leads c ∧ d.whole ++ (fraction ++ rest) = c :: cs := by
  cases hw : d.whole with
  | cons c cs => exact ⟨c, _, .inl (d.digits c (by simp [hw])), rfl⟩
  | nil =>
    generalize hp : d.part = part at h
    cases h with
    | point => exact ⟨'.', _, .inr rfl, rfl⟩
    | left => exact absurd (by rw [hw, hp, List.nil_append]) d.ne_nil

/-- A text that writes a decimal is read as its word. -/
theorem ofText?_of_writes (h : d.Writes s.toList) : ofText? s = some d.word := by
  obtain ⟨signs, behind, scale, signed, isFraction, isExponent, text⟩ := h
  obtain ⟨c, cs, lead, begins⟩ := @exists_leads d behind scale isFraction
  have whole : AllDigits d.whole := fun c hc => d.digits c (List.mem_append_left _ hc)
  have part : AllDigits d.part := fun c hc => d.digits c (List.mem_append_right _ hc)
  have tail := not_leads_of_exponent isExponent
  have noName : ∀ {first letters}, ¬ Leads first → (c :: cs).map Char.toLower ≠ first :: letters :=
    map_toLower_ne lead
  dsimp only [ofText?]
  rw [text, begins, sign_append signed lead]
  dsimp only
  rw [if_neg, if_neg, ← begins, span_allDigits whole (fraction_ends isFraction tail)]
  · dsimp only
    rw [fraction_append isFraction part tail]
    dsimp only
    rw [exponent?_eq_some_iff.2 isExponent, nat?_of_allDigits d.digits d.ne_nil]
    rfl
  · exact noName (by unfold Leads; decide)
  · exact not_or.2 ⟨noName (by unfold Leads; decide), noName (by unfold Leads; decide)⟩

/-- What is read as a finite word writes a decimal. -/
theorem exists_writes {x : Binary64} (h : ofText? s = some x) (finite : x.isFinite = true) :
    ∃ d : Decimal, d.Writes s.toList ∧ d.word = x := by
  dsimp only [ofText?] at h
  generalize hsign : sign s.toList = signed at h
  obtain ⟨negative, cs⟩ := signed
  obtain ⟨signs, isSign, text⟩ := exists_sign hsign
  dsimp only at h
  split_ifs at h with isInfinity isNan
  · cases h
    exact absurd finite (by simp [isFinite, ofMagnitude])
  · cases h
    exact absurd finite (by decide)
  generalize hspan : cs.span Char.isDigit = spanned at h
  obtain ⟨whole, rest⟩ := spanned
  dsimp only at h
  generalize hfraction : fraction rest = split at h
  obtain ⟨part, tail⟩ := split
  obtain ⟨behind, isFraction, rfl⟩ := exists_fraction hfraction
  dsimp only at h
  split at h
  · next digits e read scale =>
    obtain ⟨all, rfl⟩ := allDigits_of_nat? read
    have ne : whole ++ part ≠ [] := by
      intro none
      rw [none] at read
      cases read
    have join : whole ++ (behind ++ tail) = cs := by
      rw [List.span_eq_takeWhile_dropWhile, Prod.mk.injEq] at hspan
      rw [← hspan.2, ← hspan.1, List.takeWhile_append_dropWhile]
    refine ⟨⟨negative, whole, part, e, all, ne⟩, ⟨signs, behind, tail, isSign, isFraction,
      exponent?_eq_some_iff.1 scale, ?_⟩, Option.some.inj h⟩
    rw [text, ← join]
  · cases h

end Texts

end Binary64

end QuadIndex
