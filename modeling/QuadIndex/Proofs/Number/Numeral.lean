import Mathlib.Data.List.TakeDrop
import QuadIndex.Number.Numeral

/-!
# Decimal numerals read back

Zeros in front of digits do not change their value, and the numeral of a whole number reads back as
that number (`int64?_ofInt`). A text without such zeros and without a plus sign is the numeral of the
number that it writes (`ofInt_of_plain`).
-/

namespace QuadIndex.Numeral

/-- Every character is a decimal digit. -/
def AllDigits (cs : List Char) : Prop := ∀ c ∈ cs, c.isDigit = true

theorem AllDigits.append {a b : List Char} (ha : AllDigits a) (hb : AllDigits b) :
    AllDigits (a ++ b) :=
  fun c hc => (List.mem_append.1 hc).elim (ha c) (hb c)

theorem allDigits_toDigits (n : Nat) : AllDigits (Nat.toDigits 10 n) :=
  fun _ hc => Nat.isDigit_of_mem_toDigits (by decide) (by decide) hc

theorem allDigits_zeros (n : Nat) : AllDigits (List.replicate n '0') := by
  intro c hc
  obtain ⟨_, rfl⟩ := List.mem_replicate.1 hc
  rfl

/-- Digits end where something else begins. -/
theorem span_allDigits {ds rest : List Char} (h : AllDigits ds)
    (stop : ∀ c ∈ rest.head?, c.isDigit = false) : (ds ++ rest).span Char.isDigit = (ds, rest) := by
  have whole : ∀ c ∈ ds, c.isDigit = true := h
  rw [List.span_eq_takeWhile_dropWhile, List.takeWhile_append_of_pos whole,
    List.dropWhile_append_of_pos whole]
  cases rest with
  | nil => simp
  | cons c rest =>
    have other : c.isDigit = false := stop c rfl
    simp [other]

theorem value_append (a b : List Char) : value (a ++ b) = 10 ^ b.length * value a + value b := by
  change Nat.ofDigitChars 10 (a ++ b) 0 = _
  rw [Nat.ofDigitChars_append, Nat.ofDigitChars_eq_ofDigitChars_zero]
  rfl

theorem value_toDigits (n : Nat) : value (Nat.toDigits 10 n) = n :=
  Nat.ofDigitChars_toDigits (by decide) (by decide)

theorem value_zeros (n : Nat) : value (List.replicate n '0') = 0 := by
  change Nat.ofDigitChars 10 (List.replicate n '0') 0 = 0
  simp

/-- Digits with zeros in front of them. -/
theorem value_zeros_append (n : Nat) (ds : List Char) :
    value (List.replicate n '0' ++ ds) = value ds := by
  rw [value_append, value_zeros, Nat.mul_zero, Nat.zero_add]

theorem digit_bounds {c : Char} (h : c.isDigit = true) : 48 ≤ c.toNat ∧ c.toNat ≤ 57 := by
  simp only [Char.isDigit, Bool.and_eq_true, decide_eq_true_eq, UInt32.le_iff_toNat_le] at h
  exact h

theorem value_singleton (c : Char) : value [c] = c.toNat - 48 := by
  have zero : '0'.toNat = 48 := rfl
  simp [value, zero]

theorem value_cons (c : Char) (ds : List Char) :
    value (c :: ds) = 10 ^ ds.length * (c.toNat - 48) + value ds := by
  rw [← List.singleton_append, value_append, value_singleton]

/-- Digits write less than the power of ten of their count. -/
theorem value_lt {ds : List Char} (h : AllDigits ds) : value ds < 10 ^ ds.length := by
  induction ds with
  | nil => decide
  | cons d ds ih =>
    have rest := ih fun c hc => h c (by simp [hc])
    have digit : d.toNat - 48 ≤ 9 := by
      have := digit_bounds (h d (by simp))
      omega
    have most := Nat.mul_le_mul_left (10 ^ ds.length) digit
    rw [value_cons, List.length_cons, Nat.pow_succ]
    omega

/-- Digits of one count are told apart by their value. -/
theorem eq_of_value {a b : List Char} (ha : AllDigits a) (hb : AllDigits b)
    (length : a.length = b.length) (same : value a = value b) : a = b := by
  induction a generalizing b with
  | nil => exact (List.length_eq_zero_iff.1 length.symm).symm
  | cons c a ih =>
    cases b with
    | nil => cases length
    | cons d b =>
      have length := Nat.succ.inj length
      have hc := digit_bounds (ha c (.head _))
      have hd := digit_bounds (hb d (.head _))
      have restA := value_lt fun x hx => ha x (.tail _ hx)
      have restB := value_lt fun x hx => hb x (.tail _ hx)
      rw [value_cons, value_cons, length] at same
      rw [length] at restA
      have first : c.toNat - 48 = d.toNat - 48 := by
        have quotients := congrArg (· / 10 ^ b.length) same
        simpa [Nat.mul_add_div (Nat.pow_pos (by decide : 0 < 10)), Nat.div_eq_of_lt restA,
          Nat.div_eq_of_lt restB] using quotients
      rw [first] at same
      have chars : c = d := Char.toNat_inj.1 (by omega)
      rw [chars, ih (fun x hx => ha x (.tail _ hx)) (fun x hx => hb x (.tail _ hx)) length
        (Nat.add_left_cancel same)]

section

variable {d : Char} {ds : List Char}

theorem pow_le_value (digits : AllDigits (d :: ds)) (lead : d ≠ '0') :
    10 ^ ds.length ≤ value (d :: ds) := by
  have first := digit_bounds (digits d (.head _))
  have nonzero : d.toNat ≠ 48 := fun same => lead (Char.toNat_inj.1 same)
  rw [value_cons]
  exact Nat.le_trans (Nat.le_mul_of_pos_right _ (by omega)) (Nat.le_add_right _ _)

/-- Digits that begin with no zero are those of their value. -/
theorem toDigits_value (digits : AllDigits (d :: ds)) (lead : d ≠ '0') :
    Nat.toDigits 10 (value (d :: ds)) = d :: ds := by
  have most : (Nat.toDigits 10 (value (d :: ds))).length ≤ ds.length + 1 :=
    (Nat.length_toDigits_le_iff (by decide) (Nat.succ_pos _)).2 (value_lt digits)
  have least : ds.length < (Nat.toDigits 10 (value (d :: ds))).length := by
    rcases Nat.eq_zero_or_pos ds.length with none | pos
    · rw [none]
      exact List.length_pos_iff.2 Nat.toDigits_ne_nil
    · rw [← Nat.not_le, Nat.length_toDigits_le_iff (by decide) pos, Nat.not_lt]
      exact pow_le_value digits lead
  refine eq_of_value (allDigits_toDigits _) digits ?_ (value_toDigits _)
  rw [List.length_cons]
  omega

end

theorem allDigits_of_nat? {cs : List Char} {n : Nat} (h : nat? cs = some n) :
    AllDigits cs ∧ value cs = n := by
  unfold nat? at h
  split at h
  · next digits => exact ⟨List.all_eq_true.1 digits.2, Option.some.inj h⟩
  · cases h

theorem nat?_of_allDigits {ds : List Char} (h : AllDigits ds) (ne : ds ≠ []) :
    nat? ds = some (value ds) := by
  rw [nat?, if_pos ⟨ne, List.all_eq_true.2 h⟩]

theorem sign_of_allDigits {ds : List Char} (h : AllDigits ds) : sign ds = (false, ds) := by
  unfold sign
  split
  · next cs => exact absurd (h '-' (by simp)) (by decide)
  · next cs => exact absurd (h '+' (by simp)) (by decide)
  · rfl

theorem sign_minus (ds : List Char) : sign ('-' :: ds) = (true, ds) := rfl

theorem sign_plus (ds : List Char) : sign ('+' :: ds) = (false, ds) := rfl

theorem int?_of_sign {cs ds : List Char} {negative : Bool} {n : Nat}
    (h : sign cs = (negative, ds)) (read : nat? ds = some n) :
    int? cs = some (if negative then -(n : Int) else n) := by
  dsimp only [int?]
  rw [h, read]
  rfl

theorem int?_ofInt (n : Int) : int? (ofInt n).toList = some n := by
  have digits := allDigits_toDigits n.natAbs
  have read : nat? (Nat.toDigits 10 n.natAbs) = some n.natAbs := by
    rw [nat?_of_allDigits digits Nat.toDigits_ne_nil, value_toDigits]
  by_cases h : n < 0
  · have same : -(n.natAbs : Int) = n := by omega
    rw [ofInt, if_pos h, String.toList_ofList, int?_of_sign (sign_minus _) read, if_pos rfl,
      same]
  · have same : (n.natAbs : Int) = n := by omega
    rw [ofInt, if_neg h, String.toList_ofList, int?_of_sign (sign_of_allDigits digits) read,
      if_neg Bool.false_ne_true, same]

/-- A whole number in plain decimal form: a single zero, or digits that begin with no zero, after a
minus or not. -/
inductive Plain : List Char → Prop
  | zero : Plain ['0']
  | positive {d : Char} {ds : List Char} : AllDigits (d :: ds) → d ≠ '0' → Plain (d :: ds)
  | negative {d : Char} {ds : List Char} : AllDigits (d :: ds) → d ≠ '0' → Plain ('-' :: d :: ds)

/-- A plain decimal is the numeral of the number that it writes. -/
theorem ofInt_of_plain {s : String} {n : Int} (plain : Plain s.toList) (h : int? s.toList = some n) :
    ofInt n = s := by
  rw [← String.toList_inj, ofInt, String.toList_ofList]
  generalize s.toList = cs at plain h ⊢
  cases plain with
  | zero =>
    cases h
    rfl
  | @positive d ds digits lead =>
    rw [int?_of_sign (sign_of_allDigits digits) (nat?_of_allDigits digits (List.cons_ne_nil _ _)),
      if_neg Bool.false_ne_true, Option.some.injEq] at h
    rw [← h, if_neg (by omega), Int.natAbs_natCast, toDigits_value digits lead]
  | @negative d ds digits lead =>
    have pos : 0 < value (d :: ds) :=
      Nat.lt_of_lt_of_le (Nat.pow_pos (by decide)) (pow_le_value digits lead)
    rw [int?_of_sign (sign_minus _) (nat?_of_allDigits digits (List.cons_ne_nil _ _)), if_pos rfl,
      Option.some.injEq] at h
    rw [← h, if_pos (by omega), Int.natAbs_neg, Int.natAbs_natCast, toDigits_value digits lead]

/-- The numeral of a number of 64 bits reads back as that number. -/
theorem int64?_ofInt {n : Int} (low : minInt64 ≤ n) (high : n ≤ maxInt64) :
    int64? (ofInt n) = some n := by
  simp [int64?, int?_ofInt, low, high]

theorem bounds_of_int64? {s : String} {n : Int} (h : int64? s = some n) :
    minInt64 ≤ n ∧ n ≤ maxInt64 := by
  have := (Option.filter_eq_some_iff.1 h).2
  simpa using this

end QuadIndex.Numeral
