import Mathlib.Data.Rat.Floor
import QuadIndex.Bytes
import QuadIndex.Proofs.Time.Text

/-!
# Instants read exactly

A text may write its seconds with any number of digits, and its year with a sign and more than four.
`exactMillis?` reads all of that. An instant is what is read cut to the millisecond
(`exactMillis?_of_ofText?`), and the text of an instant is read as just that instant
(`exactMillis?_of_toText?`). So no two instants share a text, and a text that gives an instant at all
gives the one it was made of.
-/

namespace QuadIndex.Instant

open Numeral

/-- A year of four digits or more at the head of a text, after an optional sign. -/
def signedYear? (cs : List Char) : Option (Int × List Char) :=
  let (negative, cs) := sign cs
  let (digits, rest) := cs.span Char.isDigit
  if 4 ≤ digits.length then
    some (if negative then -(value digits : Int) else value digits, rest)
  else none

/-- The milliseconds of an optional fraction of a second, none of its digits dropped. -/
def exactFraction? : List Char → Option (ℚ × List Char)
  | '.' :: cs =>
    let (digits, rest) := cs.span Char.isDigit
    (nat? digits).map fun (n : Nat) =>
      (((1000 * n : Nat) : ℚ) / (10 ^ digits.length : Nat), rest)
  | cs => some (0, cs)

/-- The milliseconds since 1970-01-01T00:00:00Z that a text writes. -/
def exactMillis? (s : String) : Option ℚ := do
  let (year, rest) ← signedYear? s.toList
  let (clock, rest) ← Clock.read? rest
  let (fraction, rest) ← exactFraction? rest
  let ahead ← zone? rest
  if clock.isRefused year then none else some (clock.millis year ahead + fraction)

section

variable {cs ds rest : List Char} {n : Nat}

theorem signedYear?_of_sign {negative : Bool} (h : sign cs = (negative, ds ++ rest))
    (digits : AllDigits ds) (long : 4 ≤ ds.length) (stop : ∀ c ∈ rest.head?, c.isDigit = false) :
    signedYear? cs = some (if negative then -(value ds : Int) else value ds, rest) := by
  unfold signedYear?
  simp only [h, span_allDigits digits stop, if_pos long]

theorem sign_digits_append (digits : AllDigits ds) (ne : ds ≠ []) (rest : List Char) :
    sign (ds ++ rest) = (false, ds ++ rest) := by
  cases ds with
  | nil => exact absurd rfl ne
  | cons c ds =>
    have first := digits c (.head _)
    rw [List.cons_append]
    unfold sign
    split
    · next same => cases same; cases first
    · next same => cases same; cases first
    · rfl

theorem takeDigits?_eq_some {count : Nat} (h : takeDigits? count cs = some (n, rest)) :
    ∃ ds, AllDigits ds ∧ ds.length = count ∧ value ds = n ∧ cs = ds ++ rest := by
  unfold takeDigits? at h
  split at h
  · next length =>
    obtain ⟨m, read, same⟩ := Option.map_eq_some_iff.1 h
    obtain ⟨digits, rfl⟩ := allDigits_of_nat? read
    obtain ⟨rfl, rfl⟩ := Prod.mk.inj same
    exact ⟨cs.take count, digits, length, rfl, (List.take_append_drop count cs).symm⟩
  · cases h

theorem expect?_eq_some {c : Char} (h : expect? [c] cs = some rest) : cs = c :: rest := by
  cases cs with
  | nil => cases h
  | cons d cs =>
    simp only [expect?, List.mem_singleton, Option.ite_none_right_eq_some, Option.some.injEq] at h
    rw [h.1, h.2]

/-- Four digits before the other fields are a year. -/
theorem signedYear?_of_takeDigits? {c : Clock × List Char} (h : takeDigits? 4 cs = some (n, rest))
    (fields : Clock.read? rest = some c) : signedYear? cs = some ((n : Int), rest) := by
  obtain ⟨ds, digits, length, rfl, rfl⟩ := takeDigits?_eq_some h
  obtain ⟨_, dash, _⟩ := Option.bind_eq_some_iff.1 fields
  obtain rfl := expect?_eq_some dash
  have some_ : ds ≠ [] := by
    rintro rfl
    cases length
  exact signedYear?_of_sign (sign_digits_append digits some_ _) digits (Nat.le_of_eq length.symm)
    (by simp)

theorem length_pad_ge (width n : Nat) : width ≤ (pad width n).toList.length := by
  rw [toList_pad, List.length_append, List.length_replicate]
  omega

/-- The text of a year is read as the year. -/
theorem signedYear?_yearText (year : Int) (stop : ∀ c ∈ rest.head?, c.isDigit = false) :
    signedYear? ((yearText year).toList ++ rest) = some (year, rest) := by
  have digits := allDigits_pad 4 year.natAbs
  have long := length_pad_ge 4 year.natAbs
  have read {cs : List Char} {negative : Bool}
      (h : sign cs = (negative, (pad 4 year.natAbs).toList ++ rest)) :=
    signedYear?_of_sign h digits long stop
  rw [value_pad] at read
  unfold yearText
  by_cases negative : year < 0
  · have same : -(year.natAbs : Int) = year := by omega
    rw [if_pos negative, String.toList_append]
    exact (read (sign_minus _)).trans (by rw [if_pos rfl, same])
  · have same : (year.natAbs : Int) = year := by omega
    rw [if_neg negative]
    by_cases large : 9999 < year
    · rw [if_pos large, String.toList_append]
      exact (read (sign_plus _)).trans (by rw [if_neg Bool.false_ne_true, same])
    · rw [if_neg large]
      exact (read (sign_digits_append digits (pad_ne_nil 4 _) rest)).trans
        (by rw [if_neg Bool.false_ne_true, same])

/-- The first three digits of a fraction, zeros being added if there are fewer. -/
theorem value_take_three (digits : AllDigits ds) (ne : ds ≠ []) :
    value ((ds ++ ['0', '0']).take 3) = 1000 * value ds / 10 ^ ds.length := by
  have pos := List.length_pos_iff.2 ne
  have padded : AllDigits (ds ++ ['0', '0']) := digits.append (allDigits_zeros 2)
  have zeros : value (ds ++ ['0', '0']) = 100 * value ds := by
    rw [value_append]
    rfl
  have later : ((ds ++ ['0', '0']).drop 3).length = ds.length - 1 := by
    rw [List.length_drop, List.length_append]
    rfl
  -- With two zeros behind them there are three digits to take, however few were given.
  have split : 10 ^ (ds.length - 1) * value ((ds ++ ['0', '0']).take 3) +
      value ((ds ++ ['0', '0']).drop 3) = 100 * value ds := by
    rw [← zeros, ← later, ← value_append, List.take_append_drop]
  have small : value ((ds ++ ['0', '0']).drop 3) < 10 ^ (ds.length - 1) := by
    rw [← later]
    exact value_lt fun c hc => padded c (List.mem_of_mem_drop hc)
  have power : 10 ^ ds.length = 10 ^ (ds.length - 1) * 10 := by
    rw [← Nat.pow_succ, Nat.succ_eq_add_one, Nat.sub_add_cancel pos]
  have whole : 1000 * value ds =
      10 ^ ds.length * value ((ds ++ ['0', '0']).take 3) +
        10 * value ((ds ++ ['0', '0']).drop 3) := by
    rw [power, Nat.mul_assoc, Nat.mul_left_comm, ← Nat.mul_add, split]
    omega
  rw [whole, Nat.mul_add_div (Nat.pow_pos (by decide)), Nat.div_eq_of_lt (by omega), Nat.add_zero]

/-- The milliseconds of a fraction are those of all its digits, cut to a whole number. -/
theorem exactFraction?_of_fraction? (h : fraction? cs = some (n, rest)) :
    ∃ f : ℚ, exactFraction? cs = some (f, rest) ∧ ⌊f⌋ = n := by
  unfold fraction? at h
  split at h
  · next cs =>
    simp only [exactFraction?]
    generalize cs.span Char.isDigit = parts at h ⊢
    obtain ⟨digits, after⟩ := parts
    obtain ⟨m, read, same⟩ := Option.map_eq_some_iff.1 h
    obtain ⟨rfl, rfl⟩ := Prod.mk.inj same
    obtain ⟨all, rfl⟩ := allDigits_of_nat? read
    refine ⟨_, by rw [read]; rfl, ?_⟩
    have some_ : digits ≠ [] := by
      rintro rfl
      cases read
    rw [value_take_three all some_, Rat.floor_natCast_div_natCast]
    rfl
  · next plain =>
    obtain ⟨rfl, rfl⟩ := Prod.mk.inj (Option.some.inj h)
    refine ⟨0, ?_, by simp⟩
    unfold exactFraction?
    split
    · exact (plain _ rfl).elim
    · rfl

end

section

variable {s : String} {t u : Instant}

/-- The instant of a text is what the text writes, cut to the millisecond. -/
theorem exactMillis?_of_ofText? (h : ofText? s = some t) :
    ∃ r, exactMillis? s = some r ∧ ⌊r⌋ = t.millis := by
  rw [ofText?_eq] at h
  obtain ⟨⟨year, _⟩, hyear, h⟩ := Option.bind_eq_some_iff.1 h
  obtain ⟨⟨clock, _⟩, hclock, h⟩ := Option.bind_eq_some_iff.1 h
  obtain ⟨⟨milli, _⟩, hmilli, h⟩ := Option.bind_eq_some_iff.1 h
  obtain ⟨ahead, hzone, h⟩ := Option.bind_eq_some_iff.1 h
  obtain ⟨taken, same⟩ := Option.ite_none_left_eq_some.1 h
  obtain ⟨fraction, hfraction, floor⟩ := exactFraction?_of_fraction? hmilli
  refine ⟨clock.millis year ahead + fraction, ?_, ?_⟩
  · refine Option.bind_eq_some_iff.2 ⟨_, signedYear?_of_takeDigits? hyear hclock, ?_⟩
    refine Option.bind_eq_some_iff.2 ⟨_, hclock, ?_⟩
    refine Option.bind_eq_some_iff.2 ⟨_, hfraction, ?_⟩
    refine Option.bind_eq_some_iff.2 ⟨_, hzone, ?_⟩
    exact if_neg taken
  · cases same
    rw [Int.floor_intCast_add, floor]

/-- The text of an instant writes just this instant. -/
theorem exactMillis?_of_toText? (h : toText? t = some s) : exactMillis? s = some (t.millis : ℚ) := by
  have text := (toText?_eq_some_iff.1 h).2
  have milli : t.timeOfDay % 1000 < 1000 := Nat.mod_lt _ (by decide)
  have fraction : exactFraction? ('.' :: ((pad 3 (t.timeOfDay % 1000)).toList ++ ['Z'])) =
      some (((t.timeOfDay % 1000 : Nat) : ℚ), ['Z']) := by
    have length := length_pad (by decide : 0 < 3) milli
    simp only [exactFraction?, span_allDigits (allDigits_pad 3 _) (by simp : ∀ c ∈ ['Z'].head?, _),
      nat?_pad, Option.map_some, length]
    congr 2
    push_cast
    ring
  unfold exactMillis?
  rw [text]
  refine Option.bind_eq_some_iff.2 ⟨_, signedYear?_yearText _ (by simp [Clock.text]), ?_⟩
  refine Option.bind_eq_some_iff.2 ⟨_, Clock.read?_text t.clock_short _, ?_⟩
  refine Option.bind_eq_some_iff.2 ⟨_, fraction, ?_⟩
  refine Option.bind_eq_some_iff.2 ⟨0, rfl, ?_⟩
  rw [if_neg t.clock_not_isRefused, ← t.clock_millis]
  push_cast
  rfl

/-- No two instants have the same text. -/
theorem toText?_injective (ht : toText? t = some s) (hu : toText? u = some s) : t = u := by
  have same := (exactMillis?_of_toText? ht).symm.trans (exactMillis?_of_toText? hu)
  cases t
  cases u
  exact congrArg Instant.mk (by simpa using same)

/-- A text that reads back gives the instant it was made of. -/
theorem eq_of_toText? (ht : toText? t = some s) (hu : ofText? s = some u) : u = t := by
  obtain ⟨r, read, floor⟩ := exactMillis?_of_ofText? hu
  rw [exactMillis?_of_toText? ht, Option.some.injEq] at read
  rw [← read, Int.floor_intCast] at floor
  cases t
  cases u
  exact congrArg Instant.mk floor.symm

end

end QuadIndex.Instant
