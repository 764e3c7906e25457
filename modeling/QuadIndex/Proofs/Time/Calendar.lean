import QuadIndex.Time.Instant

/-!
# The calendar counts every day once

The date of a count of days exists (`isValid_ofDays`) and its count is the one it came from
(`toDays_ofDays`). Both follow from the position of a day in its year, of which the years counted
from March have at most 366. The days of these years do not overlap, so a date that exists is the
date of its count (`ofDays_toDays`).
-/

namespace QuadIndex.Instant.Date

/-- The days before a year that begins in March. -/
def daysBefore (year : Int) : Int := 365 * year + year / 4 - year / 100 + year / 400

/-- The date of a day of a year that begins in March. -/
def ofYearDay (year dayOfYear : Int) : Date :=
  let month := (5 * dayOfYear + 2) / 153
  let day := dayOfYear - (153 * month + 2) / 5 + 1
  if month < 10 then ⟨year, (month + 3).toNat, day.toNat⟩
  else ⟨year + 1, (month - 9).toNat, day.toNat⟩

section

variable {d y : Int}

/-- Within a century of its cycle, a day finds the century of its year. -/
theorem century_of_cycle {c : Int} (low : 0 ≤ d) (hc : d / 36524 = c) (high : c ≤ 3)
    (hy : y = (d - d / 1460 + c) / 365) : y / 100 = c := by
  have century : c = 0 ∨ c = 1 ∨ c = 2 ∨ c = 3 := by omega
  rcases century with rfl | rfl | rfl | rfl <;> omega

/-- The year of a day of a cycle of 400 years, and the day's place in it. The last day of a cycle is
the only one in a fifth century of 36524 days. -/
theorem year_of_cycle (low : 0 ≤ d) (high : d ≤ 146096)
    (hy : y = (d - d / 1460 + d / 36524 - d / 146096) / 365) :
    0 ≤ y ∧ y ≤ 399 ∧ 0 ≤ d - (365 * y + y / 4 - y / 100) ∧
      d - (365 * y + y / 4 - y / 100) ≤ 365 ∧
      (d - (365 * y + y / 4 - y / 100) = 365 →
        (y + 1) % 4 = 0 ∧ ((y + 1) % 100 = 0 → (y + 1) % 400 = 0)) := by
  rcases Int.lt_or_eq_of_le high with before | rfl
  · have last : d / 146096 = 0 := by omega
    rw [last, Int.sub_zero] at hy
    have century := century_of_cycle low rfl (by omega) hy
    have least : 365 * y ≤ d - d / 1460 + d / 36524 := by omega
    have most : d - d / 1460 + d / 36524 < 365 * (y + 1) := by omega
    clear hy
    rw [century]
    refine ⟨by omega, by omega, by omega, by omega, fun full => ?_⟩
    -- a 366th day ends a block of four years, and no block that a century cuts short
    have block : y / 4 + 1 ≤ d / 1460 := by omega
    have third : y % 4 = 3 := by omega
    refine ⟨by omega, fun whole => ?_⟩
    have : y / 4 = 25 * (d / 36524) + 24 := by omega
    omega
  · subst hy
    decide

end

theorem isLeap_iff (year : Int) :
    isLeap year = true ↔ year % 4 = 0 ∧ (year % 100 = 0 → year % 400 = 0) := by
  simp only [isLeap, Bool.and_eq_true, Bool.or_eq_true, beq_iff_eq, bne_iff_ne]
  omega

theorem ofDays_eq_ofYearDay (days : Int) : ∃ year dayOfYear : Int,
    0 ≤ dayOfYear ∧ dayOfYear ≤ 365 ∧ (dayOfYear = 365 → isLeap (year + 1) = true) ∧
      days + 719468 = daysBefore year + dayOfYear ∧ ofDays days = ofYearDay year dayOfYear := by
  obtain ⟨d, hd⟩ : ∃ d, d = (days + 719468) % 146097 := ⟨_, rfl⟩
  obtain ⟨c, hc⟩ : ∃ c, c = (days + 719468) / 146097 := ⟨_, rfl⟩
  obtain ⟨y, hy⟩ : ∃ y, y = (d - d / 1460 + d / 36524 - d / 146096) / 365 := ⟨_, rfl⟩
  obtain ⟨yearLow, yearHigh, dayLow, dayHigh, full⟩ :=
    year_of_cycle (by omega : 0 ≤ d) (by omega) hy
  refine ⟨400 * c + y, d - (365 * y + y / 4 - y / 100), dayLow, dayHigh, ?_, ?_, ?_⟩
  · intro last
    rw [isLeap_iff]
    have := full last
    omega
  · have fourth : (400 * c + y) / 4 = 100 * c + y / 4 := by omega
    have hundredth : (400 * c + y) / 100 = 4 * c + y / 100 := by omega
    have whole : (400 * c + y) / 400 = c := by omega
    rw [daysBefore, fourth, hundredth, whole]
    omega
  · subst hy hc hd
    rfl

section

variable {year dayOfYear : Int}

theorem toDays_ofYearDay (low : 0 ≤ dayOfYear) (high : dayOfYear ≤ 365) :
    (ofYearDay year dayOfYear).toDays = daysBefore year + dayOfYear - 719468 := by
  obtain ⟨m, hm⟩ : ∃ m, m = (5 * dayOfYear + 2) / 153 := ⟨_, rfl⟩
  unfold ofYearDay toDays daysBefore
  simp only [← hm]
  by_cases early : m < 10
  · have after : ¬ (m + 3).toNat ≤ 2 := by omega
    simp only [early, if_true, after, if_false]
    omega
  · have before : (m - 9).toNat ≤ 2 := by omega
    simp only [early, if_false, before, if_true, Int.add_sub_cancel]
    omega

theorem isValid_ofYearDay (low : 0 ≤ dayOfYear) (high : dayOfYear ≤ 365)
    (leap : dayOfYear = 365 → isLeap (year + 1) = true) :
    (ofYearDay year dayOfYear).isValid = true := by
  obtain ⟨m, hm⟩ : ∃ m, m = (5 * dayOfYear + 2) / 153 := ⟨_, rfl⟩
  have month : m = 0 ∨ m = 1 ∨ m = 2 ∨ m = 3 ∨ m = 4 ∨ m = 5 ∨ m = 6 ∨ m = 7 ∨ m = 8 ∨ m = 9 ∨
      m = 10 ∨ m = 11 := by omega
  unfold ofYearDay isValid
  simp only [← hm, Bool.and_eq_true, decide_eq_true_eq]
  rcases month with h | h | h | h | h | h | h | h | h | h | h | h
  case inr.inr.inr.inr.inr.inr.inr.inr.inr.inr.inr =>
    -- February, the last month
    have length : monthLength (year + 1) 2 = if isLeap (year + 1) then 29 else 28 := rfl
    rw [h]
    by_cases last : dayOfYear = 365
    · simp [length, leap last, last]
    · have least : 28 ≤ monthLength (year + 1) 2 := by rw [length]; split <;> omega
      simp
      omega
  all_goals
    rw [h]
    simp [monthLength]
    omega

end

variable (days : Int)

theorem toDays_ofDays : (ofDays days).toDays = days := by
  obtain ⟨year, dayOfYear, low, high, _, total, date⟩ := ofDays_eq_ofYearDay days
  rw [date, toDays_ofYearDay low high]
  omega

theorem isValid_ofDays : (ofDays days).isValid = true := by
  obtain ⟨year, dayOfYear, low, high, leap, _, date⟩ := ofDays_eq_ofYearDay days
  rw [date]
  exact isValid_ofYearDay low high leap

section

variable {d e : Date}

/-- The year, counted from March, that a date lies in. -/
def marchYear (d : Date) : Int := if d.month ≤ 2 then d.year - 1 else d.year

/-- The month of a date, counted from March. -/
def marchMonth (d : Date) : Int := if d.month ≤ 2 then d.month + 9 else d.month - 3

/-- The days of a year that begins in March before one of its months. -/
def monthStart (month : Int) : Int := (153 * month + 2) / 5

/-- The place of a date in its year that begins in March. -/
def yearDay (d : Date) : Int := monthStart d.marchMonth + d.day - 1

theorem toDays_eq (d : Date) : d.toDays = daysBefore d.marchYear + d.yearDay - 719468 := by
  unfold toDays daysBefore marchYear yearDay monthStart marchMonth
  dsimp only
  omega

/-- A date that exists lies in its month and in its year. -/
theorem bounds_of_isValid (valid : d.isValid = true) :
    0 ≤ d.marchMonth ∧ d.marchMonth ≤ 11 ∧ monthStart d.marchMonth ≤ d.yearDay ∧
    d.yearDay < monthStart (d.marchMonth + 1) ∧ d.yearDay ≤ 365 ∧
    (d.yearDay = 365 → isLeap (d.marchYear + 1) = true) := by
  obtain ⟨year, month, day⟩ := d
  simp only [isValid, Bool.and_eq_true, decide_eq_true_eq] at valid
  obtain ⟨first, last⟩ := valid
  unfold yearDay monthStart marchMonth marchYear
  dsimp only
  unfold monthLength at last
  split at last
  case h_12 =>
    -- February, the last month
    by_cases leap : isLeap year = true
    · rw [if_pos leap] at last
      simp [leap]
      omega
    · rw [if_neg leap] at last
      simp
      omega
  case h_13 => omega
  all_goals
    simp
    omega

/-- The days before a year and those before the next one. -/
theorem daysBefore_succ (year : Int) :
    daysBefore (year + 1) = daysBefore year + if isLeap (year + 1) then 366 else 365 := by
  have leap := isLeap_iff (year + 1)
  unfold daysBefore
  split
  · next h => have := leap.1 h; omega
  · next h => have := mt leap.2 h; omega

theorem daysBefore_le {y z : Int} (h : y ≤ z) : daysBefore y ≤ daysBefore z := by
  unfold daysBefore
  omega

theorem monthLength_le (year : Int) (month : Nat) : monthLength year month ≤ 31 := by
  unfold monthLength
  split <;> (try split) <;> omega

theorem day_lt_of_isValid (valid : d.isValid = true) : d.day < 32 := by
  have length := monthLength_le d.year d.month
  simp only [isValid, Bool.and_eq_true, decide_eq_true_eq] at valid
  omega

theorem month_of_isValid (valid : d.isValid = true) : 1 ≤ d.month ∧ d.month ≤ 12 := by
  have nonempty : monthLength d.year d.month ≠ 0 := by
    simp only [isValid, Bool.and_eq_true, decide_eq_true_eq] at valid
    omega
  unfold monthLength at nonempty
  split at nonempty <;> omega

/-- Dates come in the order of their years. -/
theorem toDays_lt_of_marchYear_lt (hd : d.isValid = true) (he : e.isValid = true)
    (h : d.marchYear < e.marchYear) : d.toDays < e.toDays := by
  obtain ⟨_, _, _, _, last, full⟩ := bounds_of_isValid hd
  obtain ⟨low, _, first, _, _, _⟩ := bounds_of_isValid he
  have next : daysBefore (d.marchYear + 1) ≤ daysBefore e.marchYear := daysBefore_le h
  rw [daysBefore_succ] at next
  rw [toDays_eq, toDays_eq]
  have start : 0 ≤ monthStart e.marchMonth := by
    unfold monthStart
    omega
  split at next
  · omega
  · next short =>
    have := mt full short
    omega

/-- Dates that exist are told apart by their days. -/
theorem eq_of_toDays (hd : d.isValid = true) (he : e.isValid = true)
    (same : d.toDays = e.toDays) : d = e := by
  have year : d.marchYear = e.marchYear := by
    rcases Int.lt_trichotomy d.marchYear e.marchYear with less | equal | greater
    · exact absurd same (Int.ne_of_lt (toDays_lt_of_marchYear_lt hd he less))
    · exact equal
    · exact absurd same.symm (Int.ne_of_lt (toDays_lt_of_marchYear_lt he hd greater))
  have place : d.yearDay = e.yearDay := by
    rw [toDays_eq, toDays_eq, year] at same
    omega
  have month : d.marchMonth = e.marchMonth := by
    have hd := bounds_of_isValid hd
    have he := bounds_of_isValid he
    unfold monthStart at hd he
    omega
  have hm := month_of_isValid hd
  have hm' := month_of_isValid he
  obtain ⟨y, m, day⟩ := d
  obtain ⟨y', m', day'⟩ := e
  unfold yearDay at place
  rw [month] at place
  unfold marchMonth at month
  unfold marchYear at year
  dsimp only at year month place hm hm'
  obtain rfl : m = m' := by omega
  obtain rfl : day = day' := by omega
  obtain rfl : y = y' := by omega
  rfl

theorem ofDays_toDays (valid : d.isValid = true) : ofDays d.toDays = d :=
  eq_of_toDays (isValid_ofDays _) valid (toDays_ofDays _)

end

end QuadIndex.Instant.Date
