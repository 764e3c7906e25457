import QuadIndex.Number.Numeral

/-!
# Instants and their text

An instant is a whole number of milliseconds since the beginning of 1970, in the Gregorian calendar
extended to all years. Years are counted from March inside, so that the leap day is their last.
-/

namespace QuadIndex

/-- Milliseconds since 1970-01-01T00:00:00Z. -/
structure Instant where
  millis : Int
  deriving DecidableEq, Repr

namespace Instant

/-- A day of the calendar. -/
structure Date where
  year : Int
  month : Nat
  day : Nat
  deriving DecidableEq, Repr

/-- The year has a 29th of February. -/
def isLeap (year : Int) : Bool := year % 4 == 0 && (year % 100 != 0 || year % 400 == 0)

/-- The number of days of a month; none for what is no month. -/
def monthLength (year : Int) (month : Nat) : Nat :=
  match month with
  | 1 | 3 | 5 | 7 | 8 | 10 | 12 => 31
  | 4 | 6 | 9 | 11 => 30
  | 2 => if isLeap year then 29 else 28
  | _ => 0

/-- The date exists. -/
def Date.isValid (d : Date) : Bool := 1 ≤ d.day && d.day ≤ monthLength d.year d.month

/-- The days from 1970-01-01 to the date. -/
def Date.toDays (d : Date) : Int :=
  let year := if d.month ≤ 2 then d.year - 1 else d.year
  let month : Int := if d.month ≤ 2 then d.month + 9 else d.month - 3
  365 * year + year / 4 - year / 100 + year / 400 + (153 * month + 2) / 5 + d.day - 719469

/-- The date that many days after 1970-01-01. A cycle of 400 years has 146097 days. -/
def Date.ofDays (days : Int) : Date :=
  let shifted := days + 719468
  let cycle := shifted / 146097
  let dayOfCycle := shifted % 146097
  let yearOfCycle :=
    (dayOfCycle - dayOfCycle / 1460 + dayOfCycle / 36524 - dayOfCycle / 146096) / 365
  let dayOfYear := dayOfCycle - (365 * yearOfCycle + yearOfCycle / 4 - yearOfCycle / 100)
  let month := (5 * dayOfYear + 2) / 153
  let day := dayOfYear - (153 * month + 2) / 5 + 1
  let year := 400 * cycle + yearOfCycle
  if month < 10 then ⟨year, (month + 3).toNat, day.toNat⟩
  else ⟨year + 1, (month - 9).toNat, day.toNat⟩

/-- The milliseconds of a day. -/
def dayMillis : Int := 86400000

/-- Digits of a fixed count at the head of a text, and what follows. -/
def takeDigits? (count : Nat) (cs : List Char) : Option (Nat × List Char) :=
  if (cs.take count).length = count then
    (Numeral.nat? (cs.take count)).map fun n => (n, cs.drop count)
  else none

/-- What follows the first character, if that is one of the given ones. -/
def expect? (choices : List Char) : List Char → Option (List Char)
  | c :: cs => if c ∈ choices then some cs else none
  | [] => none

/-- The milliseconds of an optional fraction of a second, digits after the third being dropped. -/
def fraction? : List Char → Option (Nat × List Char)
  | '.' :: cs =>
    let (digits, rest) := cs.span Char.isDigit
    (Numeral.nat? digits).map fun _ =>
      (Numeral.value ((digits ++ ['0', '0']).take 3), rest)
  | cs => some (0, cs)

/-- The minutes that a zone is ahead of universal time: nothing but `Z`, or a sign and `HH:MM`. -/
def zone? : List Char → Option Int
  | ['Z'] | ['z'] => some 0
  | cs => do
    let rest ← expect? ['+', '-', '\u2212'] cs
    let (hours, rest) ← takeDigits? 2 rest
    let rest ← expect? [':'] rest
    let (minutes, rest) ← takeDigits? 2 rest
    if rest ≠ [] ∨ 23 < hours ∨ 59 < minutes then none
    else some (if cs.head? = some '+' then 60 * hours + minutes else -(60 * hours + minutes : Int))

/-- The instant that `YYYY-MM-DDTHH:MM:SS`, an optional fraction and a zone write. A 60th second is
the first of the following minute. -/
def ofText? (s : String) : Option Instant := do
  let (year, rest) ← takeDigits? 4 s.toList
  let rest ← expect? ['-'] rest
  let (month, rest) ← takeDigits? 2 rest
  let rest ← expect? ['-'] rest
  let (day, rest) ← takeDigits? 2 rest
  let rest ← expect? ['T', 't', ' '] rest
  let (hour, rest) ← takeDigits? 2 rest
  let rest ← expect? [':'] rest
  let (minute, rest) ← takeDigits? 2 rest
  let rest ← expect? [':'] rest
  let (second, rest) ← takeDigits? 2 rest
  let (milli, rest) ← fraction? rest
  let ahead ← zone? rest
  let date : Date := ⟨year, month, day⟩
  if !date.isValid || 23 < hour || 59 < minute || 60 < second then none
  else some ⟨dayMillis * date.toDays + 3600000 * hour + 60000 * (minute - ahead) + 1000 * second + milli⟩

/-- The last `width` decimal digits of a number. -/
def pad (width n : Nat) : String :=
  let digits := Nat.toDigits 10 n
  String.ofList (List.replicate (width - digits.length) '0' ++ digits)

/-- A year of at least four digits, with a sign where it is not between 0 and 9999. -/
def yearText (year : Int) : String :=
  if year < 0 then "-" ++ pad 4 year.natAbs
  else if 9999 < year then "+" ++ pad 4 year.natAbs
  else pad 4 year.natAbs

/-- The first instant that has a text. -/
def first : Instant := ⟨dayMillis * Date.toDays ⟨-262143, 1, 1⟩⟩

/-- The last instant that has a text. -/
def last : Instant := ⟨dayMillis * (Date.toDays ⟨262142, 12, 31⟩ + 1) - 1⟩

/-- The text of an instant in universal time, to the millisecond. -/
def toText? (t : Instant) : Option String :=
  if t.millis < first.millis ∨ last.millis < t.millis then none
  else
    let date := Date.ofDays (t.millis / dayMillis)
    let time := (t.millis % dayMillis).toNat
    some <| yearText date.year ++ "-" ++ pad 2 date.month ++ "-" ++ pad 2 date.day ++ "T" ++
      pad 2 (time / 3600000) ++ ":" ++ pad 2 (time / 60000 % 60) ++ ":" ++
      pad 2 (time / 1000 % 60) ++ "." ++ pad 3 (time % 1000) ++ "Z"

end Instant

end QuadIndex
