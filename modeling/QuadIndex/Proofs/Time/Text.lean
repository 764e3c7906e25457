import QuadIndex.Proofs.Number.Numeral
import QuadIndex.Proofs.Time.Calendar

/-!
# Instants and the fields of their text

Between its year and the fraction of its seconds a text has five fields of two digits, its clock. An
instant is read from the clock of its text (`ofText?_eq`) and written as the clock of its date and
time (`toText?_eq_some_iff`). Every instant that a text gives has a text itself
(`toText?_of_ofText?`), and is written as the text it came from if that is in full
(`toText?_of_isFull`).
-/

namespace QuadIndex.Instant

open Numeral

section

variable {width n m : Nat}

theorem toList_pad (width n : Nat) : (pad width n).toList =
    List.replicate (width - (Nat.toDigits 10 n).length) '0' ++ Nat.toDigits 10 n :=
  String.toList_ofList

theorem allDigits_pad (width n : Nat) : AllDigits (pad width n).toList := by
  rw [toList_pad]
  exact (allDigits_zeros _).append (allDigits_toDigits n)

theorem value_pad (width n : Nat) : value (pad width n).toList = n := by
  rw [toList_pad, value_zeros_append, value_toDigits]

theorem pad_ne_nil (width n : Nat) : (pad width n).toList ≠ [] := by
  rw [toList_pad]
  exact List.append_ne_nil_of_right_ne_nil _ Nat.toDigits_ne_nil

theorem nat?_pad (width n : Nat) : nat? (pad width n).toList = some n := by
  rw [nat?_of_allDigits (allDigits_pad width n) (pad_ne_nil width n), value_pad]

theorem length_pad (pos : 0 < width) (h : n < 10 ^ width) :
    (pad width n).toList.length = width := by
  have short := (Nat.length_toDigits_le_iff (by decide) pos).2 h
  rw [toList_pad, List.length_append, List.length_replicate]
  omega

theorem takeDigits?_pad (pos : 0 < width) (h : n < 10 ^ width) (rest : List Char) :
    takeDigits? width ((pad width n).toList ++ rest) = some (n, rest) := by
  have length := length_pad pos h
  rw [takeDigits?, List.take_left' length, List.drop_left' length, if_pos length, nat?_pad]
  rfl

theorem expect?_cons (c : Char) (choices cs : List Char) :
    expect? (c :: choices) (c :: cs) = some cs := by
  simp [expect?]

theorem fraction?_pad (h : n < 1000) (rest : List Char)
    (stop : ∀ c ∈ rest.head?, c.isDigit = false) :
    fraction? ('.' :: ((pad 3 n).toList ++ rest)) = some (n, rest) := by
  have length : (pad 3 n).toList.length = 3 := length_pad (by decide) h
  rw [fraction?, span_allDigits (allDigits_pad 3 n) stop]
  simp only [nat?_pad, Option.map_some, List.take_left' length, value_pad]

end

/-- The fields of a text between its year and the fraction of its seconds. -/
structure Clock where
  month : Nat
  day : Nat
  hour : Nat
  minute : Nat
  second : Nat

namespace Clock

variable (c : Clock)

/-- The day of the fields. -/
def date (year : Int) : Date := ⟨year, c.month, c.day⟩

/-- The day does not exist, or the time does not; a 60th second does. -/
def isRefused (year : Int) : Bool :=
  !(c.date year).isValid || 23 < c.hour || 59 < c.minute || 60 < c.second

/-- The milliseconds up to the second of the fields, in a zone ahead of universal time. -/
def millis (year ahead : Int) : Int :=
  dayMillis * (c.date year).toDays + 3600000 * c.hour + 60000 * (c.minute - ahead) + 1000 * c.second

/-- The text of the fields, before what follows it. -/
def text (rest : List Char) : List Char :=
  '-' :: ((pad 2 c.month).toList ++ '-' :: ((pad 2 c.day).toList ++ 'T' ::
    ((pad 2 c.hour).toList ++ ':' :: ((pad 2 c.minute).toList ++ ':' ::
      ((pad 2 c.second).toList ++ rest)))))

/-- The fields that a text has after its year, and what follows them. -/
def read? (cs : List Char) : Option (Clock × List Char) := do
  let rest ← expect? ['-'] cs
  let (month, rest) ← takeDigits? 2 rest
  let rest ← expect? ['-'] rest
  let (day, rest) ← takeDigits? 2 rest
  let rest ← expect? ['T', 't', ' '] rest
  let (hour, rest) ← takeDigits? 2 rest
  let rest ← expect? [':'] rest
  let (minute, rest) ← takeDigits? 2 rest
  let rest ← expect? [':'] rest
  let (second, rest) ← takeDigits? 2 rest
  return (⟨month, day, hour, minute, second⟩, rest)

/-- All fields have two digits. -/
structure Short : Prop where
  month : c.month < 100
  day : c.day < 100
  hour : c.hour < 100
  minute : c.minute < 100
  second : c.second < 100

/-- The text of fields is read as the fields. -/
theorem read?_text {c : Clock} (short : c.Short) (rest : List Char) :
    read? (c.text rest) = some (c, rest) := by
  unfold read? text
  refine Option.bind_eq_some_iff.2 ⟨_, expect?_cons _ _ _, ?_⟩
  refine Option.bind_eq_some_iff.2 ⟨_, takeDigits?_pad (by decide) short.month _, ?_⟩
  refine Option.bind_eq_some_iff.2 ⟨_, expect?_cons _ _ _, ?_⟩
  refine Option.bind_eq_some_iff.2 ⟨_, takeDigits?_pad (by decide) short.day _, ?_⟩
  refine Option.bind_eq_some_iff.2 ⟨_, expect?_cons _ _ _, ?_⟩
  refine Option.bind_eq_some_iff.2 ⟨_, takeDigits?_pad (by decide) short.hour _, ?_⟩
  refine Option.bind_eq_some_iff.2 ⟨_, expect?_cons _ _ _, ?_⟩
  refine Option.bind_eq_some_iff.2 ⟨_, takeDigits?_pad (by decide) short.minute _, ?_⟩
  refine Option.bind_eq_some_iff.2 ⟨_, expect?_cons _ _ _, ?_⟩
  refine Option.bind_eq_some_iff.2 ⟨_, takeDigits?_pad (by decide) short.second _, ?_⟩
  rfl

theorem not_isRefused_iff {c : Clock} {year : Int} : ¬ c.isRefused year = true ↔
    (c.date year).isValid = true ∧ c.hour ≤ 23 ∧ c.minute ≤ 59 ∧ c.second ≤ 60 := by
  simp only [isRefused, Bool.not_eq_true, Bool.or_eq_false_iff, Bool.not_eq_false',
    decide_eq_false_iff_not, Nat.not_lt, and_assoc]

end Clock

/-- A text is read as a year, the fields after it, a fraction of a second and a zone. -/
theorem ofText?_eq (s : String) : ofText? s = (do
    let (year, rest) ← takeDigits? 4 s.toList
    let (clock, rest) ← Clock.read? rest
    let (milli, rest) ← fraction? rest
    let ahead ← zone? rest
    if clock.isRefused year then none else some ⟨clock.millis year ahead + milli⟩) := by
  -- both sides make the same steps; those of the fields are bracketed on the right
  have step {α β γ : Type} {x : Option α} {f : α → Option β} {g : β → Option γ} {h : α → Option γ}
      (same : ∀ a, h a = (f a).bind g) : x.bind h = (x.bind f).bind g := by
    rw [Option.bind_assoc, funext same]
  refine congrArg (Option.bind _) (funext fun ⟨year, rest⟩ => ?_)
  iterate 5 refine step fun _ => step fun ⟨_, _⟩ => ?_
  rfl

section

variable (t : Instant)

/-- The date of an instant. -/
def date : Date := Date.ofDays (t.millis / dayMillis)

/-- The milliseconds since the day of an instant began. -/
def timeOfDay : Nat := (t.millis % dayMillis).toNat

/-- The fields of an instant in universal time. -/
def clock : Clock :=
  ⟨t.date.month, t.date.day, t.timeOfDay / 3600000, t.timeOfDay / 60000 % 60,
    t.timeOfDay / 1000 % 60⟩

theorem toText?_eq_some_iff {t : Instant} {s : String} : toText? t = some s ↔
    (first.millis ≤ t.millis ∧ t.millis ≤ last.millis) ∧
      s.toList = (yearText t.date.year).toList ++
        t.clock.text ('.' :: ((pad 3 (t.timeOfDay % 1000)).toList ++ ['Z'])) := by
  unfold toText?
  split
  · next outside =>
    simp only [reduceCtorEq, false_iff, not_and]
    omega
  · next inside =>
    have range : first.millis ≤ t.millis ∧ t.millis ≤ last.millis := by omega
    rw [Option.some.injEq, ← String.toList_inj, eq_comm]
    simp [range, Clock.text, clock, date, timeOfDay]

theorem timeOfDay_lt : t.timeOfDay < 86400000 := by
  unfold timeOfDay dayMillis
  omega

theorem isValid_date : t.date.isValid = true := Date.isValid_ofDays _

theorem clock_short : t.clock.Short := by
  have month := Date.month_of_isValid t.isValid_date
  have day := Date.day_lt_of_isValid t.isValid_date
  have time := t.timeOfDay_lt
  constructor <;> (dsimp only [clock]; omega)

theorem clock_not_isRefused : ¬ t.clock.isRefused t.date.year = true := by
  have time := t.timeOfDay_lt
  refine Clock.not_isRefused_iff.2 ⟨t.isValid_date, ?_⟩
  dsimp only [clock]
  omega

/-- The fields of an instant and the fraction of its second make up the instant. -/
theorem clock_millis : t.clock.millis t.date.year 0 + (t.timeOfDay % 1000 : Nat) = t.millis := by
  have days : (t.clock.date t.date.year).toDays = t.millis / dayMillis := Date.toDays_ofDays _
  have time : (t.timeOfDay : Int) = t.millis % dayMillis := by
    unfold timeOfDay dayMillis
    omega
  rw [Clock.millis, days]
  dsimp only [clock]
  unfold dayMillis at *
  omega

end

section

theorem lt_of_takeDigits? {count n : Nat} {cs rest : List Char}
    (h : takeDigits? count cs = some (n, rest)) : n < 10 ^ count := by
  unfold takeDigits? at h
  split at h
  · next length =>
    obtain ⟨m, read, same⟩ := Option.map_eq_some_iff.1 h
    obtain ⟨digits, rfl⟩ := allDigits_of_nat? read
    have := value_lt digits
    rw [length] at this
    exact (Prod.mk.inj same).1 ▸ this
  · cases h

theorem lt_of_fraction? {n : Nat} {cs rest : List Char} (h : fraction? cs = some (n, rest)) :
    n < 1000 := by
  unfold fraction? at h
  split at h
  · next cs =>
    generalize cs.span Char.isDigit = parts at h
    obtain ⟨digits, after⟩ := parts
    obtain ⟨_, read, same⟩ := Option.map_eq_some_iff.1 h
    obtain ⟨rfl, _⟩ := Prod.mk.inj same
    have padded : AllDigits (digits ++ ['0', '0']) :=
      (allDigits_of_nat? read).1.append (allDigits_zeros 2)
    have kept : AllDigits ((digits ++ ['0', '0']).take 3) :=
      fun c hc => padded c (List.mem_of_mem_take hc)
    exact Nat.lt_of_lt_of_le (value_lt kept)
      (Nat.pow_le_pow_right (by decide) (List.length_take_le 3 _))
  · obtain ⟨rfl, _⟩ := Prod.mk.inj (Option.some.inj h)
    decide

/-- A zone is less than a day away. -/
theorem bounds_of_zone? {cs : List Char} {ahead : Int} (h : zone? cs = some ahead) :
    -1440 < ahead ∧ ahead < 1440 := by
  unfold zone? at h
  split at h
  · cases h
    decide
  · cases h
    decide
  · simp only [Option.bind_eq_bind, Option.bind_eq_some_iff] at h
    obtain ⟨_, _, ⟨hours, _⟩, _, _, _, ⟨minutes, _⟩, _, h⟩ := h
    dsimp only at h
    split at h
    · cases h
    · split at h <;> cases h <;> omega

theorem bounds_of_ofText? {s : String} {t : Instant} (h : ofText? s = some t) :
    first.millis ≤ t.millis ∧ t.millis ≤ last.millis := by
  rw [ofText?_eq] at h
  obtain ⟨⟨year, _⟩, hyear, h⟩ := Option.bind_eq_some_iff.1 h
  obtain ⟨⟨clock, _⟩, _, h⟩ := Option.bind_eq_some_iff.1 h
  obtain ⟨⟨milli, _⟩, hmilli, h⟩ := Option.bind_eq_some_iff.1 h
  obtain ⟨ahead, hzone, h⟩ := Option.bind_eq_some_iff.1 h
  obtain ⟨taken, same⟩ := Option.ite_none_left_eq_some.1 h
  have years := lt_of_takeDigits? hyear
  have millis := lt_of_fraction? hmilli
  have zone := bounds_of_zone? hzone
  obtain ⟨valid, hour, minute, second⟩ := Clock.not_isRefused_iff.1 taken
  have days := Date.day_lt_of_isValid valid
  have months := (Date.month_of_isValid valid).2
  have date : -800000 ≤ (clock.date year).toDays ∧ (clock.date year).toDays ≤ 3000000 := by
    unfold Clock.date Date.toDays at *
    dsimp only at *
    split <;> omega
  have low : first.millis = -8334601228800000 := by decide
  have high : last.millis = 8210266876799999 := by decide
  cases same
  rw [low, high]
  unfold Clock.millis dayMillis
  dsimp only at *
  omega

/-- An instant that a text gives has a text. -/
theorem toText?_of_ofText? {s : String} {t : Instant} (h : ofText? s = some t) :
    ∃ text, toText? t = some text :=
  ⟨_, toText?_eq_some_iff.2 ⟨bounds_of_ofText? h, String.toList_ofList⟩⟩

theorem int64_of_ofText? {s : String} {t : Instant} (h : ofText? s = some t) :
    minInt64 ≤ t.millis ∧ t.millis ≤ maxInt64 := by
  have low : minInt64 ≤ first.millis := by decide
  have high : last.millis ≤ maxInt64 := by decide
  have := bounds_of_ofText? h
  omega

end

/-- The text has the form `YYYY-MM-DDTHH:MM:SS.mmmZ` with seconds below 60. -/
def IsFull (s : String) : Prop :=
  ∃ year month day hour minute second milli : List Char,
    (∀ ds ∈ [year, month, day, hour, minute, second, milli], AllDigits ds) ∧
    [year, month, day, hour, minute, second, milli].map List.length = [4, 2, 2, 2, 2, 2, 3] ∧
    value second < 60 ∧
    s.toList = year ++ '-' :: (month ++ '-' :: (day ++ 'T' :: (hour ++ ':' :: (minute ++ ':' ::
      (second ++ '.' :: (milli ++ ['Z']))))))

theorem yearText_natCast {n : Nat} (h : n < 10000) : yearText n = pad 4 n := by
  rw [yearText, if_neg (by omega), if_neg (by omega), Int.natAbs_natCast]

theorem pad_value {width : Nat} {ds : List Char} (pos : 0 < width) (digits : AllDigits ds)
    (length : ds.length = width) : (pad width (value ds)).toList = ds := by
  have small : value ds < 10 ^ width := length ▸ value_lt digits
  exact eq_of_value (allDigits_pad width _) digits ((length_pad pos small).trans length.symm)
    (value_pad width _)

/-- A text of that form is a year below 10000, the fields after it and three digits. -/
theorem exists_clock_of_isFull {s : String} (h : IsFull s) :
    ∃ (year milli : Nat) (c : Clock), year < 10000 ∧ milli < 1000 ∧ c.Short ∧ c.second < 60 ∧
      s.toList = (pad 4 year).toList ++ c.text ('.' :: ((pad 3 milli).toList ++ ['Z'])) := by
  obtain ⟨year, month, day, hour, minute, second, milli, digits, lengths, seconds, text⟩ := h
  simp only [List.forall_mem_cons, List.map_cons, List.cons.injEq] at digits lengths
  obtain ⟨dy, dm, dd, dh, dn, ds, dl, _⟩ := digits
  obtain ⟨ly, lm, ld, lh, ln, ls, ll, _⟩ := lengths
  have small {ds : List Char} {width : Nat} (digits : AllDigits ds) (length : ds.length = width) :
      value ds < 10 ^ width := length ▸ value_lt digits
  refine ⟨value year, value milli, ⟨value month, value day, value hour, value minute,
    value second⟩, small dy ly, small dl ll, ⟨small dm lm, small dd ld, small dh lh, small dn ln,
    small ds ls⟩, seconds, ?_⟩
  unfold Clock.text
  dsimp only
  rw [pad_value (by decide) dy ly, pad_value (by decide) dm lm, pad_value (by decide) dd ld,
    pad_value (by decide) dh lh, pad_value (by decide) dn ln, pad_value (by decide) ds ls,
    pad_value (by decide) dl ll, text]

/-- What a text of that form gives. -/
theorem ofText?_of_fields {s : String} {year milli : Nat} {c : Clock} (hyear : year < 10000)
    (hmilli : milli < 1000) (short : c.Short)
    (text : s.toList =
      (pad 4 year).toList ++ c.text ('.' :: ((pad 3 milli).toList ++ ['Z']))) :
    ofText? s = if c.isRefused year then none else some ⟨c.millis year 0 + milli⟩ := by
  rw [ofText?_eq, text, takeDigits?_pad (by decide) hyear]
  simp only [Option.bind_eq_bind, Option.bind_some, Clock.read?_text short,
    fraction?_pad hmilli ['Z'] (by simp), zone?]

/-- A text of that form is the text of the instant that it gives. -/
theorem toText?_of_isFull {s : String} {t : Instant} (full : IsFull s) (h : ofText? s = some t) :
    toText? t = some s := by
  have bounds := bounds_of_ofText? h
  obtain ⟨year, milli, c, hyear, hmilli, short, seconds, text⟩ := exists_clock_of_isFull full
  have read := ofText?_of_fields hyear hmilli short text
  obtain ⟨taken, same⟩ := Option.ite_none_left_eq_some.1 (read.symm.trans h)
  obtain ⟨exists_, hour, minute, _⟩ := Clock.not_isRefused_iff.1 taken
  have millis : t.millis = c.millis year 0 + milli := by
    cases same
    rfl
  unfold Clock.millis at millis
  have days : t.millis / dayMillis = (c.date year).toDays := by
    unfold dayMillis at *
    omega
  have date : t.date = c.date year := by
    rw [Instant.date, days, Date.ofDays_toDays exists_]
  have time : t.timeOfDay = 3600000 * c.hour + 60000 * c.minute + 1000 * c.second + milli := by
    unfold timeOfDay dayMillis at *
    omega
  have clock : t.clock = c := by
    unfold Instant.clock
    rw [date, time]
    obtain ⟨_, _, _, _, _⟩ := c
    simp only [Clock.date, Clock.mk.injEq, true_and] at *
    omega
  have last : t.timeOfDay % 1000 = milli := by omega
  refine toText?_eq_some_iff.2 ⟨bounds, ?_⟩
  rw [date, clock, last, Clock.date, yearText_natCast hyear, text]

section

variable {t : Instant} {s : String}

/-- The text of an instant of the years 0 to 9999 is in that form and gives the instant. -/
theorem ofText?_of_year (h : toText? t = some s) (low : 0 ≤ t.date.year)
    (high : t.date.year ≤ 9999) : IsFull s ∧ ofText? s = some t := by
  obtain ⟨_, text⟩ := toText?_eq_some_iff.1 h
  obtain ⟨year, same⟩ := Int.eq_ofNat_of_zero_le low
  have small : year < 10000 := by omega
  have milli : t.timeOfDay % 1000 < 1000 := Nat.mod_lt _ (by decide)
  have short := t.clock_short
  rw [same, yearText_natCast small] at text
  constructor
  · refine ⟨_, _, _, _, _, _, _, ?_, ?_, ?_, text⟩
    · simp only [List.forall_mem_cons]
      exact ⟨allDigits_pad _ _, allDigits_pad _ _, allDigits_pad _ _, allDigits_pad _ _,
        allDigits_pad _ _, allDigits_pad _ _, allDigits_pad _ _, nofun⟩
    · simp only [List.map_cons, List.map_nil, length_pad (by decide : 0 < 4) small,
        length_pad (by decide : 0 < 2) short.month, length_pad (by decide : 0 < 2) short.day,
        length_pad (by decide : 0 < 2) short.hour, length_pad (by decide : 0 < 2) short.minute,
        length_pad (by decide : 0 < 2) short.second, length_pad (by decide : 0 < 3) milli]
    · rw [value_pad]
      exact Nat.mod_lt _ (by decide)
  · have taken := t.clock_not_isRefused
    have millis := t.clock_millis
    rw [same] at taken millis
    rw [ofText?_of_fields small milli short text, if_neg taken]
    exact congrArg (fun n => some (Instant.mk n)) millis

/-- The text of an instant of another year begins with a sign, so nothing reads it. -/
theorem ofText?_of_far_year (h : toText? t = some s) (far : t.date.year < 0 ∨ 9999 < t.date.year) :
    ¬ IsFull s ∧ ofText? s = none := by
  obtain ⟨_, text⟩ := toText?_eq_some_iff.1 h
  have signed : ∃ c cs, s.toList = c :: cs ∧ c.isDigit = false := by
    rw [text]
    unfold yearText
    by_cases negative : t.date.year < 0
    · rw [if_pos negative, String.toList_append]
      exact ⟨'-', _, rfl, rfl⟩
    · rw [if_neg negative, if_pos (far.resolve_left negative), String.toList_append]
      exact ⟨'+', _, rfl, rfl⟩
  obtain ⟨c, cs, first, sign⟩ := signed
  constructor
  · rintro ⟨year, _, _, _, _, _, _, digits, lengths, _, same⟩
    have digits : AllDigits year := digits year (by simp)
    have length : year.length = 4 := (List.cons.inj lengths).1
    cases year with
    | nil => cases length
    | cons d year =>
      rw [first] at same
      have : c = d := (List.cons.inj same).1
      rw [this, digits d (by simp)] at sign
      cases sign
  · have refused : takeDigits? 4 s.toList = none := by
      rw [first, takeDigits?, List.take_succ_cons, nat?, List.all_cons, sign]
      simp
    rw [ofText?_eq, refused]
    rfl

/-- The text of an instant is in that form and gives the instant, or nothing reads it. -/
theorem ofText?_of_toText? (h : toText? t = some s) :
    (IsFull s ∧ ofText? s = some t) ∨ (¬ IsFull s ∧ ofText? s = none) := by
  by_cases near : 0 ≤ t.date.year ∧ t.date.year ≤ 9999
  · exact .inl (ofText?_of_year h near.1 near.2)
  · exact .inr (ofText?_of_far_year h (by omega))

end

end QuadIndex.Instant
