import QuadIndex.Proofs.Literal.Order
import QuadIndex.Proofs.Number.Nearest

/-!
# Payloads are ordered as the values that they stand for

What a payload is depends on nothing but the value that the literal denotes, a time being cut to the
millisecond (`payload_of_encode`). Payloads of one datatype compare as these values do
(`Meaning.payload_lt_payload_iff`), so two lexical forms share a payload exactly where they denote the
same value, which is also what is read back (`payloads_ordered`). A floating-point form denotes the
word nearest to the decimal that it writes (`Binary64.ofText?_eq_some_iff`).
-/

namespace QuadIndex

open Bytes

namespace LiteralCoding

/-- The sort key of a word is its place, moved up. -/
theorem keyPayload_sortKey (x : Binary64) : keyPayload x.sortKey = intPayload x.rank := by
  have bound := x.magnitude_lt
  rw [intPayload]
  congr 1
  unfold Binary64.sortKey Binary64.rank
  split <;> omega

theorem rank_bounds (x : Binary64) : Numeral.minInt64 ≤ x.rank ∧ x.rank ≤ Numeral.maxInt64 := by
  have bound := x.magnitude_lt
  unfold Numeral.minInt64 Numeral.maxInt64 Binary64.rank
  split <;> omega

end LiteralCoding

namespace Meaning

/-- Of two values of one kind the first comes before the second. Texts are ordered by their bytes, and
false comes before true. -/
def Precedes : Meaning → Meaning → Prop
  | text s, text t => Text.utf8 s < Text.utf8 t
  | whole m, whole n => m < n
  | binary x, binary y => x.Precedes y
  | truth a, truth b => a = false ∧ b = true
  | time s, time t => s < t
  | _, _ => False

/-- The values of a kind that have payloads: of numbers those of 64 bits, of words the finite ones, of
times whole milliseconds. -/
inductive Kept : ValueSpace → Meaning → Prop
  | text (s : String) : Kept .text (.text s)
  | whole {n : Int} (low : Numeral.minInt64 ≤ n) (high : n ≤ Numeral.maxInt64) :
    Kept .whole (.whole n)
  | binary {x : Binary64} (finite : x.isFinite = true) : Kept .binary (.binary x)
  | truth (b : Bool) : Kept .truth (.truth b)
  | time {millis : Int} (low : Numeral.minInt64 ≤ millis) (high : millis ≤ Numeral.maxInt64) :
    Kept .time (.time millis)

/-- The payload of a value. -/
def payload : Meaning → Bytes
  | resource _ => []
  | text s => Text.utf8 s
  | whole n => LiteralCoding.intPayload n
  | binary x => LiteralCoding.keyPayload x.sortKey
  | truth b => [if b then 0x31 else 0x30]
  | time millis => LiteralCoding.intPayload ⌊millis⌋

variable {space : ValueSpace} {m n : Meaning}

/-- Payloads of one kind compare as the values do. -/
theorem payload_lt_payload_iff (hm : Kept space m) (hn : Kept space n) :
    m.payload < n.payload ↔ m.Precedes n := by
  cases hm with
  | text s =>
    cases hn
    exact Iff.rfl
  | whole low high =>
    cases hn with
    | whole low' high' =>
      exact LiteralCoding.intPayload_lt_intPayload_iff ⟨low, high⟩ ⟨low', high'⟩
  | @binary x finite =>
    cases hn with
    | @binary y finite' =>
      show LiteralCoding.keyPayload x.sortKey < LiteralCoding.keyPayload y.sortKey ↔ x.Precedes y
      rw [LiteralCoding.keyPayload_sortKey, LiteralCoding.keyPayload_sortKey,
        LiteralCoding.intPayload_lt_intPayload_iff (LiteralCoding.rank_bounds x)
          (LiteralCoding.rank_bounds y)]
      exact Binary64.rank_lt_rank_iff
  | truth b =>
    cases hn with
    | truth d =>
      show [if b then (0x31 : UInt8) else 0x30] < [if d then 0x31 else 0x30] ↔
        b = false ∧ d = true
      revert b d
      decide
  | @time s low high =>
    cases hn with
    | @time t low' high' =>
      show LiteralCoding.intPayload ⌊(s : ℚ)⌋ < LiteralCoding.intPayload ⌊(t : ℚ)⌋ ↔ (s : ℚ) < t
      rw [Int.floor_intCast, Int.floor_intCast, Int.cast_lt]
      exact LiteralCoding.intPayload_lt_intPayload_iff ⟨low, high⟩ ⟨low', high'⟩

end Meaning

namespace LiteralCoding

/-- The value that a lexical form denotes to a coding: what its datatype says, a time being cut to the
millisecond. -/
def denoted? (c : LiteralCoding) (lexical : String) : Option Meaning :=
  ((valueSpace c.datatype).meaning? lexical).map Meaning.cut

/-- The coding stores nothing but the payload of the value that a form denotes. -/
def StoresValues (c : LiteralCoding) : Prop :=
  ∀ ⦃lexical payload⦄, c.encode lexical = .ok payload → ∃ m, c.denoted? lexical = some m ∧
    m.Kept (valueSpace c.datatype) ∧ payload = m.payload

theorem string_storesValues : string.StoresValues := by
  intro lexical payload h
  obtain ⟨rfl, _⟩ := Plain.encode_eq_ok_iff.1 h
  exact ⟨.text lexical, rfl, .text lexical, rfl⟩

section

variable {datatype : Iri} {marker : UInt8} {low high : Int} {lexical : String}

theorem wholeNumber_storesValues (space : valueSpace datatype = .whole) :
    (wholeNumber datatype marker low high).StoresValues := by
  intro lexical payload h
  obtain ⟨n, read, _, rfl⟩ := encode_wholeNumber h
  obtain ⟨least, most⟩ := Numeral.bounds_of_int64? read
  have number : Numeral.int? lexical.toList = some n := (Option.filter_eq_some_iff.1 read).1
  refine ⟨.whole n, ?_, ?_, rfl⟩
  · show ((valueSpace datatype).meaning? lexical).map Meaning.cut = some (.whole n)
    rw [space, ValueSpace.meaning?, number]
    rfl
  · show Meaning.Kept (valueSpace datatype) (.whole n)
    rw [space]
    exact .whole least most

theorem floating_storesValues (space : valueSpace datatype = .binary) :
    (floating datatype marker).StoresValues := by
  intro lexical payload h
  obtain ⟨x, read, finite, rfl⟩ := encode_floating h
  refine ⟨.binary x, ?_, ?_, rfl⟩
  · show ((valueSpace datatype).meaning? lexical).map Meaning.cut = some (.binary x)
    rw [space, ValueSpace.meaning?, read]
    rfl
  · show Meaning.Kept (valueSpace datatype) (.binary x)
    rw [space]
    exact .binary finite

/-- Whole numbers are accepted from one bound to the other. -/
theorem wholeNumber_accepts_iff (least : Numeral.minInt64 ≤ low) (most : high ≤ Numeral.maxInt64)
    {n : Int} (number : Numeral.int? lexical.toList = some n) :
    (∃ payload, (wholeNumber datatype marker low high).encode lexical = .ok payload) ↔
      low ≤ n ∧ n ≤ high := by
  constructor
  · rintro ⟨payload, h⟩
    obtain ⟨m, read, inside, _⟩ := encode_wholeNumber h
    have same := number.symm.trans (Option.filter_eq_some_iff.1 read).1
    obtain rfl := Option.some.inj same
    omega
  · rintro ⟨above, below⟩
    have read : Numeral.int64? lexical = some n := by
      apply Option.filter_eq_some_iff.2
      exact ⟨number, decide_eq_true ⟨by omega, by omega⟩⟩
    refine ⟨intPayload n, ?_⟩
    have inside : ¬ (n < low ∨ high < n) := by omega
    simp only [wholeNumber, read, inside, if_false]

/-- Words are accepted where they are finite. -/
theorem floating_accepts_iff {x : Binary64} (read : Binary64.ofText? lexical = some x) :
    (∃ payload, (floating datatype marker).encode lexical = .ok payload) ↔ x.isFinite = true := by
  constructor
  · rintro ⟨payload, h⟩
    obtain ⟨y, read', finite, _⟩ := encode_floating h
    obtain rfl := Option.some.inj (read.symm.trans read')
    exact finite
  · intro finite
    exact ⟨keyPayload x.sortKey, by simp only [floating, read, finite, if_true]⟩

end

theorem boolean_storesValues : boolean.StoresValues := by
  intro lexical payload h
  dsimp only [boolean] at h
  split at h
  · next yes =>
    cases h
    refine ⟨.truth true, ?_, .truth true, rfl⟩
    rcases yes with rfl | rfl <;> rfl
  · split at h
    · next no =>
      cases h
      refine ⟨.truth false, ?_, .truth false, rfl⟩
      rcases no with rfl | rfl <;> rfl
    · cases h

theorem dateTime_storesValues : dateTime.StoresValues := by
  intro lexical payload h
  obtain ⟨t, read, rfl⟩ := encode_dateTime h
  obtain ⟨millis, written, floor⟩ := Instant.exactMillis?_of_ofText? read
  obtain ⟨least, most⟩ := Instant.int64_of_ofText? read
  refine ⟨.time t.millis, ?_, .time least most, ?_⟩
  · show ((Instant.exactMillis? lexical).map Meaning.time).map Meaning.cut = some (.time t.millis)
    rw [written, Option.map_some, Option.map_some, Meaning.cut, floor]
  · show intPayload t.millis = intPayload ⌊(t.millis : ℚ)⌋
    rw [Int.floor_intCast]

/-- What a form is stored as is the payload of the value that it denotes. -/
theorem payload_of_encode {c : LiteralCoding} (h : c ∈ standard) : c.StoresValues := by
  simp only [standard, List.mem_cons, List.not_mem_nil, or_false] at h
  rcases h with rfl | rfl | rfl | rfl | rfl | rfl | rfl | rfl
  · exact string_storesValues
  · exact wholeNumber_storesValues rfl
  · exact wholeNumber_storesValues rfl
  · exact wholeNumber_storesValues rfl
  · exact floating_storesValues rfl
  · exact floating_storesValues rfl
  · exact boolean_storesValues
  · exact dateTime_storesValues

/-- A value of a kind is what a form of this kind denotes. -/
theorem space_of_meaning? {space : ValueSpace} {lexical : String} {m : Meaning}
    (h : space.meaning? lexical = some m) :
    (∀ n, m = .whole n → space = .whole ∧ Numeral.int? lexical.toList = some n) ∧
    ∀ x, m = .binary x → space = .binary ∧ Binary64.ofText? lexical = some x := by
  cases space with
  | text =>
    cases h
    exact ⟨nofun, nofun⟩
  | whole =>
    obtain ⟨n, number, rfl⟩ := Option.map_eq_some_iff.1 h
    refine ⟨?_, nofun⟩
    rintro _ ⟨⟩
    exact ⟨rfl, number⟩
  | binary =>
    obtain ⟨x, read, rfl⟩ := Option.map_eq_some_iff.1 h
    refine ⟨nofun, ?_⟩
    rintro _ ⟨⟩
    exact ⟨rfl, read⟩
  | truth =>
    obtain ⟨b, _, rfl⟩ := Option.map_eq_some_iff.1 h
    exact ⟨nofun, nofun⟩
  | time =>
    obtain ⟨millis, _, rfl⟩ := Option.map_eq_some_iff.1 h
    exact ⟨nofun, nofun⟩

section

variable {c : LiteralCoding} {lexical : String}

/-- Whole numbers are accepted within 64 bits, those of `Xsd.int` within 32. -/
theorem accepts_iff_of_whole (h : c ∈ standard) {n : Int}
    (denoted : (valueSpace c.datatype).meaning? lexical = some (.whole n)) :
    (∃ payload, c.encode lexical = .ok payload) ↔
      if c.datatype = Xsd.int then -2 ^ 31 ≤ n ∧ n < 2 ^ 31 else -2 ^ 63 ≤ n ∧ n < 2 ^ 63 := by
  obtain ⟨space, number⟩ := (space_of_meaning? denoted).1 n rfl
  have wide : Numeral.minInt64 ≤ n ∧ n ≤ Numeral.maxInt64 ↔ -2 ^ 63 ≤ n ∧ n < 2 ^ 63 := by
    unfold Numeral.minInt64 Numeral.maxInt64
    omega
  simp only [standard, List.mem_cons, List.not_mem_nil, or_false] at h
  rcases h with rfl | rfl | rfl | rfl | rfl | rfl | rfl | rfl
  case inl => exact absurd space (by decide)
  case inr.inl =>
    rw [if_neg (by decide), ← wide]
    exact wholeNumber_accepts_iff (Int.le_refl _) (Int.le_refl _) number
  case inr.inr.inl =>
    rw [if_neg (by decide), ← wide]
    exact wholeNumber_accepts_iff (Int.le_refl _) (Int.le_refl _) number
  case inr.inr.inr.inl =>
    rw [if_pos (by decide)]
    refine (wholeNumber_accepts_iff (by decide) (by decide) number).trans ?_
    omega
  all_goals exact absurd space (by decide)

/-- Words are accepted where they are finite. -/
theorem accepts_iff_of_binary (h : c ∈ standard) {x : Binary64}
    (denoted : (valueSpace c.datatype).meaning? lexical = some (.binary x)) :
    (∃ payload, c.encode lexical = .ok payload) ↔ x.isFinite = true := by
  obtain ⟨space, read⟩ := (space_of_meaning? denoted).2 x rfl
  simp only [standard, List.mem_cons, List.not_mem_nil, or_false] at h
  rcases h with rfl | rfl | rfl | rfl | rfl | rfl | rfl | rfl
  case inr.inr.inr.inr.inl => exact floating_accepts_iff read
  case inr.inr.inr.inr.inr.inl => exact floating_accepts_iff read
  all_goals exact absurd space (by decide)

/-- What is read back for a form denotes the value that the form denotes to the coding. -/
theorem denoted_of_decode (h : c ∈ standard) {payload : Bytes} {form : String} {m : Meaning}
    (encoded : c.encode lexical = .ok payload) (decoded : c.decode payload = .ok form)
    (denoted : c.denoted? lexical = some m) :
    (valueSpace c.datatype).meaning? form = some m := by
  obtain ⟨whole, means, kept⟩ := (faithful_of_mem_standard h).meaning encoded decoded
  rw [denoted?, means, Option.map_some] at denoted
  rw [kept, denoted]

end

/-- Payloads of a datatype compare bytewise as the values that their forms denote: numbers and instants
as numbers, floating-point words as their numbers with the negative zero directly before the positive
one, false before true, and texts as their bytes. Two forms have one payload exactly where they denote
the same value, and what is read back denotes this value. No payload holds a delimiter. Whole numbers
are accepted exactly within 64 bits, for `Xsd.int` within 32, and floating-point words exactly where
they are finite. -/
theorem payloads_ordered {c : LiteralCoding} (h : c ∈ standard) :
    (∀ {a b : String} {p q : Bytes}, c.encode a = .ok p → c.encode b = .ok q →
      ∃ m n, c.denoted? a = some m ∧ c.denoted? b = some n ∧
        (p < q ↔ m.Precedes n) ∧ (p = q ↔ m = n)) ∧
    ((Binary64.zero true).Precedes (.zero false) ∧
      ∀ x, ¬ ((Binary64.zero true).Precedes x ∧ x.Precedes (.zero false))) ∧
    (∀ {a : String} {p : Bytes}, c.encode a = .ok p → (∀ x ∈ p, 0x02 < x) ∧
      ∃ form m, c.decode p = .ok form ∧ c.denoted? a = some m ∧
        (valueSpace c.datatype).meaning? form = some m) ∧
    (∀ {a : String} {n : Int}, (valueSpace c.datatype).meaning? a = some (.whole n) →
      ((∃ p, c.encode a = .ok p) ↔
        if c.datatype = Xsd.int then -2 ^ 31 ≤ n ∧ n < 2 ^ 31 else -2 ^ 63 ≤ n ∧ n < 2 ^ 63)) ∧
    ∀ {a : String} {x : Binary64}, (valueSpace c.datatype).meaning? a = some (.binary x) →
      ((∃ p, c.encode a = .ok p) ↔ x.isFinite = true) := by
  have lawful := lawful_of_mem_standard h
  refine ⟨?order, Binary64.zeros_adjacent, ?back, accepts_iff_of_whole h,
    accepts_iff_of_binary h⟩
  case order =>
    intro a b p q ha hb
    obtain ⟨m, denoted, kept, rfl⟩ := payload_of_encode h ha
    obtain ⟨n, denoted', kept', rfl⟩ := payload_of_encode h hb
    refine ⟨m, n, denoted, denoted', Meaning.payload_lt_payload_iff kept kept', ?_⟩
    constructor
    · intro same
      obtain ⟨form, decoded⟩ := lawful.reads ha
      have read := denoted_of_decode h ha decoded denoted
      rw [same] at decoded
      exact Option.some.inj (read.symm.trans (denoted_of_decode h hb decoded denoted'))
    · intro same
      rw [same]
  case back =>
    intro a p ha
    obtain ⟨m, denoted, _, _⟩ := payload_of_encode h ha
    obtain ⟨form, decoded⟩ := lawful.reads ha
    refine ⟨fun x hx => (lawful.above ha x hx).1, form, m, decoded, denoted, ?_⟩
    exact denoted_of_decode h ha decoded denoted

/-- A tenth, stored as the word nearest to it, comes before a quarter. The negative zero is stored
before the positive one, and read back with its sign. -/
theorem payloads_ordered_doubles : double ∈ standard ∧
    (∃ p q x y, double.encode "0.1" = .ok p ∧ double.encode "0.25" = .ok q ∧ p < q ∧
      double.denoted? "0.1" = some (.binary x) ∧ double.denoted? "0.25" = some (.binary y) ∧
      x.Nearest (1 / 10) ∧ y.Nearest (1 / 4)) ∧
    ∃ p q, double.encode "-0.0" = .ok p ∧ double.encode "0" = .ok q ∧ p < q ∧ p ≠ q ∧
      ∃ form, double.decode p = .ok form ∧
        Binary64.ofText? form = some (.zero true) := by
  have mem : double ∈ standard := by simp [standard]
  obtain ⟨order, zeros, back, -, accepts⟩ := payloads_ordered mem
  refine ⟨mem, ?decimals, ?zeros⟩
  case decimals =>
    have means {s : String} {x : Binary64} (read : Binary64.ofText? s = some x) :
        (valueSpace double.datatype).meaning? s = some (.binary x) :=
      congrArg (Option.map Meaning.binary) read
    have denotes {s : String} {x : Binary64} (read : Binary64.ofText? s = some x) :
        double.denoted? s = some (.binary x) :=
      congrArg (Option.map Meaning.cut) (means read)
    obtain ⟨d, writes, number⟩ := @Decimal.exists_writes_behind_point ['1']
      (by simp [Numeral.AllDigits])
    obtain ⟨e, writes', number'⟩ := @Decimal.exists_writes_behind_point ['2', '5']
      (by simp [Numeral.AllDigits])
    obtain ⟨x, read, -, nearest⟩ := @Binary64.ofText?_nearest "0.1" d writes
    obtain ⟨y, read', -, nearest'⟩ := @Binary64.ofText?_nearest "0.25" e writes'
    have word : x = ⟨false, 0x3fb999999999999a, by decide⟩ :=
      Option.some.inj (read.symm.trans (by decide +kernel))
    have word' : y = ⟨false, 0x3fd0000000000000, by decide⟩ :=
      Option.some.inj (read'.symm.trans (by decide +kernel))
    have before : x.Precedes y := Binary64.rank_lt_rank_iff.1 (by rw [word, word']; decide)
    obtain ⟨p, encoded⟩ := (accepts (means read)).2 (word ▸ rfl)
    obtain ⟨q, encoded'⟩ := (accepts (means read')).2 (word' ▸ rfl)
    obtain ⟨m, n, denoted, denoted', less, -⟩ := order encoded encoded'
    obtain rfl := Option.some.inj ((denotes read).symm.trans denoted)
    obtain rfl := Option.some.inj ((denotes read').symm.trans denoted')
    have tenth : d.number = 1 / 10 := by
      rw [number, show Numeral.value ['1'] = 1 from rfl]
      norm_num
    have quarter : e.number = 1 / 4 := by
      rw [number', show Numeral.value ['2', '5'] = 25 from rfl]
      norm_num
    exact ⟨p, q, x, y, encoded, encoded', less.2 before, denoted, denoted', tenth ▸ nearest,
      quarter ▸ nearest'⟩
  case zeros =>
    have negative : double.encode "-0.0" = .ok (keyPayload (Binary64.zero true).sortKey) := rfl
    have positive : double.encode "0" = .ok (keyPayload (Binary64.zero false).sortKey) := rfl
    obtain ⟨m, n, denoted, denoted', less, same⟩ := order negative positive
    obtain rfl : Meaning.binary (.zero true) = m := Option.some.inj denoted
    obtain rfl : Meaning.binary (.zero false) = n := Option.some.inj denoted'
    obtain ⟨_, form, k, decoded, denoted, read⟩ := back negative
    obtain rfl : Meaning.binary (.zero true) = k := Option.some.inj denoted
    refine ⟨_, _, negative, positive, less.2 zeros.1, ?_, form, decoded, ?_⟩
    · rw [Ne, same]
      intro equal
      cases equal
    · exact ((space_of_meaning? read).2 _ rfl).2

end LiteralCoding

end QuadIndex
