import QuadIndex.Literal.Standard
import QuadIndex.Proofs.Number.Shortest
import QuadIndex.Proofs.Text.Utf8
import QuadIndex.Proofs.Time.Exact

/-!
# The codings of the XML Schema datatypes are lawful

A lawful coding writes payloads without delimiters, reads each of them back as one lexical form that
no other payload gives, and writes that form, where it takes it at all, as the same payload. All
codings of `standard` are lawful. Where one of them stores a value as a number, this comes from the
number being read back from its digits and from its lexical form.
-/

namespace QuadIndex.LiteralCoding

/-- What keys rely on in a coding. -/
structure Lawful (c : LiteralCoding) : Prop where
  above {lexical payload} : c.encode lexical = .ok payload →
    Bytes.Above Bytes.datatypeStart payload
  refuses {lexical e} : c.encode lexical = .error e → ∃ fault, e = .encoding fault
  reads {lexical payload} : c.encode lexical = .ok payload → ∃ form, c.decode payload = .ok form
  unique {lexical other payload stored form} : c.encode lexical = .ok payload →
    c.encode other = .ok stored → c.decode payload = .ok form → c.decode stored = .ok form →
    payload = stored
  stable {lexical payload form stored} : c.encode lexical = .ok payload →
    c.decode payload = .ok form → c.encode form = .ok stored → stored = payload

theorem string_lawful : string.Lawful where
  above h := (Plain.encode_eq_ok_iff.1 h).2
  refuses h := by
    obtain ⟨byte, offset, rfl⟩ := Plain.encode_eq_error h
    exact ⟨_, rfl⟩
  reads h := by
    rw [(Plain.encode_eq_ok_iff.1 h).1]
    exact ⟨_, Plain.decode_utf8 _ _⟩
  unique h h' d d' := by
    obtain ⟨rfl, _⟩ := Plain.encode_eq_ok_iff.1 h
    obtain ⟨rfl, _⟩ := Plain.encode_eq_ok_iff.1 h'
    have same := d.trans d'.symm
    simp only [string, Plain.decode_utf8, Except.ok.injEq] at same
    rw [same]
  stable h d h' := by
    obtain ⟨rfl, _⟩ := Plain.encode_eq_ok_iff.1 h
    simp only [string, Plain.decode_utf8, Except.ok.injEq] at d
    rw [d]
    exact (Plain.encode_eq_ok_iff.1 h').1

section

variable {key width n : Nat}

theorem above_digits (width n : Nat) : Bytes.Above Bytes.datatypeStart (Hex.digits width n) := by
  have digit : ∀ n : Fin 16, Bytes.datatypeStart < Hex.digit n ∧ Hex.digit n < 0xff := by decide
  induction width with
  | zero => exact .nil
  | succ width ih => exact .cons (digit ⟨_, Nat.mod_lt _ (by decide)⟩) ih

theorem payloadKey_keyPayload (h : key < 2 ^ 64) : payloadKey (keyPayload key) = .ok key := by
  have fits : key % 16 ^ 16 = key := Nat.mod_eq_of_lt h
  simp only [payloadKey, keyPayload, Hex.number?_digits, Hex.length_digits, fits, if_true]

theorem payloadInt_intPayload {n : Int} (low : Numeral.minInt64 ≤ n) (high : n ≤ Numeral.maxInt64) :
    payloadInt (intPayload n) = .ok n := by
  unfold Numeral.minInt64 at low
  unfold Numeral.maxInt64 at high
  rw [payloadInt, intPayload, payloadKey_keyPayload (by omega)]
  have : ((n + 2 ^ 63).toNat : Int) - 2 ^ 63 = n := by omega
  exact congrArg Except.ok this

end

section

variable {datatype : Iri} {marker : UInt8} {low high : Int} {lexical : String} {payload : Bytes}

theorem encode_wholeNumber
    (h : (wholeNumber datatype marker low high).encode lexical = .ok payload) :
    ∃ n, Numeral.int64? lexical = some n ∧ ¬ (n < low ∨ high < n) ∧ payload = intPayload n := by
  dsimp only [wholeNumber] at h
  split at h
  · cases h
  · next n read =>
    split at h
    · cases h
    · next inside =>
      cases h
      exact ⟨n, read, inside, rfl⟩

theorem decode_wholeNumber {n : Int} (h : Numeral.int64? lexical = some n) :
    (wholeNumber datatype marker low high).decode (intPayload n) = .ok (Numeral.ofInt n) := by
  obtain ⟨least, most⟩ := Numeral.bounds_of_int64? h
  simp only [wholeNumber, payloadInt_intPayload least most, Except.map]

theorem wholeNumber_lawful (datatype : Iri) (marker : UInt8) (low high : Int) :
    (wholeNumber datatype marker low high).Lawful where
  above h := by
    obtain ⟨n, _, _, rfl⟩ := encode_wholeNumber h
    exact above_digits _ _
  refuses h := by
    dsimp only [wholeNumber] at h
    split at h
    · cases h
      exact ⟨_, rfl⟩
    · split at h <;> cases h
      exact ⟨_, rfl⟩
  reads h := by
    obtain ⟨n, read, _, rfl⟩ := encode_wholeNumber h
    exact ⟨_, decode_wholeNumber read⟩
  unique h h' d d' := by
    obtain ⟨n, read, _, rfl⟩ := encode_wholeNumber h
    obtain ⟨m, read', _, rfl⟩ := encode_wholeNumber h'
    rw [decode_wholeNumber read] at d
    rw [decode_wholeNumber read', ← d, Except.ok.injEq] at d'
    obtain ⟨least, most⟩ := Numeral.bounds_of_int64? read
    obtain ⟨least', most'⟩ := Numeral.bounds_of_int64? read'
    have same := congrArg Numeral.int64? d'
    rw [Numeral.int64?_ofInt least most, Numeral.int64?_ofInt least' most',
      Option.some.injEq] at same
    rw [same]
  stable h d h' := by
    obtain ⟨n, read, _, rfl⟩ := encode_wholeNumber h
    rw [decode_wholeNumber read, Except.ok.injEq] at d
    obtain ⟨m, read', _, rfl⟩ := encode_wholeNumber h'
    obtain ⟨least, most⟩ := Numeral.bounds_of_int64? read
    rw [← d, Numeral.int64?_ofInt least most, Option.some.injEq] at read'
    rw [read']

theorem encode_floating (h : (floating datatype marker).encode lexical = .ok payload) :
    ∃ x, Binary64.ofText? lexical = some x ∧ x.isFinite = true ∧
      payload = keyPayload x.sortKey := by
  dsimp only [floating] at h
  split at h
  · cases h
  · next x read =>
    split at h
    · next finite =>
      cases h
      exact ⟨x, read, finite, rfl⟩
    · cases h

theorem decode_floating (x : Binary64) :
    (floating datatype marker).decode (keyPayload x.sortKey) = .ok x.toText := by
  simp only [floating, payloadKey_keyPayload x.sortKey_lt, Except.map, Binary64.ofSortKey_sortKey]

theorem floating_lawful (datatype : Iri) (marker : UInt8) : (floating datatype marker).Lawful where
  above h := by
    obtain ⟨x, _, _, rfl⟩ := encode_floating h
    exact above_digits _ _
  refuses h := by
    dsimp only [floating] at h
    split at h
    · cases h
      exact ⟨_, rfl⟩
    · split at h <;> cases h
      exact ⟨_, rfl⟩
  reads h := by
    obtain ⟨x, _, _, rfl⟩ := encode_floating h
    exact ⟨_, decode_floating x⟩
  unique h h' d d' := by
    obtain ⟨x, _, finite, rfl⟩ := encode_floating h
    obtain ⟨y, _, finite', rfl⟩ := encode_floating h'
    rw [decode_floating x] at d
    rw [decode_floating y, ← d, Except.ok.injEq] at d'
    have same := congrArg Binary64.ofText? d'
    rw [Binary64.ofText?_toText finite, Binary64.ofText?_toText finite', Option.some.injEq] at same
    rw [same]
  stable h d h' := by
    obtain ⟨x, _, finite, rfl⟩ := encode_floating h
    rw [decode_floating x, Except.ok.injEq] at d
    obtain ⟨y, read, _, rfl⟩ := encode_floating h'
    rw [← d, Binary64.ofText?_toText finite, Option.some.injEq] at read
    rw [read]

end

theorem boolean_lawful : boolean.Lawful := by
  have payloads {lexical payload} (h : boolean.encode lexical = .ok payload) :
      payload = [0x31] ∨ payload = [0x30] := by
    dsimp only [boolean] at h
    split at h
    · cases h
      exact .inl rfl
    · split at h <;> cases h
      exact .inr rfl
  constructor
  case above =>
    intro lexical payload h x hx
    rcases payloads h with rfl | rfl
    · obtain rfl := List.mem_singleton.1 hx
      decide
    · obtain rfl := List.mem_singleton.1 hx
      decide
  case refuses =>
    intro lexical e h
    dsimp only [boolean] at h
    split at h
    · cases h
    · split at h <;> cases h
      exact ⟨_, rfl⟩
  case reads =>
    intro lexical payload h
    rcases payloads h with rfl | rfl
    · exact ⟨"true", rfl⟩
    · exact ⟨"false", rfl⟩
  case unique =>
    intro lexical other payload stored form h h' d d'
    have same := d.trans d'.symm
    rcases payloads h with rfl | rfl <;> rcases payloads h' with rfl | rfl
    · rfl
    · exact absurd same (by simp [boolean])
    · exact absurd same (by simp [boolean])
    · rfl
  case stable =>
    intro lexical payload form stored h d h'
    rcases payloads h with rfl | rfl
    · have : form = "true" := (Except.ok.inj d).symm
      subst this
      exact (Except.ok.inj h').symm
    · have : form = "false" := (Except.ok.inj d).symm
      subst this
      exact (Except.ok.inj h').symm

section

variable {lexical form : String} {payload : Bytes}

theorem encode_dateTime (h : dateTime.encode lexical = .ok payload) :
    ∃ t, Instant.ofText? lexical = some t ∧ payload = intPayload t.millis := by
  dsimp only [dateTime] at h
  split at h
  · cases h
  · next t read =>
    cases h
    exact ⟨t, read, rfl⟩

theorem decode_dateTime {t : Instant} (h : Instant.ofText? lexical = some t) :
    dateTime.decode (intPayload t.millis) = .ok form ↔ t.toText? = some form := by
  obtain ⟨least, most⟩ := Instant.int64_of_ofText? h
  obtain ⟨text, printed⟩ := Instant.toText?_of_ofText? h
  simp only [dateTime, payloadInt_intPayload least most, bind, Except.bind, printed,
    Except.ok.injEq, Option.some.injEq]

theorem dateTime_lawful : dateTime.Lawful where
  above h := by
    obtain ⟨t, _, rfl⟩ := encode_dateTime h
    exact above_digits _ _
  refuses h := by
    dsimp only [dateTime] at h
    split at h <;> cases h
    exact ⟨_, rfl⟩
  reads h := by
    obtain ⟨t, read, rfl⟩ := encode_dateTime h
    obtain ⟨text, printed⟩ := Instant.toText?_of_ofText? read
    exact ⟨text, (decode_dateTime read).2 printed⟩
  unique h h' d d' := by
    obtain ⟨t, read, rfl⟩ := encode_dateTime h
    obtain ⟨u, read', rfl⟩ := encode_dateTime h'
    rw [Instant.toText?_injective ((decode_dateTime read).1 d) ((decode_dateTime read').1 d')]
  stable h d h' := by
    obtain ⟨t, read, rfl⟩ := encode_dateTime h
    obtain ⟨u, read', rfl⟩ := encode_dateTime h'
    rw [Instant.eq_of_toText? ((decode_dateTime read).1 d) read']

end

theorem lawful_of_mem_standard {c : LiteralCoding} (h : c ∈ standard) : c.Lawful := by
  simp only [standard, List.mem_cons, List.not_mem_nil, or_false] at h
  rcases h with rfl | rfl | rfl | rfl | rfl | rfl | rfl | rfl
  · exact string_lawful
  · exact wholeNumber_lawful _ _ _ _
  · exact wholeNumber_lawful _ _ _ _
  · exact wholeNumber_lawful _ _ _ _
  · exact floating_lawful _ _
  · exact floating_lawful _ _
  · exact boolean_lawful
  · exact dateTime_lawful

end QuadIndex.LiteralCoding
