import QuadIndex.Key.Component
import QuadIndex.Proofs.Literal.Lawful
import QuadIndex.Proofs.Result

/-!
# Components are delimited, and read back

The bytes of an object value hold no delimiter but the one before a datatype, and begin with a marker
that says how the rest is read. So they are read back as the canonical form of the value, no other
bytes are read back as that form, and where it has bytes itself they are the same.
-/

namespace QuadIndex

open Bytes Result

theorem Iri.encode_eq_ok_iff {i : Iri} {bs : Bytes} :
    i.encode = .ok bs ↔ bs = Text.utf8 i.text ∧ Above datatypeStart bs := Plain.encode_eq_ok_iff

theorem Iri.encode_injective {i j : Iri} {bs : Bytes} (hi : i.encode = .ok bs)
    (hj : j.encode = .ok bs) : i = j := by
  have texts := (Iri.encode_eq_ok_iff.1 hi).1.symm.trans (Iri.encode_eq_ok_iff.1 hj).1
  exact congrArg Iri.mk (Text.utf8_injective texts)

theorem Iri.encode_eq_error {i : Iri} {e : Error} (h : i.encode = .error e) :
    ∃ fault, e = .encoding fault := by
  obtain ⟨byte, offset, rfl⟩ := Plain.encode_eq_error h
  exact ⟨_, rfl⟩

namespace Registry

/-- What keys rely on in the codings of a registry. -/
structure Lawful (r : Registry) : Prop where
  coding {c} : c ∈ r.codings → c.Lawful
  free {c} : c ∈ r.codings → isReserved c.marker = false
  forMarker {c} : c ∈ r.codings → r.forMarker? c.marker = some c
  forDatatype {c} : c ∈ r.codings → r.forDatatype? c.datatype = some c

theorem standard_lawful : standard.Lawful := by
  have each {P : LiteralCoding → Prop} (string : P .string) (integer : P .integer) (long : P .long)
      (int : P .int) (double : P .double) (float : P .float) (boolean : P .boolean)
      (dateTime : P .dateTime) {c : LiteralCoding} (h : c ∈ standard.codings) : P c := by
    simp only [standard, LiteralCoding.standard, List.mem_cons, List.not_mem_nil, or_false] at h
    rcases h with rfl | rfl | rfl | rfl | rfl | rfl | rfl | rfl <;> assumption
  exact {
    coding := LiteralCoding.lawful_of_mem_standard
    free := each (P := fun c => isReserved c.marker = false) rfl rfl rfl rfl rfl rfl rfl rfl
    forMarker := each (P := fun c => standard.forMarker? c.marker = some c)
      rfl rfl rfl rfl rfl rfl rfl rfl
    forDatatype := each (P := fun c => standard.forDatatype? c.datatype = some c)
      rfl rfl rfl rfl rfl rfl rfl rfl }

variable {r : Registry} {v w : Value} {bs cs : Bytes}

/-- The bytes that a value may have: those of an IRI, those of a coding, or a literal in full. -/
inductive Stored (r : Registry) : Value → Bytes → Prop
  | iri {i : Iri} : Above datatypeStart (Text.utf8 i.text) →
    Stored r (.iri i) (iriMarker :: Text.utf8 i.text)
  | coded {c : LiteralCoding} {lexical payload} : c ∈ r.codings →
    c.encode lexical = .ok payload → Stored r (.literal c.datatype lexical) (c.marker :: payload)
  | custom {datatype : Iri} {lexical} : r.forDatatype? datatype = none →
    Above datatypeStart (Text.utf8 lexical) → Above datatypeStart (Text.utf8 datatype.text) →
    Stored r (.literal datatype lexical)
      (customMarker :: (Text.utf8 lexical ++ datatypeStart :: Text.utf8 datatype.text))

theorem Stored.ne_nil (h : r.Stored v bs) : bs ≠ [] := by
  cases h <;> exact List.cons_ne_nil _ _

theorem forDatatype?_eq_some {datatype : Iri} {c : LiteralCoding}
    (h : r.forDatatype? datatype = some c) : c ∈ r.codings ∧ c.datatype = datatype :=
  ⟨List.mem_of_find?_eq_some h, by simpa using List.find?_some h⟩

/-- A datatype has one coding. -/
theorem coding_inj (lawful : r.Lawful) {c d : LiteralCoding} (mem : c ∈ r.codings)
    (mem' : d ∈ r.codings) (same : c.datatype = d.datatype) : c = d := by
  have found := lawful.forDatatype mem
  rw [same, lawful.forDatatype mem'] at found
  exact (Option.some.inj found).symm

theorem encode_coded (lawful : r.Lawful) {c : LiteralCoding} (mem : c ∈ r.codings) (lexical : String) :
    r.encode (.literal c.datatype lexical) = (c.encode lexical).map (c.marker :: ·) := by
  simp only [encode, lawful.forDatatype mem]
  cases c.encode lexical <;> rfl

theorem stored_of_encode (h : r.encode v = .ok bs) : r.Stored v bs := by
  cases v with
  | iri i =>
    obtain ⟨_, h, same⟩ := bind_eq_ok_iff.1 h
    obtain ⟨rfl, above⟩ := Iri.encode_eq_ok_iff.1 h
    cases same
    exact .iri above
  | literal datatype lexical =>
    simp only [encode] at h
    cases found : r.forDatatype? datatype with
    | some c =>
      obtain ⟨mem, rfl⟩ := forDatatype?_eq_some found
      rw [found] at h
      obtain ⟨payload, encoded, same⟩ := bind_eq_ok_iff.1 h
      cases same
      exact .coded mem encoded
    | none =>
      rw [found] at h
      obtain ⟨_, form, h⟩ := bind_eq_ok_iff.1 h
      obtain ⟨_, name, same⟩ := bind_eq_ok_iff.1 h
      obtain ⟨rfl, form⟩ := Plain.encode_eq_ok_iff.1 form
      obtain ⟨rfl, name⟩ := Plain.encode_eq_ok_iff.1 name
      cases same
      exact .custom found form name

theorem encode_eq_error (lawful : r.Lawful) {e : Error} (h : r.encode v = .error e) :
    ∃ fault, e = .encoding fault := by
  have plain {role : TextRole} {s : String} (h : Plain.encode role s = .error e) :
      ∃ fault, e = .encoding fault := by
    obtain ⟨byte, offset, rfl⟩ := Plain.encode_eq_error h
    exact ⟨_, rfl⟩
  cases v with
  | iri i =>
    rcases bind_eq_error_iff.1 h with h | ⟨_, _, h⟩
    · exact plain h
    · cases h
  | literal datatype lexical =>
    simp only [encode] at h
    split at h
    · next c found =>
      rcases bind_eq_error_iff.1 h with h | ⟨_, _, h⟩
      · exact (lawful.coding (forDatatype?_eq_some found).1).refuses h
      · cases h
    · rcases bind_eq_error_iff.1 h with h | ⟨_, _, h⟩
      · exact plain h
      · rcases bind_eq_error_iff.1 h with h | ⟨_, _, h⟩
        · exact plain h
        · cases h

/-- A marker that codings may have is neither a delimiter nor 0xff. -/
theorem marker_bounds {marker : UInt8} (free : isReserved marker = false) :
    datatypeStart < marker ∧ marker < 0xff := by
  simp only [isReserved, isDelimiter, Bool.or_eq_false_iff, decide_eq_false_iff_not,
    beq_eq_false_iff_ne] at free
  refine ⟨UInt8.not_le.1 free.1.1.1, ?_⟩
  have := marker.toNat_lt
  have apart : marker.toNat ≠ 255 := fun same => free.2 (UInt8.toNat_inj.1 same)
  rw [UInt8.lt_iff_toNat_lt]
  have : (0xff : UInt8).toNat = 255 := rfl
  omega

/-- Nor is it the marker of IRIs or of literals in full. -/
theorem marker_ne {marker : UInt8} (free : isReserved marker = false) :
    marker ≠ iriMarker ∧ marker ≠ customMarker := by
  simp only [isReserved, Bool.or_eq_false_iff, beq_eq_false_iff_ne] at free
  exact ⟨free.1.1.2, free.1.2⟩

/-- Stored bytes hold no delimiter of cells or of components if no payload does. -/
theorem Stored.above (free : ∀ c ∈ r.codings, isReserved c.marker = false) (h : r.Stored v bs)
    (payloads : ∀ c ∈ r.codings, ∀ lexical payload, v = .literal c.datatype lexical →
      c.encode lexical = .ok payload → Above datatypeStart payload) : Above cellEnd bs := by
  have delimiter : cellEnd ≤ datatypeStart := by decide
  cases h with
  | iri above => exact .cons (by decide) (above.mono delimiter)
  | @coded c lexical payload mem h =>
    obtain ⟨low, high⟩ := marker_bounds (free c mem)
    exact .cons ⟨UInt8.lt_of_le_of_lt delimiter low, high⟩
      ((payloads c mem lexical payload rfl h).mono delimiter)
  | custom _ form name =>
    exact .cons (by decide) ((form.mono delimiter).append
      (.cons (by decide) (name.mono delimiter)))

theorem above_of_stored (lawful : r.Lawful) (h : r.Stored v bs) : Above cellEnd bs :=
  h.above (fun _ mem => lawful.free mem) fun _ mem _ _ _ encoded =>
    (lawful.coding mem).above encoded

section

variable {c : LiteralCoding} {payload : Bytes}

theorem decode_iri (r : Registry) (i : Iri) :
    r.decode (iriMarker :: Text.utf8 i.text) = .ok (.iri i) := by
  simp only [decode, if_true, Plain.decode_utf8, bind, Except.bind, pure, Except.pure]

/-- Behind a marker that codings may have, the coding with this marker reads the rest. -/
theorem decode_marked (free : isReserved c.marker = false) (found : r.forMarker? c.marker = some c)
    (payload : Bytes) :
    r.decode (c.marker :: payload) = (c.decode payload).map (.literal c.datatype) := by
  obtain ⟨iri, custom⟩ := marker_ne free
  simp only [decode, if_neg iri, if_neg custom, found]
  cases c.decode payload <;> rfl

theorem decode_coded (lawful : r.Lawful) (mem : c ∈ r.codings) (payload : Bytes) :
    r.decode (c.marker :: payload) = (c.decode payload).map (.literal c.datatype) :=
  decode_marked (lawful.free mem) (lawful.forMarker mem) payload

theorem decode_custom {datatype : Iri} {lexical : String}
    (form : Above datatypeStart (Text.utf8 lexical)) :
    r.decode (customMarker :: (Text.utf8 lexical ++ datatypeStart :: Text.utf8 datatype.text)) =
      .ok (.literal datatype lexical) := by
  have other : customMarker ≠ iriMarker := by decide
  have clear : datatypeStart ∉ Text.utf8 lexical := form.not_mem (by decide)
  simp only [decode, if_neg other, if_true, cut?_append clear, Plain.decode_utf8, bind, Except.bind,
    pure, Except.pure]

end

/-- Stored bytes are read back. -/
theorem decode_of_stored (lawful : r.Lawful) (h : r.Stored v bs) : ∃ w, r.decode bs = .ok w := by
  cases h with
  | iri => exact ⟨_, decode_iri r _⟩
  | coded mem h =>
    obtain ⟨form, read⟩ := (lawful.coding mem).reads h
    rw [decode_coded lawful mem, read]
    exact ⟨_, rfl⟩
  | custom _ form => exact ⟨_, decode_custom form⟩

/-- What stored bytes are read back as tells which kind they are of. -/
theorem decode_cases (lawful : r.Lawful) (h : r.Stored v bs) (read : r.decode bs = .ok w) :
    (∃ i, w = .iri i ∧ bs = iriMarker :: Text.utf8 i.text) ∨
    (∃ c ∈ r.codings, ∃ lexical payload form, w = .literal c.datatype form ∧
      c.encode lexical = .ok payload ∧ c.decode payload = .ok form ∧ bs = c.marker :: payload) ∨
    (∃ datatype lexical, w = .literal datatype lexical ∧ r.forDatatype? datatype = none ∧
      bs = customMarker :: (Text.utf8 lexical ++ datatypeStart :: Text.utf8 datatype.text)) := by
  cases h with
  | @iri i =>
    rw [decode_iri] at read
    cases read
    exact .inl ⟨i, rfl, rfl⟩
  | @coded c lexical payload mem h =>
    rw [decode_coded lawful mem] at read
    cases form : c.decode payload with
    | error e =>
      rw [form] at read
      cases read
    | ok text =>
      rw [form] at read
      cases read
      exact .inr (.inl ⟨c, mem, lexical, payload, text, rfl, h, form, rfl⟩)
  | @custom datatype lexical unknown form =>
    rw [decode_custom form] at read
    cases read
    exact .inr (.inr ⟨datatype, lexical, rfl, unknown, rfl⟩)

/-- No two stored byte strings are read back as the same value. -/
theorem eq_of_decode (lawful : r.Lawful) {u x : Value} (hv : r.Stored v bs) (hu : r.Stored u cs)
    (read : r.decode bs = .ok x) (read' : r.decode cs = .ok x) : bs = cs := by
  rcases decode_cases lawful hv read with ⟨i, rfl, rfl⟩ |
    ⟨c, mem, lexical, payload, form, rfl, encoded, decoded, rfl⟩ |
    ⟨datatype, lexical, rfl, unknown, rfl⟩
  · rcases decode_cases lawful hu read' with ⟨j, same, rfl⟩ | ⟨_, _, _, _, _, same, _⟩ |
      ⟨_, _, same, _⟩ <;> cases same
    rfl
  · rcases decode_cases lawful hu read' with ⟨j, same, _⟩ |
      ⟨d, mem', _, _, _, same, encoded', decoded', rfl⟩ | ⟨_, _, same, unknown, _⟩
    · cases same
    · obtain ⟨datatype, rfl⟩ := Value.literal.inj same
      obtain rfl := coding_inj lawful mem mem' datatype
      rw [(lawful.coding mem).unique encoded encoded' decoded decoded']
    · obtain ⟨rfl, _⟩ := Value.literal.inj same
      cases (lawful.forDatatype mem).symm.trans unknown
  · rcases decode_cases lawful hu read' with ⟨j, same, _⟩ |
      ⟨d, mem', _, _, _, same, _⟩ | ⟨_, _, same, _, rfl⟩
    · cases same
    · obtain ⟨rfl, _⟩ := Value.literal.inj same
      cases (lawful.forDatatype mem').symm.trans unknown
    · cases same
      rfl

/-- Where a value that was read back has bytes, they are those that it was read from. -/
theorem stable_of_decode (lawful : r.Lawful) (h : r.Stored v bs) (read : r.decode bs = .ok w)
    (again : r.Stored w cs) : cs = bs := by
  cases again with
  | @iri i =>
    exact eq_of_decode lawful (.iri ‹_›) h (decode_iri r i) read
  | @custom datatype lexical unknown form name =>
    exact eq_of_decode lawful (.custom unknown form name) h (decode_custom form) read
  | @coded c lexical payload mem encoded =>
    rcases decode_cases lawful h read with ⟨j, same, _⟩ |
      ⟨d, mem', _, _, _, same, encoded', decoded', rfl⟩ | ⟨_, _, same, unknown, _⟩
    · cases same
    · obtain ⟨datatype, rfl⟩ := Value.literal.inj same
      obtain rfl := coding_inj lawful mem mem' datatype
      rw [(lawful.coding mem).stable encoded' decoded' encoded]
    · obtain ⟨rfl, _⟩ := Value.literal.inj same
      cases (lawful.forDatatype mem).symm.trans unknown

end Registry

end QuadIndex
