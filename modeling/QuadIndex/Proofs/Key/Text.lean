import QuadIndex.Proofs.Key.Quad

/-!
# Stored quads are texts

Under the standard codings all parts of a stored quad are spelled by characters: IRIs and lexical
forms are texts, numbers are written in digits, and markers are ASCII. So is the storage key, in
which the characters of the parts stand between those of the delimiters (`Spells.key`).
-/

namespace QuadIndex

open Bytes Text

/-- Every byte is a hexadecimal digit. -/
def Bytes.Hexadecimal (bs : Bytes) : Prop := ∀ b ∈ bs, ∃ n < 16, b = Hex.digit n

namespace Bytes.Hexadecimal

variable {bs : Bytes}

theorem digits (width n : Nat) : Hexadecimal (Hex.digits width n) := by
  induction width with
  | zero => exact fun b mem => by cases mem
  | succ width ih =>
    exact List.forall_mem_cons.2 ⟨⟨_, Nat.mod_lt _ (by decide), rfl⟩, ih⟩

theorem encode (bs : Bytes) : Hexadecimal (Hex.encode bs) := by
  intro b mem
  obtain ⟨x, _, mem⟩ := List.mem_flatMap.1 mem
  exact digits 2 x.toNat b mem

/-- Digits are ASCII. -/
theorem lt (h : Hexadecimal bs) {b : UInt8} (mem : b ∈ bs) : b < 0x80 := by
  have all : ∀ n : Fin 16, Hex.digit n < 0x80 := by decide
  obtain ⟨n, small, rfl⟩ := h b mem
  exact all ⟨n, small⟩

/-- Digits are spelled by the characters of the same names. -/
theorem between (h : Hexadecimal bs) : ∀ c ∈ bs.map fun b => Char.ofNat b.toNat,
    ('0' ≤ c ∧ c ≤ '9') ∨ ('a' ≤ c ∧ c ≤ 'f') := by
  have all : ∀ n : Fin 16, ('0' ≤ Char.ofNat (Hex.digit n).toNat ∧
      Char.ofNat (Hex.digit n).toNat ≤ '9') ∨ ('a' ≤ Char.ofNat (Hex.digit n).toNat ∧
      Char.ofNat (Hex.digit n).toNat ≤ 'f') := by decide
  intro c mem
  obtain ⟨b, within, rfl⟩ := List.mem_map.1 mem
  obtain ⟨n, small, rfl⟩ := h b within
  exact all ⟨n, small⟩

end Bytes.Hexadecimal

/-- All fingerprints are written in digits. -/
def Fingerprint.Hexadecimal (fingerprint : Fingerprint) : Prop :=
  ∀ bs, (fingerprint.apply bs).Hexadecimal

theorem Fingerprint.standard_hexadecimal : Fingerprint.standard.Hexadecimal :=
  fun _ => Bytes.Hexadecimal.encode _

/-- The markers are ASCII, and payloads are spelled by characters. -/
structure Registry.Textual (r : Registry) : Prop where
  marker {c} : c ∈ r.codings → c.marker < 0x80
  payload {c lexical payload} : c ∈ r.codings → c.encode lexical = .ok payload →
    ∃ cs, spell cs = payload

namespace LiteralCoding

variable {lexical : String} {payload : Bytes}

theorem keyPayload_textual (key : Nat) : ∃ cs, spell cs = keyPayload key :=
  ⟨_, spell_ascii fun _ mem => (Bytes.Hexadecimal.digits 16 key).lt mem⟩

theorem boolean_textual (h : boolean.encode lexical = .ok payload) : ∃ cs, spell cs = payload := by
  dsimp only [boolean] at h
  split at h
  · cases h
    exact ⟨['1'], rfl⟩
  · split at h <;> cases h
    exact ⟨['0'], rfl⟩

end LiteralCoding

theorem Registry.standard_textual : standard.Textual := by
  constructor
  · intro c mem
    simp only [standard, LiteralCoding.standard, List.mem_cons, List.not_mem_nil, or_false] at mem
    rcases mem with rfl | rfl | rfl | rfl | rfl | rfl | rfl | rfl <;> decide
  · intro c lexical payload mem encoded
    have whole {datatype : Iri} {marker : UInt8} {low high : Int}
        (h : (LiteralCoding.wholeNumber datatype marker low high).encode lexical = .ok payload) :
        ∃ cs, spell cs = payload := by
      obtain ⟨n, _, _, rfl⟩ := LiteralCoding.encode_wholeNumber h
      exact LiteralCoding.keyPayload_textual _
    have floating {datatype : Iri} {marker : UInt8}
        (h : (LiteralCoding.floating datatype marker).encode lexical = .ok payload) :
        ∃ cs, spell cs = payload := by
      obtain ⟨x, _, _, rfl⟩ := LiteralCoding.encode_floating h
      exact LiteralCoding.keyPayload_textual _
    simp only [standard, LiteralCoding.standard, List.mem_cons, List.not_mem_nil, or_false] at mem
    rcases mem with rfl | rfl | rfl | rfl | rfl | rfl | rfl | rfl
    · exact ⟨_, (utf8_eq_spell lexical).symm.trans (Plain.encode_eq_ok_iff.1 encoded).1.symm⟩
    · exact whole encoded
    · exact whole encoded
    · exact whole encoded
    · exact floating encoded
    · exact floating encoded
    · exact LiteralCoding.boolean_textual encoded
    · obtain ⟨t, _, rfl⟩ := LiteralCoding.encode_dateTime encoded
      exact LiteralCoding.keyPayload_textual _

/-- Characters that spell bytes above the delimiters of keys are none of these. -/
theorem Text.clear_of_above {cs : List Char} {bs : Bytes} (spelled : spell cs = bs)
    (above : Above cellEnd bs) : ∀ c ∈ cs, c ≠ '\x00' ∧ c ≠ '\x01' := by
  intro c mem
  have within {x : UInt8} (byte : x ∈ String.utf8EncodeChar c) : cellEnd < x :=
    (above x (spelled ▸ List.mem_flatMap.2 ⟨c, mem, byte⟩)).1
  constructor
  · rintro rfl
    exact absurd (@within 0x00 (by decide)) (by decide)
  · rintro rfl
    exact absurd (@within 0x01 (by decide)) (by decide)

/-- The characters of the parts of a quad. -/
structure QuadText where
  components : Triple (List Char)
  family : List Char

namespace QuadText

/-- The characters spell the bytes, and those of the object begin with an ASCII marker. -/
structure Spells (t : QuadText) (b : QuadBytes) : Prop where
  component (i : Position) : spell (t.components.at i) = b.components.at i
  marker : ∃ (m : UInt8) (cs : List Char), m < 0x80 ∧ t.components.object = Char.ofNat m.toNat :: cs
  family : spell t.family = b.family

/-- The text of a storage key with the given fingerprint. -/
def key (t : QuadText) (lead : List Char) (f : RowForm) : List Char :=
  lead ++ (t.components.at f.layout.order.1 ++ '\x00' :: (t.components.at f.layout.order.2.1 ++
    '\x00' :: (t.components.at f.layout.order.2.2 ++ '\x01' :: (t.family ++ ['\x01']))))

namespace Spells

variable {t : QuadText} {b : QuadBytes} {fingerprint : Fingerprint} {f : RowForm}

/-- No character of a part is a delimiter. -/
theorem clear (h : t.Spells b) (delimited : b.Delimited) :
    (∀ i, ∀ c ∈ t.components.at i, c ≠ '\x00' ∧ c ≠ '\x01') ∧
      ∀ c ∈ t.family, c ≠ '\x00' ∧ c ≠ '\x01' :=
  ⟨fun i => clear_of_above (h.component i) (delimited.component i),
    clear_of_above h.family delimited.family⟩

/-- The storage key is spelled by the text of the key. -/
theorem key (h : t.Spells b) (fingerprint : Fingerprint) {lead : List Char} (f : RowForm)
    (leads : spell lead =
      if f.hashed then fingerprint.apply (b.components.at f.layout.order.1) else []) :
    spell (t.key lead f) = b.key fingerprint f := by
  have nul : String.utf8EncodeChar '\x00' = [componentEnd] := by decide
  have heading : String.utf8EncodeChar '\x01' = [cellEnd] := by decide
  simp only [QuadText.key, QuadBytes.key_eq, spell_append, spell_cons, leads, h.component, h.family,
    nul, heading, List.singleton_append]
  rfl

end Spells

end QuadText

/-- The bytes of a value are a marker and a text if its payload is a text. -/
theorem Registry.Stored.exists_spell {r : Registry} {v : Value} {bs : Bytes} (h : r.Stored v bs)
    (payloads : ∀ c ∈ r.codings, ∀ lexical payload, v = .literal c.datatype lexical →
      c.encode lexical = .ok payload → ∃ cs, spell cs = payload) :
    ∃ (m : UInt8) (cs : List Char), bs = m :: spell cs ∧
      (m = iriMarker ∨ m = customMarker ∨ ∃ c ∈ r.codings, m = c.marker) := by
  cases h with
  | iri above => exact ⟨iriMarker, _, congrArg _ (utf8_eq_spell _), .inl rfl⟩
  | @coded c lexical payload mem encoded =>
    obtain ⟨cs, rfl⟩ := payloads c mem lexical payload rfl encoded
    exact ⟨_, cs, rfl, .inr (.inr ⟨c, mem, rfl⟩)⟩
  | @custom datatype lexical unknown form name =>
    refine ⟨customMarker, lexical.toList ++ '\x02' :: datatype.text.toList, ?_, .inr (.inl rfl)⟩
    rw [spell_append, spell_cons, ← utf8_eq_spell, ← utf8_eq_spell]
    rfl

/-- The characters spell the parts beside the object, without delimiters. -/
structure QuadBytes.SpelledBeside (b : QuadBytes) (subject predicate family : List Char) : Prop where
  clearSubject : ∀ c ∈ subject, c ≠ '\x00' ∧ c ≠ '\x01'
  clearPredicate : ∀ c ∈ predicate, c ≠ '\x00' ∧ c ≠ '\x01'
  subject : spell subject = b.components.subject
  predicate : spell predicate = b.components.predicate
  family : spell family = b.family

namespace Codec

variable {c : Codec} {b : QuadBytes}

/-- Under any codings the parts beside the object are texts. -/
theorem spelledBeside_of_bytes {q : Quad} (h : c.bytes q = .ok b) :
    ∃ family, b.SpelledBeside q.subject.text.toList q.predicate.text.toList family := by
  obtain ⟨subject, predicate, _, context⟩ := bytes_eq_ok_iff.1 h
  obtain ⟨subject, aboveSubject⟩ := Iri.encode_eq_ok_iff.1 subject
  obtain ⟨predicate, abovePredicate⟩ := Iri.encode_eq_ok_iff.1 predicate
  have family : ∃ cs, spell cs = b.family := by
    rcases family_eq_ok context with ⟨_, none⟩ | ⟨i, _, _, named, _⟩
    · exact ⟨[], none.symm⟩
    · exact ⟨_, (utf8_eq_spell _).symm.trans named.symm⟩
  rw [utf8_eq_spell] at subject predicate
  obtain ⟨family, spelled⟩ := family
  exact ⟨family, {
    clearSubject := clear_of_above subject.symm (aboveSubject.mono (by decide))
    clearPredicate := clear_of_above predicate.symm (abovePredicate.mono (by decide))
    subject := subject.symm
    predicate := predicate.symm
    family := spelled }⟩

/-- A quad whose object is an ASCII marker and a text is a text. -/
theorem exists_spells {q : Quad} (h : c.bytes q = .ok b) {m : UInt8} {cs : List Char}
    (ascii : m < 0x80) (object : b.components.object = m :: spell cs) :
    ∃ t : QuadText, t.Spells b := by
  obtain ⟨family, beside⟩ := spelledBeside_of_bytes h
  refine ⟨⟨⟨q.subject.text.toList, q.predicate.text.toList, Char.ofNat m.toNat :: cs⟩, family⟩,
    fun i => ?_, ⟨m, cs, ascii, rfl⟩, beside.family⟩
  cases i with
  | subject => exact beside.subject
  | predicate => exact beside.predicate
  | object =>
    change spell (Char.ofNat m.toNat :: cs) = b.components.object
    rw [spell_cons, utf8EncodeChar_ascii ascii, object, List.singleton_append]

/-- Every stored quad is a text. -/
theorem StoredAs.exists_text (textual : c.registry.Textual) {w : Quad} (h : c.StoredAs w b) :
    ∃ t : QuadText, t.Spells b := by
  obtain ⟨source, encoded, _⟩ := h
  obtain ⟨_, _, object, _⟩ := bytes_eq_ok_iff.1 encoded
  obtain ⟨m, cs, value, known⟩ := (Registry.stored_of_encode object).exists_spell
    fun _ mem _ _ _ encoded => textual.payload mem encoded
  have ascii : m < 0x80 := by
    rcases known with rfl | rfl | ⟨c, mem, rfl⟩
    · decide
    · decide
    · exact textual.marker mem
  exact exists_spells encoded ascii value

end Codec

end QuadIndex
