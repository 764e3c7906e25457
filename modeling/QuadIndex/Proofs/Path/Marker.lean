import QuadIndex.Proofs.Key.Registered
import QuadIndex.Proofs.Path.Verbatim

/-!
# Markers in expressions over keys

A marker is one byte of a key, and an expression over keys asks for the character of its number. Up
to 0x7f the character is written as that byte, so the expression matches the keys of the objects
behind the marker. From 0x80 on the character takes two bytes; and a key in which the byte stands
before a text is no text, so no expression over keys matches it (`isMatch_key_of_high`), whatever it
asks of the other positions.
-/

namespace QuadIndex

open Bytes Text

/-! ## Payloads that are texts -/

/-- All payloads are texts without delimiters. -/
def LiteralCoding.WritesText (c : LiteralCoding) : Prop :=
  ∀ lexical payload, c.encode lexical = .ok payload →
    ∃ s, utf8 s = payload ∧ ∀ b ∈ payload, isDelimiter b = false

/-- A coding that the value is stored by has payloads that are texts. -/
def Registry.WritesText (r : Registry) (v : Value) : Prop :=
  ∀ c ∈ r.codings, v.datatype? = some c.datatype → c.WritesText

namespace LiteralCoding.WritesText

variable {c : LiteralCoding} {lexical : String} {payload : Bytes}

theorem above (writes : c.WritesText) (encoded : c.encode lexical = .ok payload) :
    Above datatypeStart payload := by
  obtain ⟨s, rfl, clear⟩ := writes lexical payload encoded
  exact above_utf8_iff.2 clear

theorem exists_spell (writes : c.WritesText) (encoded : c.encode lexical = .ok payload) :
    ∃ cs, spell cs = payload := by
  obtain ⟨s, rfl, _⟩ := writes lexical payload encoded
  exact ⟨s.toList, (utf8_eq_spell s).symm⟩

theorem of_mem_standard (mem : c ∈ standard) : c.WritesText := by
  intro lexical payload encoded
  obtain ⟨cs, rfl⟩ := Registry.standard_textual.payload mem encoded
  have same : utf8 (String.ofList cs) = spell cs := by rw [utf8_eq_spell, String.toList_ofList]
  have above := (lawful_of_mem_standard mem).above encoded
  rw [← same] at above
  exact ⟨_, same, same ▸ above_utf8_iff.1 above⟩

end LiteralCoding.WritesText

/-- The coding of strings with another datatype and marker. -/
def LiteralCoding.plain (marker : UInt8) : LiteralCoding :=
  { LiteralCoding.string with datatype := ⟨"urn:t"⟩, marker }

theorem LiteralCoding.WritesText.plain (marker : UInt8) : (plain marker).WritesText :=
  of_mem_standard (c := .string) List.mem_cons_self

namespace Registry

variable {r s : Registry} {c d : LiteralCoding} {v : Value} {bs : Bytes}

/-- A value that is stored by texts is a marker and a text. -/
theorem Built.exists_spell (built : r.Built) (writes : r.WritesText v) (h : r.Stored v bs) :
    Above cellEnd bs ∧ ∃ (m : UInt8) (cs : List Char), bs = m :: spell cs := by
  have own {c : LiteralCoding} {lexical : String} (mem : c ∈ r.codings)
      (same : v = .literal c.datatype lexical) : c.WritesText := writes c mem (by rw [same]; rfl)
  refine ⟨h.above (fun _ mem => built.free mem) fun c mem _ _ same encoded =>
    (own mem same).above encoded, ?_⟩
  obtain ⟨m, cs, value, _⟩ := h.exists_spell fun c mem _ _ same encoded =>
    (own mem same).exists_spell encoded
  exact ⟨m, cs, value⟩

/-- The marker and the datatype of a coding that is registered are its own. -/
theorem eq_of_register (registered : r.register c = .ok s) (mem : d ∈ s.codings)
    (same : d.marker = c.marker ∨ d.datatype = c.datatype) : d = c := by
  obtain ⟨⟨_, marker, datatype⟩, rfl⟩ := register_eq_ok_iff.1 registered
  rcases List.mem_append.1 mem with mem | mem
  · rcases same with same | same
    · exact absurd (decide_eq_true same) (List.find?_eq_none.1 marker d mem)
    · exact absurd (decide_eq_true same) (List.find?_eq_none.1 datatype d mem)
  · exact List.mem_singleton.1 mem

/-- What is stored behind the marker of a coding of texts is stored by texts. -/
theorem writesText_of_head (registered : r.register c = .ok s)
    (writes : c.WritesText) (h : s.Stored v bs) (head : bs.head? = some c.marker) :
    s.WritesText v := by
  cases h with
  | iri => exact fun d _ none => by cases none
  | custom unknown =>
    intro d mem same
    obtain rfl := Option.some.inj same
    exact absurd (decide_eq_true rfl) (List.find?_eq_none.1 unknown d mem)
  | coded mem =>
    obtain rfl := eq_of_register registered mem (.inl (Option.some.inj head))
    intro e mem' same
    obtain rfl := eq_of_register registered mem' (.inr (Option.some.inj same).symm)
    exact writes

end Registry

/-! ## The place of the object in a key -/

namespace Layout

/-- What stands before the object in a key. -/
def before (l : Layout) (lead subject predicate : List Char) : List Char :=
  match l with
  | .spo => lead ++ (subject ++ '\x00' :: (predicate ++ ['\x00']))
  | .po => lead ++ (predicate ++ ['\x00'])
  | .osp => lead

/-- What stands behind the object in a key. -/
def behind (l : Layout) (subject predicate family : List Char) : List Char :=
  match l with
  | .spo => '\x01' :: (family ++ ['\x01'])
  | .po => '\x00' :: (subject ++ '\x01' :: (family ++ ['\x01']))
  | .osp => '\x00' :: (subject ++ '\x00' :: (predicate ++ '\x01' :: (family ++ ['\x01'])))

end Layout

namespace QuadBytes

variable {b : QuadBytes} {subject predicate family : List Char} {fingerprint : Fingerprint}

/-- The object stands between texts. -/
theorem exists_key_eq (beside : b.SpelledBeside subject predicate family)
    (hexadecimal : fingerprint.Hexadecimal) (f : RowForm) :
    ∃ lead, KeyExpression.Leads f.hashed lead ∧
      b.key fingerprint f = spell (f.layout.before lead subject predicate) ++
        (b.components.object ++ spell (f.layout.behind subject predicate family)) := by
  have none : spell [] = [] := rfl
  have nul (cs : List Char) : spell ('\x00' :: cs) = componentEnd :: spell cs := rfl
  have heading (cs : List Char) : spell ('\x01' :: cs) = cellEnd :: spell cs := rfl
  obtain ⟨lead, leads, spelled⟩ := KeyExpression.exists_leads hexadecimal f.hashed
    (b.components.at f.layout.order.1)
  refine ⟨lead, leads, ?_⟩
  obtain ⟨l, hashed⟩ := f
  rw [b.key_eq, ← spelled, ← beside.family]
  cases l <;>
    simp [Layout.before, Layout.behind, Layout.order, Triple.at, spell_append, none, nul,
      heading, beside.subject, beside.predicate]

end QuadBytes

namespace KeyExpression

open Regex

variable {known : Properties} {parts : Parts} {f : RowForm} {e : KeyExpression} {r : Regex} {b : QuadBytes}
  {subject predicate family : List Char} {fingerprint : Fingerprint} {k : UInt8}

/-- No expression over keys matches a key in which a byte beyond ASCII stands before a text. -/
theorem isMatch_key_of_high (beside : b.SpelledBeside subject predicate family)
    (hexadecimal : fingerprint.Hexadecimal) (made : ofParts? f parts = some e)
    (compiled : e.compile known = .ok r) {l : Language Char} (denotes : Denotes known (parts.text f) l)
    {m : UInt8} {cs : List Char} (object : b.components.object = m :: spell cs)
    (high : ¬ m < 0x80) : r.isMatch (b.key fingerprint f) = false := by
  rw [Bool.eq_false_iff, Ne, isMatch_iff made compiled denotes]
  rintro ⟨w, _, same⟩
  obtain ⟨lead, _, key⟩ := b.exists_key_eq beside hexadecimal f
  rw [key, object] at same
  obtain ⟨rest, _, spelled⟩ := exists_of_spell_append same
  rw [List.cons_append, ← spell_append] at spelled
  exact cons_spell_ne_spell high spelled.symm

/-- With a marker alone, the component of an object begins with the character of its number, and the
others are anything. -/
theorem denotes_marked {anything : String} {l : Language Char} (any : Denotes known anything.toList l)
    (k : UInt8) (i : Position) :
    ∃ m, Denotes known (component { marker := some k } anything i).toList m ∧
      ∀ cs ∈ m, if i = .object then ∃ rest, Char.ofNat k.toNat :: rest = cs else cs ∈ l := by
  cases i with
  | subject => exact ⟨l, any, fun _ mem => mem⟩
  | predicate => exact ⟨l, any, fun _ mem => mem⟩
  | object =>
    have text : component { marker := some k } anything .object =
        escape (Char.ofNat k.toNat) ++ anything := rfl
    refine ⟨{[Char.ofNat k.toNat]} * l, ?_, ?_⟩
    · rw [text, String.toList_append]
      exact (denotes_escape _).append any
    · rintro _ ⟨_, rfl, rest, _, rfl⟩
      exact ⟨rest, rfl⟩

/-- A text that begins like a key, up to its object, goes on with what stands in the place of the
object. -/
theorem begins_of_delimited {l : Layout} {hashed : Bool} {inner : Language Char} {x : Char}
    {lead lead' a c d g t rest : List Char} (leads : Leads hashed lead) (leads' : Leads hashed lead')
    (clearSubject : Clear subject) (clearPredicate : Clear predicate)
    (clear : ∀ cs ∈ inner, cs.count '\x00' = 0)
    (first : if l.order.1 = .object then ∃ z, x :: z = a else a ∈ inner)
    (second : if l.order.2.1 = .object then ∃ z, x :: z = c else c ∈ inner)
    (third : l.order.2.2 = .object → ∃ z, x :: z = d)
    (same : delimited (lead' ++ a) c d g t = l.before lead subject predicate ++ rest) :
    ∃ z, rest = x :: z := by
  simp only [delimited, List.append_assoc] at same
  cases l with
  | spo =>
    simp only [Layout.before, List.append_assoc, List.cons_append, List.nil_append] at same
    obtain ⟨_, same⟩ := leads'.inj leads same
    obtain ⟨_, same⟩ := append_cons_inj (clear a first) clearSubject.nul same
    obtain ⟨_, same⟩ := append_cons_inj (clear c second) clearPredicate.nul same
    obtain ⟨z, rfl⟩ := third rfl
    exact ⟨_, same.symm⟩
  | po =>
    simp only [Layout.before, List.append_assoc, List.cons_append, List.nil_append] at same
    obtain ⟨_, same⟩ := leads'.inj leads same
    obtain ⟨_, same⟩ := append_cons_inj (clear a first) clearPredicate.nul same
    obtain ⟨z, rfl⟩ := second
    exact ⟨_, same.symm⟩
  | osp =>
    obtain ⟨_, same⟩ := leads'.inj leads same
    obtain ⟨z, rfl⟩ := first
    exact ⟨_, same.symm⟩

/-- The expression of a marker matches only where the object begins as its character does. -/
theorem head?_object_of_isMatch (beside : b.SpelledBeside subject predicate family)
    (hexadecimal : fingerprint.Hexadecimal) (made : ofParts? f { marker := some k } = some e)
    (compiled : e.compile known = .ok r) (nonempty : b.components.object ≠ [])
    (matched : r.isMatch (b.key fingerprint f) = true) :
    b.components.object.head? = (String.utf8EncodeChar (Char.ofNat k.toNat)).head? := by
  obtain ⟨inner, denotesInner, memInner⟩ := denotes_inner
  obtain ⟨last, denotesLast, _⟩ := denotes_last
  obtain ⟨first, denotesFirst, memFirst⟩ := denotes_marked denotesInner k f.layout.order.1
  obtain ⟨second, denotesSecond, memSecond⟩ := denotes_marked denotesInner k f.layout.order.2.1
  obtain ⟨third, denotesThird, memThird⟩ := denotes_marked denotesLast k f.layout.order.2.2
  obtain ⟨whole, denotes, mem⟩ := denotes_delimited denotesFirst denotesSecond
    denotesThird denotesLast
  rw [isMatch_iff made compiled denotes] at matched
  obtain ⟨w, within, same⟩ := matched
  obtain ⟨lead, leads, key⟩ := b.exists_key_eq beside hexadecimal f
  rw [key] at same
  obtain ⟨rest, rfl, spelled⟩ := exists_of_spell_append same
  obtain ⟨lead', leads', a, ha, c, hc, d, hd, _, _, _, same⟩ := (mem _).1 within
  have placed : f.layout.order.2.2 = .object → ∃ z, Char.ofNat k.toNat :: z = d := by
    intro last
    have own := memThird d hd
    rwa [if_pos last] at own
  obtain ⟨z, rfl⟩ := begins_of_delimited leads leads' beside.clearSubject beside.clearPredicate
    (fun cs mem => List.count_eq_zero.2 fun nul => (memInner cs).1 mem _ nul rfl)
    (memFirst a ha) (memSecond c hc) placed same
  have heads := congrArg List.head? spelled
  rw [spell_cons, List.head?_append_of_ne_nil _ String.utf8EncodeChar_ne_nil,
    List.head?_append_of_ne_nil _ nonempty] at heads
  exact heads.symm

theorem not_ascii_of_head? (high : ¬ k < 0x80) {x : UInt8}
    (head : (String.utf8EncodeChar (Char.ofNat k.toNat)).head? = some x) : ¬ x < 0x80 := by
  intro ascii
  exact high (ofNat_inj.1 (eq_ofNat_of_head? head ascii) ▸ ascii)

theorem exists_ofParts? (f : RowForm) (parts : Parts) (asked : parts ≠ {}) :
    ∃ e, ofParts? f parts = some e :=
  ⟨_, if_neg asked⟩

/-! ## A marker alone, and a subject alone -/

theorem readable_marker (ascii : k < 0x80) : Parts.Readable known { marker := some k } :=
  { subject := nofun
    predicate := nofun
    object := nofun
    context := nofun
    marker := by
      rintro _ ⟨⟩
      exact ascii }

theorem readable_subject (s : String) : Parts.Readable known { subject := some (verbatim s) } :=
  { subject := by
      rintro _ ⟨⟩
      exact ⟨_, expresses_verbatim s⟩
    predicate := nofun
    object := nofun
    context := nofun
    marker := nofun }

theorem holds_marker_iff :
    Parts.Holds known { marker := some k } b ↔ b.components.object.head? = some k := by
  refine ⟨fun holds => (holds.1 .object).1 k rfl, fun head => ⟨fun i => ?_, nofun⟩⟩
  cases i with
  | subject => exact nofun
  | predicate => exact nofun
  | object =>
    refine ⟨?_, nofun⟩
    rintro _ ⟨⟩
    exact head

theorem holds_subject_iff {s : String} :
    Parts.Holds known { subject := some (verbatim s) } b ↔ b.components.subject = utf8 s := by
  refine ⟨fun holds => accepts_verbatim_iff.1 (holds.1 .subject _ rfl), fun same => ?_⟩
  refine ⟨fun i => ?_, nofun⟩
  cases i with
  | subject =>
    rintro _ ⟨⟩
    exact accepts_verbatim_iff.2 same
  | predicate => exact nofun
  | object => exact ⟨nofun, nofun⟩

/-! ## Keys of quads -/

section

variable {c : Codec} {q : Quad} {m : UInt8} {cs : List Char}
  (bytes : c.bytes q = .ok b) (hexadecimal : fingerprint.Hexadecimal) (compiled : e.compile known = .ok r)

include bytes hexadecimal compiled

/-- If the object is a text behind an ASCII marker, an expression over keys matches where what is asked
holds. -/
theorem isMatch_bytes_iff (readable : parts.Readable known) (made : ofParts? f parts = some e)
    (above : Above cellEnd b.components.object) (object : b.components.object = m :: spell cs)
    (ascii : m < 0x80) : r.isMatch (b.key fingerprint f) = true ↔ parts.Holds known b := by
  obtain ⟨t, spells⟩ := Codec.exists_spells bytes ascii object
  exact isMatch_key_iff readable made compiled spells (Codec.delimited_of_above bytes above)
    hexadecimal

/-- An ASCII marker is found exactly in the keys of the objects behind it, if these are texts. -/
theorem isMatch_marker_iff (made : ofParts? f { marker := some k } = some e) (ascii : k < 0x80)
    (nonempty : b.components.object ≠ [])
    (texts : b.components.object.head? = some k → Above cellEnd b.components.object ∧
      ∃ (m : UInt8) (cs : List Char), b.components.object = m :: spell cs) :
    r.isMatch (b.key fingerprint f) = true ↔ b.components.object.head? = some k := by
  obtain ⟨family, beside⟩ := Codec.spelledBeside_of_bytes bytes
  constructor
  · intro matched
    rw [head?_object_of_isMatch beside hexadecimal made compiled nonempty matched,
      utf8EncodeChar_ascii ascii, List.head?_cons]
  · intro head
    obtain ⟨above, m, cs, object⟩ := texts head
    obtain rfl : m = k := by
      rw [object] at head
      exact Option.some.inj head
    rwa [isMatch_bytes_iff bytes hexadecimal compiled (readable_marker ascii) made above object ascii,
      holds_marker_iff]

/-- A marker beyond ASCII is not found before any text. -/
theorem isMatch_marker_of_high (made : ofParts? f { marker := some k } = some e) (high : ¬ k < 0x80)
    (object : b.components.object = m :: spell cs) : r.isMatch (b.key fingerprint f) = false := by
  obtain ⟨family, beside⟩ := Codec.spelledBeside_of_bytes bytes
  by_cases ascii : m < 0x80
  · rw [Bool.eq_false_iff]
    intro matched
    have head := head?_object_of_isMatch beside hexadecimal made compiled (by simp [object]) matched
    rw [object, List.head?_cons] at head
    exact not_ascii_of_head? high head.symm ascii
  · obtain ⟨l, denotes⟩ := (builds_text none (some k) f).denotes
    exact isMatch_key_of_high beside hexadecimal made compiled denotes object ascii

/-- The text of the subject is found in all keys that are texts, and in no other. -/
theorem isMatch_subject_iff
    (made : ofParts? f { subject := some (verbatim q.subject.text) } = some e)
    (above : Above cellEnd b.components.object) (object : b.components.object = m :: spell cs) :
    r.isMatch (b.key fingerprint f) = true ↔ m < 0x80 := by
  by_cases ascii : m < 0x80
  · rw [isMatch_bytes_iff bytes hexadecimal compiled (readable_subject _) made above object ascii,
      holds_subject_iff]
    exact iff_of_true (Iri.encode_eq_ok_iff.1 (Codec.bytes_eq_ok_iff.1 bytes).1).1 ascii
  · obtain ⟨family, beside⟩ := Codec.spelledBeside_of_bytes bytes
    obtain ⟨l, denotes⟩ := (builds_text (some q.subject.text) none f).denotes
    refine iff_of_false (Bool.eq_false_iff.1 ?_) ascii
    exact isMatch_key_of_high beside hexadecimal made compiled denotes object ascii

end

/-- Let a coding of texts be registered, under whatever marker may be had. The expression of its marker
is compiled for tables of any form. An ASCII marker is found exactly in the keys of the objects stored
behind it; a marker beyond ASCII neither in these nor before any other text. The expression of the text
of a subject is compiled too, unless it is very long, and is found in the keys of its quads, but only
where the marker of the object is ASCII. -/
theorem isMatch_registered {r s : Registry} {c : LiteralCoding} (built : r.Built)
    (registered : r.register c = .ok s) (writes : c.WritesText) (f : RowForm) (known : Properties) :
    (∃ e x, ofParts? f { marker := some c.marker } = some e ∧ e.compile known = .ok x ∧
      ∀ q cell, Codec.cell { registry := s } f q = .ok cell →
        ∃ t, Codec.components { registry := s } q = .ok t ∧
          (c.marker < 0x80 → (x.isMatch cell.key = true ↔ t.object.head? = some c.marker)) ∧
          (¬ c.marker < 0x80 → t.object.head? = some c.marker ∨ s.WritesText q.object →
            x.isMatch cell.key = false)) ∧
    ∀ q cell, Codec.cell { registry := s } f q = .ok cell → s.WritesText q.object →
      ∃ t e, Codec.components { registry := s } q = .ok t ∧
        ofParts? f { subject := some (verbatim q.subject.text) } = some e ∧
        ((utf8 q.subject.text).length ≤ 2 ^ 18 → ∃ x, e.compile known = .ok x) ∧
        ∀ x, e.compile known = .ok x →
          (x.isMatch cell.key = true ↔ ∃ m, t.object.head? = some m ∧ m < 0x80) := by
  have stored {q : Quad} {b : QuadBytes} (bytes : Codec.bytes { registry := s } q = .ok b) :
      s.Stored q.object b.components.object :=
    Registry.stored_of_encode (Codec.bytes_eq_ok_iff.1 bytes).2.2.1
  have texts {v : Value} {bs : Bytes} (textual : s.WritesText v) (h : s.Stored v bs) :=
    (Registry.Built.register built registered).exists_spell textual h
  constructor
  · obtain ⟨e, made⟩ := exists_ofParts? f { marker := some c.marker } (by simp)
    obtain ⟨x, compiled⟩ := exists_compile none _ made fun _ none => by cases none
    refine ⟨e, x, made, compiled, fun q cell there => ?_⟩
    obtain ⟨b, bytes, rfl⟩ := Codec.bytes_of_cell there
    refine ⟨b.components, Codec.components_of_bytes bytes, fun ascii => ?_, fun high either => ?_⟩
    · refine isMatch_marker_iff bytes Fingerprint.standard_hexadecimal compiled made ascii
        (stored bytes).ne_nil fun head => ?_
      exact texts (Registry.writesText_of_head registered writes (stored bytes) head) (stored bytes)
    · have textual : s.WritesText q.object := either.elim
        (Registry.writesText_of_head registered writes (stored bytes)) id
      obtain ⟨_, m, cs, object⟩ := texts textual (stored bytes)
      exact isMatch_marker_of_high bytes Fingerprint.standard_hexadecimal compiled made high object
  · intro q cell there textual
    obtain ⟨b, bytes, rfl⟩ := Codec.bytes_of_cell there
    obtain ⟨above, m, cs, object⟩ := texts textual (stored bytes)
    obtain ⟨e, made⟩ := exists_ofParts? f { subject := some (verbatim q.subject.text) } (by simp)
    refine ⟨b.components, e, Codec.components_of_bytes bytes, made, fun short => ?_,
      fun x compiled => ?_⟩
    · exact exists_compile (some q.subject.text) none made (by simpa using short)
    · refine (isMatch_subject_iff bytes Fingerprint.standard_hexadecimal compiled made above
        object).trans ?_
      simp [object]

/-- A literal behind an ASCII marker is found by its marker and by its subject. -/
theorem isMatch_registered_ascii :
    ∃ s, Registry.standard.register (.plain 0x78) = .ok s ∧
      let q : Quad := ⟨⟨"s"⟩, ⟨"p"⟩, .literal ⟨"urn:t"⟩ "a", none⟩
      ∃ cell, Codec.cell { registry := s } ⟨.osp, true⟩ q = .ok cell ∧
        (∃ e x, ofParts? ⟨.osp, true⟩ { marker := some 0x78 } = some e ∧ e.compile = .ok x ∧
          x.isMatch cell.key = true) ∧
        ∃ e x, ofParts? ⟨.osp, true⟩ { subject := some (verbatim "s") } = some e ∧
          e.compile = .ok x ∧ x.isMatch cell.key = true := by
  let s : Registry := ⟨LiteralCoding.standard ++ [.plain 0x78]⟩
  have registered : Registry.standard.register (.plain 0x78) = .ok s := rfl
  refine ⟨s, registered, ?_⟩
  intro q
  have object (t : Triple Bytes) (components : Codec.components { registry := s } q = .ok t) :
      t.object = [0x78, 0x61] := (congrArg Triple.object (Except.ok.inj components)).symm
  have writes : s.WritesText q.object := by
    intro d mem same
    obtain rfl := Registry.eq_of_register registered mem (.inr (Option.some.inj same).symm)
    exact .plain _
  obtain ⟨⟨e, x, made, compiled, marked⟩, found⟩ :=
    isMatch_registered .standard registered (.plain 0x78) ⟨.osp, true⟩ .none
  obtain ⟨t, components, ascii, _⟩ := marked q _ rfl
  obtain ⟨t', e', components', made', short, subject⟩ := found q _ rfl writes
  obtain ⟨x', compiled'⟩ := short (by decide)
  refine ⟨_, rfl, ⟨e, x, made, compiled, ?_⟩, e', x', made', compiled', ?_⟩
  · rw [ascii (by decide), object t components]
    rfl
  · rw [subject x' compiled', object t' components']
    exact ⟨0x78, rfl, by decide⟩

/-- A literal behind a marker beyond ASCII is found neither by its marker nor by its subject. -/
theorem not_isMatch_registered :
    ∃ s, Registry.standard.register (.plain 0xe9) = .ok s ∧ LiteralCoding.WritesText (.plain 0xe9) ∧
      let q : Quad := ⟨⟨"s"⟩, ⟨"p"⟩, .literal ⟨"urn:t"⟩ "a", none⟩
      ∃ cell t, Codec.cell { registry := s } ⟨.spo, false⟩ q = .ok cell ∧
        Codec.components { registry := s } q = .ok t ∧ t.object.head? = some 0xe9 ∧
        (∃ e x, ofParts? ⟨.spo, false⟩ { marker := some 0xe9 } = some e ∧ e.compile = .ok x ∧
          x.isMatch cell.key = false) ∧
        ∃ e x, ofParts? ⟨.spo, false⟩ { subject := some (verbatim "s") } = some e ∧
          e.compile = .ok x ∧ x.isMatch cell.key = false := by
  let s : Registry := ⟨LiteralCoding.standard ++ [.plain 0xe9]⟩
  let q : Quad := ⟨⟨"s"⟩, ⟨"p"⟩, .literal ⟨"urn:t"⟩ "a", none⟩
  let b : QuadBytes := ⟨⟨[0x73], [0x70], 0xe9 :: spell ['a']⟩, []⟩
  have bytes : Codec.bytes { registry := s } q = .ok b := rfl
  refine ⟨s, rfl, .plain _, b.cell .standard ⟨.spo, false⟩, b.components, rfl, rfl, rfl, ?_, ?_⟩
  · obtain ⟨e, made⟩ := exists_ofParts? ⟨.spo, false⟩ { marker := some 0xe9 } (by simp)
    obtain ⟨x, compiled⟩ := exists_compile none _ made fun _ none => by cases none
    exact ⟨e, x, made, compiled, isMatch_marker_of_high bytes Fingerprint.standard_hexadecimal
      compiled made (by decide) rfl⟩
  · obtain ⟨e, made⟩ := exists_ofParts? ⟨.spo, false⟩ { subject := some (verbatim "s") } (by simp)
    obtain ⟨x, compiled⟩ := exists_compile (some "s") none made (by
      rintro _ ⟨⟩
      decide)
    have above : Above cellEnd b.components.object :=
      .cons (by decide) (.cons (by decide) .nil)
    refine ⟨e, x, made, compiled, Bool.eq_false_iff.2 fun found => ?_⟩
    exact absurd ((isMatch_subject_iff (q := q) bytes Fingerprint.standard_hexadecimal compiled made
      above rfl).1 found) (by decide)

end KeyExpression

end QuadIndex
