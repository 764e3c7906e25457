import QuadIndex.Key.Codec
import QuadIndex.Proofs.Key.Component

/-!
# Quads as the bytes of their parts

A quad is stored as the bytes of its three components and of its context. They hold no delimiter of
cells, so in a table of any form they are read back from the storage key, as the canonical form of
the quad (`decode_cell`), and two quads have the same key only where they have the same bytes
(`key_injective`). The bytes behind a canonical quad are unique (`StoredAs.unique`).
-/

namespace QuadIndex

open Bytes Result

/-- The bytes of the parts of a quad. -/
structure QuadBytes where
  components : Triple Bytes
  family : Bytes
  deriving DecidableEq

namespace QuadBytes

/-- The cell of the bytes in a table of the given form. -/
def cell (b : QuadBytes) (fingerprint : Fingerprint) (f : RowForm) : Cell :=
  { row := f.row fingerprint b.components, family := b.family }

/-- The storage key of the bytes in a table of the given form. -/
def key (b : QuadBytes) (fingerprint : Fingerprint) (f : RowForm) : Bytes :=
  (b.cell fingerprint f).key

/-- No part holds a delimiter of cells or of components, nor the byte 0xff. -/
structure Delimited (b : QuadBytes) : Prop where
  component (p : Position) : Above cellEnd (b.components.at p)
  family : Above cellEnd b.family

theorem eq_of_parts {b d : QuadBytes} (subject : b.components.subject = d.components.subject)
    (predicate : b.components.predicate = d.components.predicate)
    (object : b.components.object = d.components.object) (family : b.family = d.family) :
    b = d := by
  obtain ⟨⟨_, _, _⟩, _⟩ := b
  obtain ⟨⟨_, _, _⟩, _⟩ := d
  simp_all

/-- The components are read back from the row. -/
theorem Delimited.components_row {b : QuadBytes} (h : b.Delimited) (fingerprint : Fingerprint)
    (f : RowForm) : f.components (b.cell fingerprint f).row = .ok b.components := by
  have whole (p : Position) : componentEnd ∉ b.components.at p :=
    (h.component p).not_mem (by decide)
  exact RowForm.components_row fingerprint f (whole _) (whole _)

end QuadBytes

namespace Codec

/-- The bytes of the parts of a quad. -/
def bytes (c : Codec) (q : Quad) : Except Error QuadBytes := do
  let components ← c.components q
  let family ← family q.context
  return ⟨components, family⟩

/-- The context of a family. -/
def contextOf : Bytes → Except Error (Option Iri)
  | [] => .ok none
  | family => (Plain.decode .context family).map fun text => some ⟨text⟩

/-- The quad of the bytes of its parts. -/
def ofBytes (c : Codec) (b : QuadBytes) : Except Error Quad := do
  let context ← contextOf b.family
  let subject ← Plain.decode .subject b.components.subject
  let predicate ← Plain.decode .predicate b.components.predicate
  let object ← c.registry.decode b.components.object
  return ⟨⟨subject⟩, ⟨predicate⟩, object, context⟩

/-- The quad with its object in canonical form. -/
def canonical (c : Codec) (q : Quad) : Except Error Quad := do
  return { q with object := ← c.registry.canonicalize q.object }

variable {c : Codec} {q w : Quad} {b d : QuadBytes} {e : Error}

theorem canonical_eq {bs : Bytes} {v : Value} (object : c.registry.encode q.object = .ok bs)
    (read : c.registry.decode bs = .ok v) : c.canonical q = .ok { q with object := v } := by
  rw [canonical, Registry.canonicalize, object]
  exact bind_eq_ok_iff.2 ⟨v, read, rfl⟩

theorem cell_eq_map_bytes (c : Codec) (f : RowForm) (q : Quad) :
    c.cell f q = (c.bytes q).map fun b => b.cell c.fingerprint f := by
  unfold cell bytes
  cases c.components q with
  | error e => rfl
  | ok components => cases family q.context <;> rfl

theorem bytes_of_cell {f : RowForm} {cell : Cell} (h : c.cell f q = .ok cell) :
    ∃ b, c.bytes q = .ok b ∧ cell = b.cell c.fingerprint f := by
  rw [cell_eq_map_bytes] at h
  cases bytes : c.bytes q with
  | error e =>
    rw [bytes] at h
    cases h
  | ok b =>
    rw [bytes] at h
    exact ⟨b, rfl, (Except.ok.inj h).symm⟩

theorem cells_eq_map_bytes (c : Codec) (hashed : Bool) (q : Quad) : c.cells hashed q =
    (c.bytes q).map fun b => Layout.all.map fun l => (l, b.cell c.fingerprint ⟨l, hashed⟩) := by
  unfold cells bytes
  cases c.components q with
  | error e => rfl
  | ok components => cases family q.context <;> rfl

/-- A quad has cells where it has bytes. -/
theorem cells_eq_error_iff {hashed : Bool} : c.cells hashed q = .error e ↔ c.bytes q = .error e := by
  rw [cells_eq_map_bytes]
  cases c.bytes q with
  | error e => simp [Except.map]
  | ok b => simp [Except.map]

theorem bytes_eq_ok_iff : c.bytes q = .ok b ↔
    q.subject.encode = .ok b.components.subject ∧
    q.predicate.encode = .ok b.components.predicate ∧
    c.registry.encode q.object = .ok b.components.object ∧ family q.context = .ok b.family := by
  simp only [bytes, components, bind_eq_ok_iff]
  constructor
  · rintro ⟨_, ⟨_, subject, _, predicate, _, object, same⟩, _, context, same'⟩
    cases same
    cases same'
    exact ⟨subject, predicate, object, context⟩
  · rintro ⟨subject, predicate, object, context⟩
    exact ⟨_, ⟨_, subject, _, predicate, _, object, rfl⟩, _, context, rfl⟩

theorem components_of_bytes (h : c.bytes q = .ok b) : c.components q = .ok b.components := by
  obtain ⟨_, components, h⟩ := bind_eq_ok_iff.1 h
  obtain ⟨_, _, same⟩ := bind_eq_ok_iff.1 h
  cases same
  exact components

theorem family_eq_ok {g : Option Iri} {bs : Bytes} (h : family g = .ok bs) :
    (g = none ∧ bs = []) ∨
    ∃ i : Iri, g = some i ∧ bs ≠ [] ∧ bs = Text.utf8 i.text ∧ Above datatypeStart bs := by
  cases g with
  | none => exact .inl ⟨rfl, (Except.ok.inj h).symm⟩
  | some i =>
    simp only [family] at h
    split at h
    · cases h
    · next nonempty =>
      obtain ⟨rfl, above⟩ := Iri.encode_eq_ok_iff.1 h
      refine .inr ⟨i, rfl, fun none => nonempty ?_, rfl, above⟩
      exact Text.utf8_injective (none.trans (by decide))

theorem family_eq_error {g : Option Iri} (h : family g = .error e) :
    ∃ fault, e = .encoding fault := by
  cases g with
  | none => cases h
  | some i =>
    simp only [family] at h
    split at h
    · cases h
      exact ⟨_, rfl⟩
    · exact Iri.encode_eq_error h

/-- Only an object may hold delimiters. -/
theorem delimited_of_above (h : c.bytes q = .ok b) (object : Above cellEnd b.components.object) :
    b.Delimited := by
  obtain ⟨subject, predicate, _, context⟩ := bytes_eq_ok_iff.1 h
  have delimiter : cellEnd ≤ datatypeStart := by decide
  constructor
  · intro p
    cases p with
    | subject => exact (Iri.encode_eq_ok_iff.1 subject).2.mono delimiter
    | predicate => exact (Iri.encode_eq_ok_iff.1 predicate).2.mono delimiter
    | object => exact object
  · rcases family_eq_ok context with ⟨_, none⟩ | ⟨i, _, _, _, above⟩
    · rw [none]
      exact .nil
    · exact above.mono delimiter

section

variable (lawful : c.registry.Lawful)

include lawful

theorem bytes_eq_error (h : c.bytes q = .error e) : ∃ fault, e = .encoding fault := by
  simp only [bytes, components, bind_eq_error_iff, bind_eq_ok_iff] at h
  rcases h with (h | ⟨_, _, h | ⟨_, _, h | ⟨_, _, h⟩⟩⟩) | ⟨_, _, h | ⟨_, _, h⟩⟩
  · exact Iri.encode_eq_error h
  · exact Iri.encode_eq_error h
  · exact Registry.encode_eq_error lawful h
  · cases h
  · exact family_eq_error h
  · cases h

theorem delimited_of_bytes (h : c.bytes q = .ok b) : b.Delimited := by
  obtain ⟨_, _, object, _⟩ := bytes_eq_ok_iff.1 h
  exact delimited_of_above h
    (Registry.above_of_stored lawful (Registry.stored_of_encode object))

/-- The bytes of a quad are those of its canonical form. -/
theorem ofBytes_bytes (h : c.bytes q = .ok b) : c.ofBytes b = c.canonical q := by
  obtain ⟨subject, predicate, object, context⟩ := bytes_eq_ok_iff.1 h
  obtain ⟨subject, _⟩ := Iri.encode_eq_ok_iff.1 subject
  obtain ⟨predicate, _⟩ := Iri.encode_eq_ok_iff.1 predicate
  obtain ⟨v, read⟩ := Registry.decode_of_stored lawful (Registry.stored_of_encode object)
  rw [canonical_eq object read]
  have whole : contextOf b.family = .ok q.context := by
    rcases family_eq_ok context with ⟨default, none⟩ | ⟨i, named, nonempty, family, _⟩
    · rw [default, none]
      rfl
    · unfold contextOf
      split
      · exact absurd ‹_› nonempty
      · rw [named, family, Plain.decode_utf8]
        rfl
  simp only [ofBytes, whole, subject, predicate, read, Plain.decode_utf8, bind, Except.bind, pure,
    Except.pure]

end

/-- Bytes are read back from their cell. -/
theorem decode_cell (delimited : b.Delimited) (f : RowForm) :
    c.decode f (b.cell c.fingerprint f) = c.ofBytes b := by
  unfold decode ofBytes contextOf
  rw [delimited.components_row]
  change (match b.family with | [] => _ | family => _) = _
  cases b.family with
  | nil => rfl
  | cons x family => cases h : Plain.decode .context (x :: family) <;> simp [h] <;> rfl

end Codec

/-- No fingerprint holds a delimiter, nor the byte 0xff. -/
def Fingerprint.Delimited (fingerprint : Fingerprint) : Prop :=
  ∀ bs, Above cellEnd (fingerprint.apply bs)

theorem Fingerprint.standard_delimited : Fingerprint.standard.Delimited := by
  have digits (bs : Bytes) : Above cellEnd (Hex.encode bs) := by
    induction bs with
    | nil => exact .nil
    | cons b bs ih =>
      exact ((LiteralCoding.above_digits 2 b.toNat).mono (by decide)).append ih
  intro bs
  exact digits _

namespace QuadBytes

section

variable {b d : QuadBytes} {fingerprint : Fingerprint} {f : RowForm}

theorem key_eq (b : QuadBytes) (fingerprint : Fingerprint) (f : RowForm) :
    b.key fingerprint f =
      (if f.hashed then fingerprint.apply (b.components.at f.layout.order.1) else []) ++
      (b.components.at f.layout.order.1 ++ componentEnd ::
        (b.components.at f.layout.order.2.1 ++ componentEnd ::
          (b.components.at f.layout.order.2.2 ++ cellEnd :: (b.family ++ [cellEnd])))) := by
  unfold key Cell.key cell RowForm.row Layout.arrange
  cases f.hashed <;> simp

variable (clear : fingerprint.Delimited)

include clear

/-- Storage keys begin with a byte below 0xff. -/
theorem key_lt_largest (delimited : b.Delimited) : b.key fingerprint f < [0xff] := by
  have below {a r : Bytes} {x : UInt8} (ha : Above cellEnd a) (hx : x < 0xff) :
      a ++ x :: r < [0xff] := by
    cases a with
    | nil => simp [List.cons_lt_cons_iff, hx]
    | cons y a => simp [List.cons_lt_cons_iff, (ha y (by simp)).2]
  rw [key_eq, ← List.append_assoc]
  refine below (Above.append ?_ (delimited.component _)) (by decide)
  split
  · exact clear _
  · exact .nil

theorem ofKey_key (delimited : b.Delimited) :
    Cell.ofKey (b.key fingerprint f) [] = .ok (b.cell fingerprint f) := by
  have none {bs : Bytes} (h : Above cellEnd bs) : cellEnd ∉ bs := h.not_mem (by decide)
  have row : cellEnd ∉ (b.cell fingerprint f).row := by
    have parts (p : Position) : cellEnd ∉ b.components.at p := none (delimited.component p)
    have other : cellEnd ≠ componentEnd := by decide
    have lead (bs : Bytes) : cellEnd ∉ fingerprint.apply bs := none (clear bs)
    unfold cell RowForm.row Layout.arrange
    cases f.hashed <;> simp [parts, other, lead]
  exact Cell.ofKey_key row (none delimited.family)

/-- Bytes are told apart by their storage keys. -/
theorem key_injective (hb : b.Delimited) (hd : d.Delimited)
    (same : b.key fingerprint f = d.key fingerprint f) : b = d := by
  have cells : b.cell fingerprint f = d.cell fingerprint f := by
    have read := ofKey_key clear (f := f) hb
    rw [same, ofKey_key clear hd, Except.ok.injEq] at read
    exact read.symm
  have components : b.components = d.components := by
    have read := hb.components_row fingerprint f
    rw [cells, hd.components_row fingerprint f, Except.ok.injEq] at read
    exact read.symm
  exact eq_of_parts (congrArg Triple.subject components) (congrArg Triple.predicate components)
    (congrArg Triple.object components) (congrArg Cell.family cells)

end

end QuadBytes

namespace Codec

/-- The quad is the canonical form of one with the given bytes. -/
def StoredAs (c : Codec) (q : Quad) (b : QuadBytes) : Prop :=
  ∃ source, c.bytes source = .ok b ∧ c.canonical source = .ok q

variable {c : Codec} {q w : Quad} {b d : QuadBytes}

/-- All of a stored quad but its object is written as it is. -/
theorem StoredAs.parts (h : c.StoredAs w b) :
    w.subject.encode = .ok b.components.subject ∧
    w.predicate.encode = .ok b.components.predicate ∧ family w.context = .ok b.family ∧
    ∃ v, c.registry.encode v = .ok b.components.object ∧
      c.registry.decode b.components.object = .ok w.object := by
  obtain ⟨source, encoded, canonical⟩ := h
  obtain ⟨subject, predicate, object, context⟩ := bytes_eq_ok_iff.1 encoded
  obtain ⟨v, read, same⟩ := bind_eq_ok_iff.1 canonical
  cases same
  rw [Registry.canonicalize, object] at read
  exact ⟨subject, predicate, context, _, object, read⟩

variable (lawful : c.registry.Lawful)

include lawful

theorem storedAs_of_bytes (h : c.bytes q = .ok b) :
    ∃ w, c.canonical q = .ok w ∧ c.StoredAs w b := by
  obtain ⟨_, _, object, _⟩ := bytes_eq_ok_iff.1 h
  obtain ⟨v, read⟩ := Registry.decode_of_stored lawful (Registry.stored_of_encode object)
  have canonical := canonical_eq object read
  exact ⟨_, canonical, q, h, canonical⟩

theorem StoredAs.delimited (h : c.StoredAs w b) : b.Delimited := by
  obtain ⟨source, encoded, _⟩ := h
  exact delimited_of_bytes lawful encoded

theorem StoredAs.ofBytes (h : c.StoredAs w b) : c.ofBytes b = .ok w := by
  obtain ⟨source, encoded, canonical⟩ := h
  rw [ofBytes_bytes lawful encoded, canonical]

/-- A quad is stored as one string of bytes. -/
theorem StoredAs.unique (h : c.StoredAs w b) (h' : c.StoredAs w d) : b = d := by
  obtain ⟨subject, predicate, context, v, object, read⟩ := h.parts
  obtain ⟨subject', predicate', context', v', object', read'⟩ := h'.parts
  have objects : b.components.object = d.components.object :=
    Registry.eq_of_decode lawful (Registry.stored_of_encode object)
      (Registry.stored_of_encode object') read read'
  exact QuadBytes.eq_of_parts (Except.ok.inj (subject.symm.trans subject'))
    (Except.ok.inj (predicate.symm.trans predicate')) objects
    (Except.ok.inj (context.symm.trans context'))

/-- A stored quad that has bytes itself is stored as these. -/
theorem StoredAs.bytes (h : c.StoredAs w b) (again : c.bytes w = .ok d) : d = b := by
  obtain ⟨subject, predicate, context, v, object, read⟩ := h.parts
  obtain ⟨subject', predicate', object', context'⟩ := bytes_eq_ok_iff.1 again
  have objects : d.components.object = b.components.object :=
    Registry.stable_of_decode lawful (Registry.stored_of_encode object) read
      (Registry.stored_of_encode object')
  exact QuadBytes.eq_of_parts (Except.ok.inj (subject'.symm.trans subject))
    (Except.ok.inj (predicate'.symm.trans predicate)) objects
    (Except.ok.inj (context'.symm.trans context))

/-- The canonical form of a value is the object of a stored quad if its bytes are stored there. -/
theorem StoredAs.canonicalize_iff (h : c.StoredAs w b) {v : Value} :
    c.registry.canonicalize v = .ok w.object ↔ c.registry.encode v = .ok b.components.object := by
  obtain ⟨_, _, _, u, object, read⟩ := h.parts
  constructor
  · intro canonical
    obtain ⟨bs, encoded, read'⟩ := bind_eq_ok_iff.1 canonical
    rw [encoded, Registry.eq_of_decode lawful (Registry.stored_of_encode encoded)
      (Registry.stored_of_encode object) read' read]
  · intro encoded
    exact bind_eq_ok_iff.2 ⟨_, encoded, read⟩

end Codec

end QuadIndex
