import QuadIndex.Proofs.Key.Quad
import QuadIndex.Proofs.Literal.Meaning

/-!
# Quads are read back from their storage keys

Encoding a quad for all tables gives the cell of each. A storage key is cut into the cell that it is
of, and the cell is read back as a quad with the same subject, predicate and context, whose object is
of the same kind and denotes the same, times being cut to the millisecond. An object in plain form
comes back as it was (`round_trip`).
-/

namespace QuadIndex

open Bytes Result

namespace Value

/-- What the value denotes. -/
def meaning? : Value → Option Meaning
  | iri i => some (.resource i)
  | literal datatype lexical => (valueSpace datatype).meaning? lexical

/-- The value is an IRI or a literal in plain form. -/
def IsPlain : Value → Prop
  | iri _ => True
  | literal datatype lexical => (valueSpace datatype).PlainForm lexical

end Value

namespace Registry

variable {v w : Value} {bs : Bytes}

theorem valueSpace_of_unknown {datatype : Iri} (h : standard.forDatatype? datatype = none) :
    valueSpace datatype = .text := by
  have known {d : Iri} {c : LiteralCoding} (found : standard.forDatatype? d = some c) :
      datatype ≠ d := by
    rintro rfl
    cases h.symm.trans found
  have integer : datatype ≠ Xsd.integer := known rfl
  have long : datatype ≠ Xsd.long := known rfl
  have int : datatype ≠ Xsd.int := known rfl
  have double : datatype ≠ Xsd.double := known rfl
  have float : datatype ≠ Xsd.float := known rfl
  have boolean : datatype ≠ Xsd.boolean := known rfl
  have dateTime : datatype ≠ Xsd.dateTime := known rfl
  simp [valueSpace, integer, long, int, double, float, boolean, dateTime]

/-- What is read back for a value is of its kind and denotes the same, a time to the millisecond; it
is the value itself if that is in plain form. -/
theorem faithful (h : standard.encode v = .ok bs) (read : standard.decode bs = .ok w) :
    w.datatype? = v.datatype? ∧ (∃ m, v.meaning? = some m ∧ w.meaning? = some m.cut) ∧
      (v.IsPlain → w = v) := by
  cases stored_of_encode h with
  | @iri i =>
    obtain rfl := Except.ok.inj ((decode_iri standard i).symm.trans read)
    exact ⟨rfl, ⟨.resource i, rfl, rfl⟩, fun _ => rfl⟩
  | @coded c lexical payload mem encoded =>
    rw [decode_coded standard_lawful mem] at read
    cases decoded : c.decode payload with
    | error e =>
      rw [decoded] at read
      cases read
    | ok form =>
      rw [decoded] at read
      cases read
      have faithful := LiteralCoding.faithful_of_mem_standard mem
      refine ⟨rfl, faithful.meaning encoded decoded, fun plain => ?_⟩
      rw [faithful.form encoded decoded plain]
  | @custom datatype lexical unknown form =>
    obtain rfl := Except.ok.inj ((decode_custom form).symm.trans read)
    refine ⟨rfl, ⟨.text lexical, ?_, ?_⟩, fun _ => rfl⟩
    · rw [Value.meaning?, valueSpace_of_unknown unknown]
      rfl
    · rw [Value.meaning?, valueSpace_of_unknown unknown]
      rfl

end Registry

namespace Codec

/-- The cells of all layouts are those of each. -/
theorem lookup_cells (c : Codec) (hashed : Bool) (q : Quad) (l : Layout) :
    (c.cells hashed q).map (List.lookup l) = (c.cell ⟨l, hashed⟩ q).map some := by
  rw [cells_eq_map_bytes, cell_eq_map_bytes]
  cases c.bytes q with
  | error e => rfl
  | ok b => cases l <;> rfl

/-- The cells of a quad, where it has any, are found again from their storage keys and read back as a
quad that differs from it in nothing but the form of its object. -/
theorem round_trip (hashed : Bool) (q : Quad) (l : Layout) :
    (Codec.cells {} hashed q).map (List.lookup l) = (Codec.cell {} ⟨l, hashed⟩ q).map some ∧
    ∀ cell, Codec.cell {} ⟨l, hashed⟩ q = .ok cell →
      Cell.ofKey cell.key cell.value = .ok cell ∧
      ∃ w, Codec.decode {} ⟨l, hashed⟩ cell = .ok w ∧ w.subject = q.subject ∧
        w.predicate = q.predicate ∧ w.context = q.context ∧
        w.object.datatype? = q.object.datatype? ∧
        (∃ m, q.object.meaning? = some m ∧ w.object.meaning? = some m.cut) ∧
        (q.object.IsPlain → w = q) := by
  refine ⟨lookup_cells {} hashed q l, fun cell h => ?_⟩
  obtain ⟨b, bytes, rfl⟩ := bytes_of_cell h
  have delimited := delimited_of_bytes Registry.standard_lawful bytes
  obtain ⟨_, _, object, _⟩ := bytes_eq_ok_iff.1 bytes
  obtain ⟨v, read⟩ := Registry.decode_of_stored Registry.standard_lawful
    (Registry.stored_of_encode object)
  obtain ⟨kind, meaning, plain⟩ := Registry.faithful object read
  refine ⟨QuadBytes.ofKey_key Fingerprint.standard_delimited delimited, { q with object := v }, ?_,
    rfl, rfl, rfl, kind, meaning, fun form => ?_⟩
  · rw [decode_cell delimited, ofBytes_bytes Registry.standard_lawful bytes]
    exact canonical_eq object read
  · rw [plain form]

/-- Digits of a second after the third are lost: the time read back is another one. -/
theorem round_trip_drops_digits :
    let q : Quad := ⟨⟨"s"⟩, ⟨"p"⟩, .literal Xsd.dateTime "2024-01-01T00:00:00.0005Z", none⟩
    ∃ cell w, Codec.cell {} ⟨.spo, false⟩ q = .ok cell ∧
      Codec.decode {} ⟨.spo, false⟩ cell = .ok w ∧
      q.object.meaning? = some (.time (1704067200000 + 1 / 2)) ∧
      w.object.meaning? = some (.time 1704067200000) ∧ w.object.meaning? ≠ q.object.meaning? := by
  intro q
  let cell : Cell :=
    { row := Text.utf8 "s" ++ Bytes.componentEnd :: (Text.utf8 "p" ++ Bytes.componentEnd ::
        LiteralCoding.dateTime.marker :: LiteralCoding.intPayload 1704067200000) }
  let w : Quad := ⟨⟨"s"⟩, ⟨"p"⟩, .literal Xsd.dateTime "2024-01-01T00:00:00.000Z", none⟩
  have written : q.object.meaning? = some (.time (1704067200000 + 1 / 2)) :=
    congrArg (Option.map Meaning.time) (by decide +kernel :
      Instant.exactMillis? "2024-01-01T00:00:00.0005Z" = some (1704067200000 + 1 / 2))
  have kept : w.object.meaning? = some (.time 1704067200000) :=
    congrArg (Option.map Meaning.time) (by decide +kernel :
      Instant.exactMillis? "2024-01-01T00:00:00.000Z" = some 1704067200000)
  have apart : w.object.meaning? ≠ q.object.meaning? := by
    rw [written, kept]
    simp
  exact ⟨cell, w, rfl, rfl, written, kept, apart⟩

end Codec

end QuadIndex
