import QuadIndex.Proofs.Key.Quad

/-!
# Writing back what was read

What is read from stored bytes can be written again, and then gives the same bytes, with one
exception: an instant outside the years 0 to 9999 is read as a text that is not in full form, and that
text is refused (`Registry.rewritten`, `Codec.StoredAs.rewritten`).
-/

namespace QuadIndex

open Bytes Result

namespace LiteralCoding

variable {c : LiteralCoding} {datatype : Iri} {marker : UInt8} {low high : Int}
  {lexical form : String} {payload : Bytes}

/-- What becomes of a form that was read from a payload: it is written as the payload, or it is that
of an instant, not in full, and is refused. -/
inductive Rewritten (c : LiteralCoding) (form : String) (payload : Bytes) : Prop
  | same (full : c.datatype = Xsd.dateTime → Instant.IsFull form)
    (encoded : c.encode form = .ok payload)
  | refused (time : c.datatype = Xsd.dateTime) (short : ¬ Instant.IsFull form)
    (failed : c.encode form = .error (.encoding (.invalidDateTime form)))

theorem string_rewritten (h : string.encode lexical = .ok payload)
    (d : string.decode payload = .ok form) : string.encode form = .ok payload := by
  obtain ⟨rfl, _⟩ := Plain.encode_eq_ok_iff.1 h
  obtain rfl : lexical = form := Except.ok.inj ((Plain.decode_utf8 _ _).symm.trans d)
  exact h

theorem wholeNumber_rewritten (h : (wholeNumber datatype marker low high).encode lexical = .ok payload)
    (d : (wholeNumber datatype marker low high).decode payload = .ok form) :
    (wholeNumber datatype marker low high).encode form = .ok payload := by
  obtain ⟨n, read, inside, rfl⟩ := encode_wholeNumber h
  obtain rfl := Except.ok.inj ((decode_wholeNumber read).symm.trans d)
  obtain ⟨least, most⟩ := Numeral.bounds_of_int64? read
  simp only [wholeNumber, Numeral.int64?_ofInt least most, if_neg inside]

theorem floating_rewritten (h : (floating datatype marker).encode lexical = .ok payload)
    (d : (floating datatype marker).decode payload = .ok form) :
    (floating datatype marker).encode form = .ok payload := by
  obtain ⟨x, _, finite, rfl⟩ := encode_floating h
  obtain rfl := Except.ok.inj ((decode_floating x).symm.trans d)
  simp only [floating, Binary64.ofText?_toText finite, finite, if_true]

theorem boolean_rewritten (d : boolean.decode payload = .ok form) :
    boolean.encode form = .ok payload := by
  dsimp only [boolean] at d
  split at d
  · next yes =>
    cases d
    exact congrArg Except.ok yes.symm
  · split at d
    · next no =>
      cases d
      exact congrArg Except.ok no.symm
    · cases d

theorem dateTime_rewritten (h : dateTime.encode lexical = .ok payload)
    (d : dateTime.decode payload = .ok form) : dateTime.Rewritten form payload := by
  obtain ⟨t, read, rfl⟩ := encode_dateTime h
  rcases Instant.ofText?_of_toText? ((decode_dateTime read).1 d) with ⟨full, again⟩ | ⟨short, none⟩
  · exact .same (fun _ => full) (by simp only [dateTime, again])
  · exact .refused rfl short (by simp only [dateTime, none])

theorem rewritten_of_mem_standard (mem : c ∈ standard) (h : c.encode lexical = .ok payload)
    (d : c.decode payload = .ok form) : c.Rewritten form payload := by
  simp only [standard, List.mem_cons, List.not_mem_nil, or_false] at mem
  have other {c : LiteralCoding} (datatype : c.datatype ≠ Xsd.dateTime)
      (encoded : c.encode form = .ok payload) : c.Rewritten form payload :=
    .same (fun time => absurd time datatype) encoded
  rcases mem with rfl | rfl | rfl | rfl | rfl | rfl | rfl | rfl
  · exact other (by decide) (string_rewritten h d)
  · exact other (by decide) (wholeNumber_rewritten h d)
  · exact other (by decide) (wholeNumber_rewritten h d)
  · exact other (by decide) (wholeNumber_rewritten h d)
  · exact other (by decide) (floating_rewritten h d)
  · exact other (by decide) (floating_rewritten h d)
  · exact other (by decide) (boolean_rewritten d)
  · exact dateTime_rewritten h d

end LiteralCoding

/-- If the value is an instant, it is written in full. -/
def Value.TimeInFull (v : Value) : Prop :=
  ∀ lexical, v = .literal Xsd.dateTime lexical → Instant.IsFull lexical

namespace Registry

variable {v w : Value} {bs : Bytes}

/-- A value that was read from bytes is written as them, or it is an instant, not in full, and is
refused. -/
theorem rewritten (h : standard.encode v = .ok bs) (read : standard.decode bs = .ok w) :
    (w.TimeInFull ∧ standard.encode w = .ok bs) ∨
    ∃ lexical, w = .literal Xsd.dateTime lexical ∧ ¬ Instant.IsFull lexical ∧
      standard.encode w = .error (.encoding (.invalidDateTime lexical)) := by
  have stored := stored_of_encode h
  cases stored with
  | @iri i =>
    obtain rfl := Except.ok.inj ((decode_iri standard i).symm.trans read)
    exact .inl ⟨nofun, h⟩
  | @coded c lexical payload mem encoded =>
    rw [decode_coded standard_lawful mem] at read
    obtain ⟨form, decoded, rfl⟩ := map_eq_ok_iff.1 read
    cases LiteralCoding.rewritten_of_mem_standard mem encoded decoded with
    | same full again =>
      refine .inl ⟨fun other same => ?_, ?_⟩
      · obtain ⟨time, rfl⟩ := Value.literal.inj same
        exact full time
      · rw [encode_coded standard_lawful mem, again]
        rfl
    | refused time short failed =>
      refine .inr ⟨form, by rw [time], short, ?_⟩
      rw [encode_coded standard_lawful mem, failed]
      rfl
  | @custom datatype lexical unknown form =>
    obtain rfl := Except.ok.inj ((decode_custom form).symm.trans read)
    refine .inl ⟨fun other same => ?_, h⟩
    obtain ⟨rfl, _⟩ := Value.literal.inj same
    cases unknown

/-- A canonical form is its own canonical form, unless it is refused. -/
theorem canonicalize_again (h : standard.canonicalize v = .ok w) :
    (w.TimeInFull ∧ standard.canonicalize w = .ok w) ∨
    ∃ lexical, w = .literal Xsd.dateTime lexical ∧ ¬ Instant.IsFull lexical ∧
      standard.canonicalize w = .error (.encoding (.invalidDateTime lexical)) := by
  obtain ⟨bs, encoded, read⟩ := bind_eq_ok_iff.1 h
  rcases rewritten encoded read with ⟨full, again⟩ | ⟨lexical, same, short, failed⟩
  · exact .inl ⟨full, bind_eq_ok_iff.2 ⟨bs, again, read⟩⟩
  · exact .inr ⟨lexical, same, short, bind_eq_error_iff.2 (.inl failed)⟩

end Registry

namespace Codec

/-- A quad that was read from bytes has these bytes, or its object is an instant, not in full, and it
is refused. -/
theorem StoredAs.rewritten {c : Codec} {w : Quad} {b : QuadBytes} (registry : c.registry = .standard)
    (h : c.StoredAs w b) :
    (w.object.TimeInFull ∧ c.bytes w = .ok b) ∨
    ∃ lexical, w.object = .literal Xsd.dateTime lexical ∧ ¬ Instant.IsFull lexical ∧
      c.registry.encode w.object = .error (.encoding (.invalidDateTime lexical)) ∧
      c.bytes w = .error (.encoding (.invalidDateTime lexical)) := by
  obtain ⟨subject, predicate, context, v, object, read⟩ := h.parts
  rw [registry] at object read
  rcases Registry.rewritten object read with ⟨full, again⟩ | ⟨lexical, same, short, failed⟩
  · exact .inl ⟨full, bytes_eq_ok_iff.2 ⟨subject, predicate, registry ▸ again, context⟩⟩
  · refine .inr ⟨lexical, same, short, registry ▸ failed, ?_⟩
    refine bind_eq_error_iff.2 (.inl ?_)
    refine bind_eq_error_iff.2 (.inr ⟨_, subject, ?_⟩)
    refine bind_eq_error_iff.2 (.inr ⟨_, predicate, ?_⟩)
    exact bind_eq_error_iff.2 (.inl (registry ▸ failed))

end Codec

end QuadIndex
