import QuadIndex.Proofs.Key.Quad

/-!
# Cells under further codings

A coding that is registered beside the standard ones may write any payload: its bytes are not looked
at when a cell is made. So a cell is found again from its storage key exactly where the payload holds
no delimiter of cells, and its components from its row exactly where the payload holds no delimiter of
components, or stands last in the row (`read_back_iff`). Everything else that enters a cell is refused
if it holds a delimiter.
-/

namespace QuadIndex

open Bytes Result

/-- A coding whose payloads are the bytes that its lexical forms write as pairs of digits. -/
def LiteralCoding.hexadecimal : LiteralCoding where
  datatype := ⟨"urn:h"⟩
  marker := 0x68
  encode lexical :=
    match Hex.decode? (Text.utf8 lexical) with
    | some bs => .ok bs
    | none => .error (.encoding (.custom "bad hex"))
  decode payload := .ok (Text.ofAscii (Hex.encode payload))

namespace Cell

variable {c : Cell}

/-- A cell is found again from its key exactly where its row holds no delimiter of cells. -/
theorem ofKey_key_iff (family : cellEnd ∉ c.family) :
    ofKey c.key c.value = .ok c ↔ cellEnd ∉ c.row := by
  refine ⟨fun read => ?_, fun row => ofKey_key row family⟩
  unfold ofKey at read
  split at read
  · cases read
  · next row rest cut =>
    split at read
    · cases read
    · have same : row = c.row := congrArg Cell.row (Except.ok.inj read)
      exact same ▸ (eq_append_of_cut? cut).2

end Cell

namespace RowForm

/-- A row gives back its components exactly where the first two hold no delimiter of components. -/
theorem components_row_iff (fingerprint : Fingerprint) (f : RowForm) {c : Triple Bytes} :
    f.components (f.row fingerprint c) = .ok c ↔
      componentEnd ∉ (f.layout.arrange c).1 ∧ componentEnd ∉ (f.layout.arrange c).2.1 := by
  refine ⟨fun read => ?_, fun clear => components_row fingerprint f clear.1 clear.2⟩
  unfold components at read
  split at read
  · cases read
  dsimp only at read
  split at read
  · cases read
  · next first rest cut =>
    split at read
    · cases read
    · next second third cut' =>
      obtain rfl := Except.ok.inj read
      rw [Layout.arrange_restore]
      exact ⟨(eq_append_of_cut? cut).2, (eq_append_of_cut? cut').2⟩

/-- A row holds a delimiter of cells where one of its components does. -/
theorem cellEnd_mem_row_iff {fingerprint : Fingerprint} (clear : fingerprint.Delimited) (f : RowForm)
    {c : Triple Bytes} : cellEnd ∈ f.row fingerprint c ↔ ∃ i, cellEnd ∈ c.at i := by
  have other : cellEnd ≠ componentEnd := by decide
  have lead (bs : Bytes) : cellEnd ∉ fingerprint.apply bs := (clear bs).not_mem (by decide)
  have arranged : cellEnd ∈ f.row fingerprint c ↔ cellEnd ∈ (f.layout.arrange c).1 ∨
      cellEnd ∈ (f.layout.arrange c).2.1 ∨ cellEnd ∈ (f.layout.arrange c).2.2 := by
    unfold row
    cases f.hashed <;> simp [other, lead]
  rw [arranged]
  constructor
  · rintro (h | h | h) <;> exact ⟨_, h⟩
  · rintro ⟨i, h⟩
    cases f.layout <;> cases i <;> simp [Layout.arrange, Layout.order, h]

end RowForm

namespace Registry

variable {r s : Registry} {c : LiteralCoding}

/-- The registries that are made from the empty or the standard one by registering codings. -/
inductive Built : Registry → Prop
  | empty : Built .empty
  | standard : Built .standard
  | register {r s : Registry} {c : LiteralCoding} : Built r → r.register c = .ok s → Built s

/-- A call succeeds where the marker may be had and neither the marker nor the datatype is taken. -/
theorem register_eq_ok_iff : r.register c = .ok s ↔
    (isReserved c.marker = false ∧ r.forMarker? c.marker = none ∧
      r.forDatatype? c.datatype = none) ∧ s = ⟨r.codings ++ [c]⟩ := by
  unfold register
  cases reserved : isReserved c.marker with
  | true => simp
  | false =>
    cases marker : r.forMarker? c.marker with
    | some other => simp
    | none =>
      cases datatype : r.forDatatype? c.datatype with
      | some other => simp
      | none => simp [eq_comm]

/-- No registered coding has a marker that is kept from codings. -/
theorem Built.free (built : r.Built) (mem : c ∈ r.codings) : isReserved c.marker = false := by
  induction built with
  | empty => cases mem
  | standard => exact standard_lawful.free mem
  | register _ registered ih =>
    obtain ⟨⟨free, _⟩, rfl⟩ := register_eq_ok_iff.1 registered
    rcases List.mem_append.1 mem with mem | mem
    · exact ih mem
    · obtain rfl := List.mem_singleton.1 mem
      exact free

/-- The bytes of a value hold no delimiter of cells or of components unless a coding beside the
standard ones wrote them. -/
theorem Built.above_of_stored (built : r.Built) {v : Value} {bs : Bytes} (h : r.Stored v bs)
    (known : ∀ c ∈ r.codings, v.datatype? = some c.datatype → c ∈ LiteralCoding.standard) :
    Above cellEnd bs :=
  h.above (fun _ mem => built.free mem) fun c mem _ _ same encoded =>
    (LiteralCoding.lawful_of_mem_standard (known c mem (same ▸ rfl))).above encoded

end Registry

namespace Codec

variable {r : Registry}

/-- The subject, the predicate and the context of a cell hold no delimiter. -/
theorem above_of_components {c : Codec} {q : Quad} {t : Triple Bytes} (h : c.components q = .ok t) :
    Above datatypeStart t.subject ∧ Above datatypeStart t.predicate ∧
      c.registry.encode q.object = .ok t.object := by
  obtain ⟨_, subject, h⟩ := bind_eq_ok_iff.1 h
  obtain ⟨_, predicate, h⟩ := bind_eq_ok_iff.1 h
  obtain ⟨_, object, same⟩ := bind_eq_ok_iff.1 h
  cases same
  exact ⟨(Iri.encode_eq_ok_iff.1 subject).2, (Iri.encode_eq_ok_iff.1 predicate).2, object⟩

theorem above_family {g : Option Iri} {bs : Bytes} (h : family g = .ok bs) :
    Above datatypeStart bs := by
  rcases family_eq_ok h with ⟨_, rfl⟩ | ⟨_, _, _, _, above⟩
  · exact .nil
  · exact above

/-- Under any registry a quad has no cell, or its cell is found again from the storage key exactly
where the object holds no delimiter of cells, and its components from the row exactly where the object
stands last or holds no delimiter of components. Nothing but a payload of a coding beside the standard
ones can hold either. -/
theorem read_back_iff (r : Registry) (built : r.Built) (f : RowForm) (q : Quad) :
    (∃ e, Codec.cell { registry := r } f q = .error e) ∨
    ∃ cell components, Codec.cell { registry := r } f q = .ok cell ∧
      Codec.components { registry := r } q = .ok components ∧
      (Cell.ofKey cell.key cell.value = .ok cell ↔ cellEnd ∉ components.object) ∧
      (f.components cell.row = .ok components ↔
        f.layout = .spo ∨ componentEnd ∉ components.object) ∧
      Above datatypeStart components.subject ∧ Above datatypeStart components.predicate ∧
      Above datatypeStart cell.family ∧
      ((∀ c ∈ r.codings, q.object.datatype? = some c.datatype → c ∈ LiteralCoding.standard) →
        Above cellEnd components.object) := by
  cases made : Codec.cell { registry := r } f q with
  | error e => exact .inl ⟨e, rfl⟩
  | ok cell =>
    obtain ⟨t, components, h⟩ := bind_eq_ok_iff.1 made
    obtain ⟨bs, family, same⟩ := bind_eq_ok_iff.1 h
    obtain rfl := Except.ok.inj same
    obtain ⟨subject, predicate, object⟩ := above_of_components components
    have context := above_family family
    have clear {d : UInt8} (low : d ≤ datatypeStart) : d ∉ t.subject ∧ d ∉ t.predicate :=
      ⟨subject.not_mem low, predicate.not_mem low⟩
    refine .inr ⟨_, t, rfl, components, ?_, ?_, subject, predicate, context,
      built.above_of_stored (Registry.stored_of_encode object)⟩
    · obtain ⟨noSubject, noPredicate⟩ := clear (d := cellEnd) (by decide)
      rw [Cell.ofKey_key_iff (context.not_mem (by decide)),
        RowForm.cellEnd_mem_row_iff Fingerprint.standard_delimited, not_iff_not]
      refine ⟨?_, fun h => ⟨.object, h⟩⟩
      rintro ⟨i, h⟩
      cases i with
      | subject => exact absurd h noSubject
      | predicate => exact absurd h noPredicate
      | object => exact h
    · obtain ⟨noSubject, noPredicate⟩ := clear (d := componentEnd) (by decide)
      rw [RowForm.components_row_iff]
      obtain ⟨l, hashed⟩ := f
      cases l <;> simp [Layout.arrange, Layout.order, Triple.at, noSubject, noPredicate]

/-- A literal whose payload is one letter is found again in the table that is sorted by objects. -/
theorem read_back_letter :
    ∃ r, Registry.standard.register .hexadecimal = .ok r ∧
      let q : Quad := ⟨⟨"s"⟩, ⟨"p"⟩, .literal LiteralCoding.hexadecimal.datatype "61", none⟩
      ∃ cell components, Codec.cell { registry := r } ⟨.osp, true⟩ q = .ok cell ∧
        Cell.ofKey cell.key cell.value = .ok cell ∧
        RowForm.components ⟨.osp, true⟩ cell.row = .ok components ∧
        components.object = [0x68, 0x61] := by
  let r : Registry := ⟨LiteralCoding.standard ++ [.hexadecimal]⟩
  have registered : Registry.standard.register .hexadecimal = .ok r := rfl
  refine ⟨r, registered, ?_⟩
  intro q
  rcases read_back_iff r (.register .standard registered) ⟨.osp, true⟩ q with
    ⟨e, failed⟩ | ⟨cell, t, made, components, key, row, _⟩
  · cases failed
  · have object : t.object = [0x68, 0x61] :=
      (congrArg Triple.object (Except.ok.inj components)).symm
    refine ⟨cell, t, made, key.2 ?_, row.2 (.inr ?_), object⟩
    · rw [object]
      decide
    · rw [object]
      decide

/-- A payload with a delimiter is stored all the same. A delimiter of cells ends the row too early, and
a delimiter of components is taken for the end of the object. -/
theorem not_read_back :
    ∃ r, Registry.standard.register .hexadecimal = .ok r ∧
      (let q : Quad := ⟨⟨"s"⟩, ⟨"p"⟩, .literal LiteralCoding.hexadecimal.datatype "01", none⟩
        ∃ cell, Codec.cell { registry := r } ⟨.spo, false⟩ q = .ok cell ∧
          Cell.ofKey cell.key cell.value ≠ .ok cell) ∧
      (let q : Quad := ⟨⟨"s"⟩, ⟨"p"⟩, .literal LiteralCoding.hexadecimal.datatype "00", none⟩
        ∃ cell components, Codec.cell { registry := r } ⟨.po, false⟩ q = .ok cell ∧
          Codec.components { registry := r } q = .ok components ∧
          RowForm.components ⟨.po, false⟩ cell.row ≠ .ok components) := by
  refine ⟨_, rfl, ⟨_, rfl, ?_⟩, _, _, rfl, rfl, ?_⟩
  · rw [Ne, Cell.ofKey_key_iff (by decide)]
    decide
  · rw [Ne, RowForm.components_row_iff]
    decide

end Codec

end QuadIndex
