import QuadIndex.Digest.Fingerprint
import QuadIndex.Key.Cell
import QuadIndex.Key.Component
import QuadIndex.Model.Quad

/-!
# Quads as cells

The row of a quad joins its subject, predicate and object in the order of a layout; a fingerprint of
the first may stand before them. The context is the family of the cell, empty for the default graph.
-/

namespace QuadIndex

namespace RowForm

/-- The row of the given components. -/
def row (fingerprint : Fingerprint) (f : RowForm) (c : Triple Bytes) : Bytes :=
  let (first, second, third) := f.layout.arrange c
  let body := first ++ Bytes.componentEnd :: (second ++ Bytes.componentEnd :: third)
  if f.hashed then fingerprint.apply first ++ body else body

/-- The components of a row; the last one may hold component delimiters. -/
def components (f : RowForm) (row : Bytes) : Except Error (Triple Bytes) :=
  if f.hashed ∧ row.length < Fingerprint.length then .error (.invalidKey .shortRow)
  else
    let body := if f.hashed then row.drop Fingerprint.length else row
    match Bytes.cut? Bytes.componentEnd body with
    | none => .error (.invalidKey (.fewComponents f.layout))
    | some (first, rest) =>
      match Bytes.cut? Bytes.componentEnd rest with
      | none => .error (.invalidKey (.fewComponents f.layout))
      | some (second, third) => .ok (f.layout.restore (first, second, third))

/-- A row gives back its components where the first two hold no delimiter. -/
theorem components_row (fingerprint : Fingerprint) (f : RowForm) {c : Triple Bytes}
    (first : Bytes.componentEnd ∉ (f.layout.arrange c).1)
    (second : Bytes.componentEnd ∉ (f.layout.arrange c).2.1) :
    f.components (f.row fingerprint c) = .ok c := by
  obtain ⟨layout, hashed⟩ := f
  have restored : layout.restore ((layout.arrange c).1, (layout.arrange c).2.1,
      (layout.arrange c).2.2) = c := layout.restore_arrange c
  cases hashed with
  | false => simp [components, row, Bytes.cut?_append first, Bytes.cut?_append second, restored]
  | true =>
    have length : (fingerprint.apply (layout.arrange c).1).length = Fingerprint.length :=
      fingerprint.length_apply _
    have long (body : Bytes) :
        ¬ (fingerprint.apply (layout.arrange c).1 ++ body).length < Fingerprint.length := by
      simp [length]
    simp only [components, row, if_true, true_and, if_neg (long _), List.drop_left' length,
      Bytes.cut?_append first, Bytes.cut?_append second, restored]

end RowForm

/-- What it takes to store quads: the codings of literals and the fingerprint of components. -/
structure Codec where
  registry : Registry := .standard
  fingerprint : Fingerprint := .standard

namespace Codec

/-- The bytes of subject, predicate and object. -/
def components (c : Codec) (q : Quad) : Except Error (Triple Bytes) := do
  let subject ← q.subject.encode
  let predicate ← q.predicate.encode
  let object ← c.registry.encode q.object
  return ⟨subject, predicate, object⟩

/-- The family of a context. The empty IRI would read back as the default graph. -/
def family : Option Iri → Except Error Bytes
  | none => .ok []
  | some g => if g.text = "" then .error (.encoding .emptyContext) else g.encode

/-- The cell of a quad in a table of the given form. -/
def cell (c : Codec) (f : RowForm) (q : Quad) : Except Error Cell := do
  let components ← c.components q
  let family ← family q.context
  return { row := f.row c.fingerprint components, family }

/-- The cells of a quad in the tables of all layouts. -/
def cells (c : Codec) (hashed : Bool) (q : Quad) : Except Error (List (Layout × Cell)) := do
  let components ← c.components q
  let family ← family q.context
  return Layout.all.map fun l =>
    (l, { row := RowForm.row c.fingerprint ⟨l, hashed⟩ components, family })

/-- The quad of a cell in a table of the given form. -/
def decode (c : Codec) (f : RowForm) (cell : Cell) : Except Error Quad := do
  let components ← f.components cell.row
  let context ← match cell.family with
    | [] => pure none
    | family => do pure (some ⟨← Plain.decode .context family⟩)
  let subject ← Plain.decode .subject components.subject
  let predicate ← Plain.decode .predicate components.predicate
  let object ← c.registry.decode components.object
  return ⟨⟨subject⟩, ⟨predicate⟩, object, context⟩

end Codec

end QuadIndex
