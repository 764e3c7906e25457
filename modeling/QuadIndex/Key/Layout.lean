/-!
# Layouts of rows

The subject, predicate and object of a quad stand in a row in one of three orders, each of them a
rotation of the others. A table may also keep a fingerprint of the first one in front of its rows.
-/

namespace QuadIndex

/-- A position of a quad that its row holds. -/
inductive Position where
  | subject
  | predicate
  | object
  deriving DecidableEq, Repr

/-- Something for each of the three positions. -/
structure Triple (α : Type) where
  subject : α
  predicate : α
  object : α
  deriving DecidableEq, Repr

/-- What the triple holds for a position. -/
def Triple.at {α : Type} (t : Triple α) : Position → α
  | .subject => t.subject
  | .predicate => t.predicate
  | .object => t.object

/-- An order of the positions in a row. -/
inductive Layout where
  | spo
  | po
  | osp
  deriving DecidableEq, Repr

namespace Layout

variable {α : Type}

/-- Every layout. -/
def all : List Layout := [spo, po, osp]

/-- The name of the layout. -/
def name : Layout → String
  | spo => "spo"
  | po => "po"
  | osp => "osp"

/-- The positions in the order of the layout. -/
def order : Layout → Position × Position × Position
  | spo => (.subject, .predicate, .object)
  | po => (.predicate, .object, .subject)
  | osp => (.object, .subject, .predicate)

/-- The position that rows begin with. -/
def leading (l : Layout) : Position := l.order.1

/-- What a triple holds, in the order of the layout. -/
def arrange (l : Layout) (t : Triple α) : α × α × α :=
  let (first, second, third) := l.order
  (t.at first, t.at second, t.at third)

/-- The triple whose parts are given in the order of the layout. -/
def restore : Layout → α × α × α → Triple α
  | spo, (s, p, o) => ⟨s, p, o⟩
  | po, (p, o, s) => ⟨s, p, o⟩
  | osp, (o, s, p) => ⟨s, p, o⟩

@[simp] theorem restore_arrange (l : Layout) (t : Triple α) : l.restore (l.arrange t) = t := by
  cases l <;> rfl

@[simp] theorem arrange_restore (l : Layout) (p : α × α × α) : l.arrange (l.restore p) = p := by
  cases l <;> rfl

end Layout

/-- The form of the rows of a table: their layout, and whether a fingerprint of the first component
leads them. -/
structure RowForm where
  layout : Layout
  hashed : Bool
  deriving DecidableEq, Repr

/-- The form in words. -/
def RowForm.describe (f : RowForm) : String :=
  if f.hashed then "hashed " ++ f.layout.name else f.layout.name

end QuadIndex
