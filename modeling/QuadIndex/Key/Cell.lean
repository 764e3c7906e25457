import QuadIndex.Error

/-!
# Cells and their storage keys

A cell has a row, a family, a qualifier and a value. Its storage key joins the first three, and is
cut at its first two cell delimiters to get them back.
-/

namespace QuadIndex

/-- One stored cell. -/
structure Cell where
  row : Bytes
  family : Bytes := []
  qualifier : Bytes := []
  value : Bytes := []
  deriving DecidableEq, Repr

namespace Cell

/-- The key under which the cell is stored. -/
def key (c : Cell) : Bytes :=
  c.row ++ Bytes.cellEnd :: (c.family ++ Bytes.cellEnd :: c.qualifier)

/-- The cell stored under a key. -/
def ofKey (key value : Bytes) : Except Error Cell :=
  match Bytes.cut? Bytes.cellEnd key with
  | none => .error (.invalidKey .missingRowEnd)
  | some (row, rest) =>
    match Bytes.cut? Bytes.cellEnd rest with
    | none => .error (.invalidKey .missingFamilyEnd)
    | some (family, qualifier) => .ok ⟨row, family, qualifier, value⟩

/-- A cell is found again where its row and its family hold no delimiter. -/
theorem ofKey_key {c : Cell} (row : Bytes.cellEnd ∉ c.row) (family : Bytes.cellEnd ∉ c.family) :
    ofKey c.key c.value = .ok c := by
  simp [ofKey, key, Bytes.cut?_append row, Bytes.cut?_append family]

end Cell

end QuadIndex
