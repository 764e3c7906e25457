import QuadIndex.Store.Cursor

/-!
# Collected results

Results that are all in memory behave as a scan does: they come one by one and are closed in the end.
-/

namespace QuadIndex

/-- Results still to come; none once closed. -/
structure Collected (α : Type) where
  items : Option (List α)

namespace Collected

variable {α : Type}

/-- All of the given results. -/
def ofList (items : List α) : Collected α := ⟨some items⟩

/-- The next result, and those after it. -/
def next (c : Collected α) : Option α × Collected α :=
  match c.items with
  | some (a :: as) => (some a, ⟨some as⟩)
  | _ => (none, c)

/-- How many results are still to come. -/
def size (c : Collected α) : Nat := (c.items.getD []).length

/-- The results once closed. -/
def close (_ : Collected α) : Collected α := ⟨none⟩

end Collected

/-- The first failure among results, of which all have been asked for. -/
def closeAll (results : List (Except Error Unit)) : Except Error Unit := results.forM id

end QuadIndex
