import QuadIndex.Index.Basic
import QuadIndex.Store.Cursor

/-!
# Queries for the quads that match a pattern

A query scans the range of its plan. A range covers only the constants that lead a layout and knows
nothing of contexts, so every row is compared with the whole pattern before it is read in full. A row
that cannot be read is an item of its own and does not end the scan.
-/

namespace QuadIndex

/-- The quads of a query still to come. The cursor is gone once the scan is closed. -/
structure QuadScan where
  codec : Codec
  form : RowForm
  pattern : EncodedPattern
  cursor : Option Cursor

namespace QuadScan

/-- The quad of an entry, unless it does not match the pattern. -/
def accept (codec : Codec) (form : RowForm) (pattern : EncodedPattern) (entry : Bytes × Bytes) :
    Except Error (Option Quad) := do
  let cell ← Cell.ofKey entry.1 entry.2
  let components ← form.components cell.row
  if pattern.admits components cell.family then return some (← codec.decode form cell)
  else return none

/-- The next item of a cursor that does not fail to match, and the cursor after it. -/
def advance (codec : Codec) (form : RowForm) (pattern : EncodedPattern) (c : Cursor) :
    Option (Except Error Quad) × Cursor :=
  match _h : c.next with
  | (none, c') => (none, c')
  | (some (.error e), c') => (some (.error e), c')
  | (some (.ok entry), c') =>
    match accept codec form pattern entry with
    | .ok none => advance codec form pattern c'
    | .ok (some q) => (some (.ok q), c')
    | .error e => (some (.error e), c')
termination_by c.fuel
decreasing_by exact Cursor.fuel_next_lt _h

/-- Each item brings the end of the cursor nearer. -/
theorem fuel_advance_lt {codec : Codec} {form : RowForm} {pattern : EncodedPattern}
    {c c' : Cursor} {item : Except Error Quad}
    (h : advance codec form pattern c = (some item, c')) : c'.fuel < c.fuel := by
  fun_induction advance codec form pattern c with
  | case1 => cases h
  | case2 _ _ _ hn => cases h; exact Cursor.fuel_next_lt hn
  | case3 _ _ _ hn _ ih => exact Nat.lt_trans (ih h) (Cursor.fuel_next_lt hn)
  | case4 _ _ _ hn => cases h; exact Cursor.fuel_next_lt hn
  | case5 _ _ _ hn => cases h; exact Cursor.fuel_next_lt hn

/-- The next quad or error, and the scan after it. -/
def next (s : QuadScan) : Option (Except Error Quad) × QuadScan :=
  match s.cursor with
  | none => (none, s)
  | some c =>
    let (item, c) := advance s.codec s.form s.pattern c
    (item, { s with cursor := some c })

/-- Closes the scan. Closing it again does nothing. -/
def close (s : QuadScan) : Reading Unit :=
  match s.cursor with
  | none => pure ()
  | some c => c.close

/-- The scan once it is closed. -/
def closed (s : QuadScan) : QuadScan := { s with cursor := none }

/-- A bound on the items still to come. -/
def fuel (s : QuadScan) : Nat := (s.cursor.map Cursor.fuel).getD 0

/-- Each item brings the end of the scan nearer. -/
theorem fuel_next_lt {s s' : QuadScan} {item : Except Error Quad}
    (h : s.next = (some item, s')) : s'.fuel < s.fuel := by
  unfold next at h
  split at h
  · cases h
  · next c hc =>
    obtain ⟨hi, rfl⟩ := Prod.mk.inj h
    simpa [fuel, hc] using fuel_advance_lt (Prod.ext hi rfl)

/-- All items still to come, and the scan after the last. -/
def drain (s : QuadScan) : List (Except Error Quad) × QuadScan :=
  match _h : s.next with
  | (none, s') => ([], s')
  | (some item, s') =>
    let (items, last) := drain s'
    (item :: items, last)
termination_by s.fuel
decreasing_by exact fuel_next_lt _h

end QuadScan

namespace Index

/-- Opens a scan of the quads that match a pattern, and whose keys match an expression if one is
given, which must have been made for the table that the plan reads. The expression may name sets of
characters by the given properties. -/
def query (ix : Index) (store : Store) (p : Pattern) (filter : Option KeyExpression := none)
    (known : Regex.Properties := .none) : Reading QuadScan := do
  let plan ← ix.codec.plan ix.hashed p
  if let some e := filter then
    if e.form ≠ plan.form then throw (.mismatchedExpression plan.form e.form)
  let pattern ← p.encode ix.codec
  let cursor ← store.scan (ix.table plan.form.layout) plan.range filter known
  return ⟨ix.codec, plan.form, pattern, some cursor⟩

/-- The expression over the keys of the table that a query for the pattern reads. -/
def keyExpression? (ix : Index) (p : Pattern) (parts : KeyExpression.Parts) :
    Option KeyExpression :=
  KeyExpression.ofParts? ((Codec.path? ix.hashed p).getD ⟨.spo, ix.hashed⟩) parts

/-- Some quad matches the pattern. -/
def contains (ix : Index) (store : Store) (p : Pattern) : Reading Bool := do
  let scan ← ix.query store p
  match scan.next with
  | (some (.error e), scan) => do
    tryCatch scan.close fun _ => pure ()
    throw e
  | (some (.ok _), scan) => do
    scan.close
    return true
  | (none, scan) => do
    scan.close
    return false

end Index

end QuadIndex
