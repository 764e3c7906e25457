import QuadIndex.Path.KeyExpression
import QuadIndex.Store.Basic

/-!
# Scans of tables

A scan yields the entries of a range of one table, in order, and is closed in the end. Opening and
closing are counted, whatever becomes of the scan: reading is a computation that may fail but always
leaves the counts behind.
-/

namespace QuadIndex

/-- How many scans have been opened and how many closed. -/
structure ScanCount where
  opened : Nat := 0
  closed : Nat := 0
  deriving DecidableEq, Repr

/-- A computation that reads from a store. -/
abbrev Reading := ExceptT Error (StateM ScanCount)

/-- Reading goes on with what a call leaves, and fails where the call has failed. -/
instance : MonadLift Written Reading where
  monadLift w := do
    w.result
    return w.left

/-- A computation with its failure as its result. -/
def Reading.attempt {α : Type} (x : Reading α) : Reading (Except Error α) :=
  ExceptT.mk (Except.ok <$> x.run)

/-- An open scan: the entries to come, the number of calls before it fails if it does, and whether
closing it fails. -/
structure Cursor where
  entries : List (Bytes × Bytes)
  allowance : Option Nat := none
  closing : Bool := false

namespace Cursor

/-- The next entry or the failure that ends the scan, and the scan after it. -/
def next (c : Cursor) : Option (Except Error (Bytes × Bytes)) × Cursor :=
  match c.allowance, c.entries with
  | some 0, _ =>
    (some (.error (.backingStore "injected failure")), { c with entries := [], allowance := none })
  | allowance, [] => (none, { c with allowance := allowance.map (· - 1) })
  | allowance, e :: es =>
    (some (.ok e), { c with entries := es, allowance := allowance.map (· - 1) })

/-- A bound on the items still to come. -/
def fuel (c : Cursor) : Nat := 2 * c.entries.length + if c.allowance.isSome then 1 else 0

/-- Each item brings the end nearer. -/
theorem fuel_next_lt {c c' : Cursor} {item : Except Error (Bytes × Bytes)}
    (h : c.next = (some item, c')) : c'.fuel < c.fuel := by
  unfold next at h
  split at h
  · next ha =>
    cases h
    simp [fuel, ha]
  · cases h
  · next e es he _ =>
    cases h
    simp only [fuel, he, List.length_cons, Option.isSome_map]
    omega

/-- All items still to come, and the scan after the last. -/
def drain (c : Cursor) : List (Except Error (Bytes × Bytes)) × Cursor :=
  match _h : c.next with
  | (none, c') => ([], c')
  | (some item, c') =>
    let (items, last) := drain c'
    (item :: items, last)
termination_by c.fuel
decreasing_by exact fuel_next_lt _h

/-- Closes the scan. -/
def close (c : Cursor) : Reading Unit := do
  modify fun n => { n with closed := n.closed + 1 }
  if c.closing then throw (.backingStore "close failed")

end Cursor

namespace Store

/-- Opens a scan of the entries in a range whose keys match an expression, in which sets may be named
by the given properties. The expression is not looked at where the range is empty. -/
def scan (s : Store) (table : String) (range : ByteRange) (filter : Option KeyExpression)
    (known : Regex.Properties := .none) : Reading Cursor := do
  let entries ←
    if range.isEmpty then pure []
    else match filter with
      | none => pure ((s.tables table).inRange range)
      | some e => do
        let r ← e.compile known
        pure (((s.tables table).inRange range).filter fun entry => r.isMatch entry.1)
  let faults := if s.faults.table = some table then s.faults else {}
  if faults.opening then throw (.backingStore "open failed")
  modify fun n => { n with opened := n.opened + 1 }
  return ⟨entries, faults.after, faults.closing⟩

/-- The value under a key, found by a scan of that key alone. -/
def get? (s : Store) (table : String) (key : Bytes) : Reading (Option Bytes) := do
  let cursor ← s.scan table ⟨key, key ++ [0x00]⟩ none
  match cursor.next with
  | (some (.error e), cursor) => do
    tryCatch cursor.close fun _ => pure ()
    throw e
  | (some (.ok (found, value)), cursor) => do
    cursor.close
    return if found = key then some value else none
  | (none, cursor) => do
    cursor.close
    return none

end Store

end QuadIndex
