import QuadIndex.Proofs.Store.Reading
import QuadIndex.Query.Scan

/-!
# Scans that do not fail

A scan yields a list of quads if its entries can all be read, and those that match its pattern are
read as these quads. Then its items are the quads one after another, and closing it succeeds.
-/

namespace QuadIndex.QuadScan

open Reading

variable {codec : Codec} {form : RowForm} {pattern : EncodedPattern} {s : QuadScan} {q : Quad}
  {qs : List Quad}

/-- The entries can be read, and the matching ones are read as the given quads. -/
def Reads (codec : Codec) (form : RowForm) (pattern : EncodedPattern)
    (entries : List (Bytes × Bytes)) (qs : List Quad) : Prop :=
  ∃ found : List (Option Quad),
    entries.map (accept codec form pattern) = found.map .ok ∧ found.filterMap id = qs

/-- The items of the scan are the given quads, and no failures. -/
def Yields (s : QuadScan) (qs : List Quad) : Prop :=
  ∃ entries, s.cursor = some ⟨entries, none, false⟩ ∧ Reads s.codec s.form s.pattern entries qs

theorem reads_cons {entry : Bytes × Bytes} {entries : List (Bytes × Bytes)}
    (h : Reads codec form pattern (entry :: entries) qs) :
    (accept codec form pattern entry = .ok none ∧ Reads codec form pattern entries qs) ∨
    ∃ q rest, accept codec form pattern entry = .ok (some q) ∧ qs = q :: rest ∧
      Reads codec form pattern entries rest := by
  obtain ⟨found, read, rfl⟩ := h
  cases found with
  | nil => cases read
  | cons o found =>
    obtain ⟨first, rest⟩ := List.cons.inj read
    cases o with
    | none => exact .inl ⟨first, found, rest, rfl⟩
    | some q => exact .inr ⟨q, _, first, rfl, found, rest, rfl⟩

/-- The quads are those that the entries are read as. -/
theorem Reads.mem_iff {entries : List (Bytes × Bytes)} (h : Reads codec form pattern entries qs) :
    q ∈ qs ↔ ∃ entry ∈ entries, accept codec form pattern entry = .ok (some q) := by
  obtain ⟨found, read, rfl⟩ := h
  have same : q ∈ found.filterMap id ↔
      (.ok (some q) : Except Error (Option Quad)) ∈ found.map .ok := by
    simp
  rw [same, ← read, List.mem_map]

/-- Entries left out leave quads out, and change nothing else. -/
theorem Reads.filter {entries : List (Bytes × Bytes)} (h : Reads codec form pattern entries qs)
    (test : Bytes × Bytes → Bool) :
    ∃ qs', Reads codec form pattern (entries.filter test) qs' ∧ qs'.Sublist qs := by
  induction entries generalizing qs with
  | nil => exact ⟨qs, h, .refl qs⟩
  | cons entry entries ih =>
    cases tested : test entry with
    | false =>
      rw [List.filter_cons_of_neg (by rw [tested]; exact Bool.false_ne_true)]
      rcases reads_cons h with ⟨_, rest⟩ | ⟨q, rest, _, rfl, read⟩
      · exact ih rest
      · obtain ⟨qs', read', sublist⟩ := ih read
        exact ⟨qs', read', sublist.cons q⟩
    | true =>
      rw [List.filter_cons_of_pos tested]
      rcases reads_cons h with ⟨first, rest⟩ | ⟨q, rest, first, rfl, read⟩
      · obtain ⟨qs', ⟨found, read', rfl⟩, sublist⟩ := ih rest
        refine ⟨_, ⟨none :: found, ?_, rfl⟩, sublist⟩
        rw [List.map_cons, List.map_cons, first, read']
      · obtain ⟨qs', ⟨found, read', rfl⟩, sublist⟩ := ih read
        refine ⟨_, ⟨some q :: found, ?_, rfl⟩, sublist.cons_cons q⟩
        rw [List.map_cons, List.map_cons, first, read']

theorem advance_nil : advance codec form pattern ⟨[], none, false⟩ = (none, ⟨[], none, false⟩) := by
  rw [advance]
  rfl

theorem advance_cons {entry : Bytes × Bytes} {entries : List (Bytes × Bytes)} :
    advance codec form pattern ⟨entry :: entries, none, false⟩ =
      match accept codec form pattern entry with
      | .ok none => advance codec form pattern ⟨entries, none, false⟩
      | .ok (some q) => (some (.ok q), ⟨entries, none, false⟩)
      | .error e => (some (.error e), ⟨entries, none, false⟩) := by
  rw [advance]
  rfl

/-- The next item of entries that are read as quads is the first of these, if there is one. -/
theorem advance_of_reads {entries : List (Bytes × Bytes)}
    (h : Reads codec form pattern entries qs) :
    ∃ rest, advance codec form pattern ⟨entries, none, false⟩ =
        (qs.head?.map .ok, ⟨rest, none, false⟩) ∧ Reads codec form pattern rest qs.tail := by
  induction entries with
  | nil =>
    obtain ⟨found, read, rfl⟩ := h
    cases found with
    | nil => exact ⟨[], advance_nil, [], rfl, rfl⟩
    | cons o found => cases read
  | cons entry entries ih =>
    rw [advance_cons]
    rcases reads_cons h with ⟨first, rest⟩ | ⟨q, rest, first, rfl, read⟩
    · rw [first]
      exact ih rest
    · rw [first]
      exact ⟨entries, rfl, read⟩

/-- The scan gives the first of its quads and goes on with the others. -/
theorem Yields.next (h : s.Yields qs) :
    ∃ s', s.next = (qs.head?.map .ok, s') ∧ s'.Yields qs.tail := by
  obtain ⟨entries, cursor, read⟩ := h
  obtain ⟨rest, advanced, read'⟩ := advance_of_reads read
  refine ⟨{ s with cursor := some ⟨rest, none, false⟩ }, ?_, rest, rfl, read'⟩
  simp only [QuadScan.next, cursor, advanced]

theorem drain_of_next {s' : QuadScan} {item : Except Error Quad} (h : s.next = (some item, s')) :
    s.drain = (item :: s'.drain.1, s'.drain.2) := by
  rw [QuadScan.drain]
  split
  · next same => cases h.symm.trans same
  · next other last same =>
    obtain ⟨first, rfl⟩ := Prod.mk.inj (h.symm.trans same)
    cases first
    rfl

theorem drain_of_end {s' : QuadScan} (h : s.next = (none, s')) : s.drain = ([], s') := by
  rw [QuadScan.drain]
  split
  · next last same => exact congrArg _ (Prod.mk.inj (same.symm.trans h)).2
  · next same => cases h.symm.trans same

/-- All items of a scan are its quads. -/
theorem Yields.drain (h : s.Yields qs) : ∃ s', s.drain = (qs.map .ok, s') ∧ s'.Yields [] := by
  induction qs generalizing s with
  | nil =>
    obtain ⟨s', next, rest⟩ := h.next
    exact ⟨s', drain_of_end next, rest⟩
  | cons q qs ih =>
    obtain ⟨s', next, rest⟩ := h.next
    obtain ⟨last, drained, ended⟩ := ih rest
    refine ⟨last, ?_, ended⟩
    rw [drain_of_next next, drained]
    rfl

theorem Yields.close (h : s.Yields qs) : Gives s.close (.ok ()) := by
  obtain ⟨entries, cursor, _⟩ := h
  rw [QuadScan.close, cursor]
  intro _
  rfl

/-- A scan has as many items to come as quads, at least. -/
theorem Yields.length_le_fuel (h : s.Yields qs) : qs.length ≤ s.fuel := by
  obtain ⟨entries, cursor, found, read, rfl⟩ := h
  have length := congrArg List.length read
  have most := List.length_filterMap_le id found
  simp only [List.length_map] at length
  simp only [QuadScan.fuel, cursor, Option.map_some, Option.getD_some, Cursor.fuel]
  omega

end QuadIndex.QuadScan
