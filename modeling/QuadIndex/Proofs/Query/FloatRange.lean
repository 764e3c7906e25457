import QuadIndex.Proofs.Literal.Payload
import QuadIndex.Proofs.Query.ValueRange

/-!
# Ranges of floating-point literals

A floating-point literal is stored as the place of its word among all words, moved up to a number of 64
bits. So a range of such literals holds what lies between its bounds in the order of the words
(`query_floats`): as real numbers compare, with the negative zero directly before the positive one.
-/

namespace QuadIndex

open Bytes Result Reading

/-- The place of the word that a literal denotes. -/
def Meaning.wordRank? : Meaning → Option Int
  | binary x => some x.rank
  | _ => none

namespace LiteralCoding

theorem encode_of_finite {datatype : Iri} {marker : UInt8} {lexical : String} {x : Binary64}
    (read : Binary64.ofText? lexical = some x) (finite : x.isFinite = true) :
    (floating datatype marker).encode lexical = .ok (intPayload x.rank) := by
  simp only [floating, read, finite, if_true, keyPayload_sortKey]

/-- The codings of floating-point numbers. -/
theorem floating_of_mem {c : LiteralCoding} (h : c ∈ [double, float]) :
    ∃ datatype marker, c = floating datatype marker ∧ c ∈ standard ∧
      valueSpace datatype = .binary := by
  rcases List.mem_cons.1 h with rfl | h
  · exact ⟨_, _, rfl, by simp [standard], rfl⟩
  · obtain rfl := List.mem_singleton.1 h
    exact ⟨_, _, rfl, by simp [standard], rfl⟩

theorem rankedBy_floating {datatype : Iri} {marker : UInt8}
    (mem : floating datatype marker ∈ standard) (space : valueSpace datatype = .binary) :
    (floating datatype marker).RankedBy Meaning.wordRank? where
  mem := mem
  cut m := by cases m <;> rfl
  encode {lexical payload} h := by
    obtain ⟨x, read, _, rfl⟩ := encode_floating h
    refine ⟨x.rank, ?_, keyPayload_sortKey x, rank_bounds x⟩
    show ((valueSpace datatype).meaning? lexical).bind Meaning.wordRank? = some x.rank
    rw [space, ValueSpace.meaning?, read]
    rfl

end LiteralCoding

/-- What lies between finite words is finite. -/
theorem Binary64.isFinite_of_between {x y z : Binary64} (hx : x.isFinite = true)
    (hy : y.isFinite = true) (least : x.rank ≤ z.rank) (below : z.rank < y.rank) :
    z.isFinite = true := by
  rw [isFinite, decide_eq_true_eq] at *
  unfold rank at least below
  cases hz : z.negative with
  | true =>
    rw [hz, if_pos rfl] at least
    split at least <;> omega
  | false =>
    rw [hz, if_neg Bool.false_ne_true] at below
    split at below <;> omega

theorem Value.wordRank?_literal {datatype : Iri} (space : valueSpace datatype = .binary)
    (form : String) : (literal datatype form).meaning?.bind Meaning.wordRank? =
      (Binary64.ofText? form).map Binary64.rank := by
  show ((valueSpace datatype).meaning? form).bind Meaning.wordRank? = _
  rw [space, ValueSpace.meaning?]
  cases Binary64.ofText? form <;> rfl

/-- The literals with places between two finite words are those of the words between them. -/
theorem Value.exists_wordRank_iff {datatype : Iri} (space : valueSpace datatype = .binary)
    {v : Value} {x y : Binary64} (hx : x.isFinite = true) (hy : y.isFinite = true) :
    (∃ form n, v = .literal datatype form ∧ v.meaning?.bind Meaning.wordRank? = some n ∧
      x.rank ≤ n ∧ n < y.rank) ↔
    ∃ form z, v = .literal datatype form ∧ Binary64.ofText? form = some z ∧ z.isFinite = true ∧
      ¬ z.Precedes x ∧ z.Precedes y := by
  constructor
  · rintro ⟨form, n, rfl, rank, least, below⟩
    rw [wordRank?_literal space, Option.map_eq_some_iff] at rank
    obtain ⟨z, read, rfl⟩ := rank
    refine ⟨form, z, rfl, read, Binary64.isFinite_of_between hx hy least below, ?_, ?_⟩
    · rw [← Binary64.rank_lt_rank_iff]
      exact Int.not_lt.2 least
    · exact Binary64.rank_lt_rank_iff.1 below
  · rintro ⟨form, z, rfl, read, _, least, below⟩
    rw [← Binary64.rank_lt_rank_iff, Int.not_lt] at least
    refine ⟨form, z.rank, rfl, ?_, least, Binary64.rank_lt_rank_iff.2 below⟩
    rw [wordRank?_literal space, read]
    rfl

namespace Index

/-- A query of a range of floating-point literals below a predicate yields exactly the stored quads
with this predicate whose objects are literals of the same datatype for words that do not come before
the start but before the end, each once. Where neither bound is the positive zero, these are the words
whose numbers are in the range. The query fails only where the predicate has no bytes. -/
theorem query_floats (settings : Settings) (cs : List Change) (p : Iri) {c : LiteralCoding}
    (floating : c ∈ [LiteralCoding.double, LiteralCoding.float]) {a b : String} {x y : Binary64}
    (start : Binary64.ofText? a = some x) (hx : x.isFinite = true)
    (stop : Binary64.ofText? b = some y) (hy : y.isFinite = true) :
    ((∀ name, p.encode ≠ .ok name) → ∃ fault,
      Gives ((standard settings).query ((standard settings).run cs).1
        (.ofLiterals p c.datatype a b)) (.error (.encoding fault))) ∧
    ∀ name, p.encode = .ok name → ∃ (scan : QuadScan) (found : List Quad),
      Gives ((standard settings).query ((standard settings).run cs).1
        (.ofLiterals p c.datatype a b)) (.ok scan) ∧
      scan.drain.1 = found.map .ok ∧ found.Nodup ∧
      (∀ w, w ∈ found ↔ w ∈ ((standard settings).run cs).2 ∧ w.predicate = p ∧ ∃ form z,
        w.object = .literal c.datatype form ∧ Binary64.ofText? form = some z ∧
          z.isFinite = true ∧ ¬ z.Precedes x ∧ z.Precedes y) ∧
      (x ≠ .zero false → y ≠ .zero false →
        ∀ w, w ∈ found ↔ w ∈ ((standard settings).run cs).2 ∧ w.predicate = p ∧ ∃ form z,
          w.object = .literal c.datatype form ∧ Binary64.ofText? form = some z ∧
            z.isFinite = true ∧ x.value ≤ z.value ∧ z.value < y.value) := by
  obtain ⟨datatype, marker, rfl, mem, space⟩ := LiteralCoding.floating_of_mem floating
  obtain ⟨m, n, first, last, refused, answers⟩ := query_ranked settings cs p
    (LiteralCoding.rankedBy_floating mem space) (LiteralCoding.encode_of_finite start hx)
    (LiteralCoding.encode_of_finite stop hy)
  have place {lexical : String} {w : Binary64} {k : Int}
      (read : Binary64.ofText? lexical = some w)
      (given : (Value.literal datatype lexical).meaning?.bind Meaning.wordRank? = some k) :
      k = w.rank := by
    rw [Value.wordRank?_literal space, read] at given
    exact (Option.some.inj given).symm
  obtain rfl := place start first
  obtain rfl := place stop last
  refine ⟨refused, fun name named => ?_⟩
  obtain ⟨scan, found, gives, drained, nodup, members, _⟩ := answers name named
  have found_iff (w : Quad) : w ∈ found ↔ w ∈ ((standard settings).run cs).2 ∧
      w.predicate = p ∧ ∃ form z, w.object = .literal datatype form ∧
        Binary64.ofText? form = some z ∧ z.isFinite = true ∧ ¬ z.Precedes x ∧ z.Precedes y := by
    rw [members]
    exact and_congr_right' (and_congr_right' (Value.exists_wordRank_iff space hx hy))
  refine ⟨scan, found, gives, drained, nodup, found_iff, fun notStart notStop w => ?_⟩
  rw [found_iff]
  simp only [Binary64.precedes_iff_of_ne notStart, Binary64.precedes_iff_of_ne notStop, not_lt]
  rfl

/-- The negative zero is found from itself up to the positive zero. -/
theorem query_floats_zero :
    let q : Quad := ⟨⟨"s"⟩, ⟨"p"⟩, .literal Xsd.double "-0", none⟩
    ∃ scan : QuadScan,
      Gives ((standard {}).query ((standard {}).run [.add [q]]).1
        (.ofLiterals ⟨"p"⟩ Xsd.double "-0" "0")) (.ok scan) ∧
      scan.drain.1 = [.ok q] := by
  intro q
  have stored (v : Quad) : v ∈ ((standard {}).run [.add [q]]).2 ↔ v = q :=
    mem_run_add Registry.standard_lawful Fingerprint.standard_delimited rfl rfl v
  obtain ⟨_, answers⟩ := query_floats {} [.add [q]] ⟨"p"⟩ (c := .double) (by simp)
    (a := "-0") (b := "0") (x := .zero true) (y := .zero false) rfl rfl rfl rfl
  obtain ⟨scan, found, gives, drained, nodup, members, _⟩ := answers _ rfl
  have only (v : Quad) : v ∈ found ↔ v = q := by
    rw [members, stored]
    refine ⟨fun h => h.1, ?_⟩
    rintro rfl
    refine ⟨rfl, rfl, "-0", .zero true, rfl, rfl, rfl, ?_, .inr ⟨rfl, rfl⟩⟩
    rw [← Binary64.rank_lt_rank_iff]
    exact Int.lt_irrefl _
  exact ⟨scan, gives, by rw [drained, eq_singleton_of_nodup nodup only]; rfl⟩

/-- The negative zero is a number from 0 up to 1, but no query finds it there. -/
theorem negative_zero_missed :
    let q : Quad := ⟨⟨"s"⟩, ⟨"p"⟩, .literal Xsd.double "-0", none⟩
    let one : Binary64 := .ofWord 0x3ff0000000000000
    q ∈ ((standard {}).run [.add [q]]).2 ∧
      Binary64.ofText? "0" = some (.zero false) ∧ Binary64.ofText? "1" = some one ∧
      Binary64.ofText? "-0" = some (.zero true) ∧
      (Binary64.zero false).value ≤ (Binary64.zero true).value ∧
      (Binary64.zero true).value < one.value ∧
      ∃ scan : QuadScan,
        Gives ((standard {}).query ((standard {}).run [.add [q]]).1
          (.ofLiterals ⟨"p"⟩ Xsd.double "0" "1")) (.ok scan) ∧
        scan.drain.1 = [] := by
  intro q one
  have stored (v : Quad) : v ∈ ((standard {}).run [.add [q]]).2 ↔ v = q :=
    mem_run_add Registry.standard_lawful Fingerprint.standard_delimited rfl rfl v
  have least : Binary64.ofText? "0" = some (.zero false) := rfl
  have read : Binary64.ofText? "1" = some one := by decide +kernel
  have ranked : LiteralCoding.double.RankedBy Meaning.wordRank? :=
    LiteralCoding.rankedBy_floating (by simp [LiteralCoding.standard, LiteralCoding.double]) rfl
  obtain ⟨m, n, first, _, _, answers⟩ := query_ranked {} [.add [q]] ⟨"p"⟩ ranked
    (LiteralCoding.encode_of_finite least rfl)
    (LiteralCoding.encode_of_finite read rfl)
  obtain rfl : 0 = m := Option.some.inj first
  obtain ⟨scan, found, gives, drained, _, members, _⟩ := answers _ rfl
  have none : found = [] := by
    refine List.eq_nil_iff_forall_not_mem.2 fun w mem => ?_
    obtain ⟨held, _, form, k, _, rank, least, _⟩ := (members w).1 mem
    obtain rfl := (stored w).1 held
    obtain rfl : -1 = k := Option.some.inj rank
    omega
  refine ⟨(stored q).2 rfl, least, read, rfl, ?_, ?_, scan, gives, by rw [drained, none]; rfl⟩
  · rw [← not_lt, Binary64.value_lt_value_iff]
    decide
  · rw [Binary64.value_lt_value_iff]
    decide +kernel

end Index

end QuadIndex
