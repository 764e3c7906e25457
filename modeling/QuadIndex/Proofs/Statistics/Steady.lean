import QuadIndex.Plan.Estimate
import QuadIndex.Proofs.Store.Reading
import QuadIndex.Statistics.Stored

/-!
# Steady sources

A source that reads is steady if what it answers does not depend on how many scans have been opened
and closed before. Stored statistics are, even in a store that fails, and the estimate of every plan
is as steady as its source.
-/

namespace QuadIndex

open Reading

/-- The source gives one answer to each question. -/
structure StatisticsSource.Steady (source : StatisticsSource Reading) : Prop where
  cardinality (kind : CardinalityKind) (values : List Value) :
    (source.cardinality kind values).Steady
  tableSize : source.tableSize.Steady
  joinSelectivity (a b : Iri) : (source.joinSelectivity a b).Steady

namespace Store

theorem close_steady (c : Cursor) : c.close.Steady := by
  rw [Cursor.close]
  refine Steady.bind ⟨_, .modify _⟩ fun _ => ?_
  split
  · exact .throw _
  · exact .pure _

theorem scan_steady (s : Store) (table : String) (range : ByteRange)
    (filter : Option KeyExpression) {known : Regex.Properties} :
    (s.scan table range filter known).Steady := by
  unfold scan
  extract_lets faults opened
  have rest (entries : List (Bytes × Bytes)) : (opened entries).Steady := by
    simp only [opened]
    split
    · exact Steady.bind (.throw _) fun _ => Steady.bind ⟨_, .modify _⟩ fun _ => .pure _
    · exact Steady.bind ⟨_, .modify _⟩ fun _ => .pure _
  split
  · exact Steady.bind (.pure _) rest
  · split
    · exact Steady.bind (.pure _) rest
    · exact Steady.bind (.lift _) fun r => Steady.bind (.pure _) rest

theorem get?_steady (s : Store) (table : String) (key : Bytes) : (s.get? table key).Steady := by
  rw [get?]
  refine (s.scan_steady _ _ _).bind fun cursor => ?_
  split
  · exact .bind ⟨_, .passOver _⟩ fun _ => .throw _
  · exact (close_steady _).bind fun _ => .pure _
  · exact (close_steady _).bind fun _ => .pure _

end Store

theorem Index.storedWord?_steady (ix : Index) (store : Store) (key : Bytes) :
    (ix.storedWord? store key).Steady := by
  rw [storedWord?]
  refine (store.get?_steady _ _).bind fun value => ?_
  split
  · exact .pure _
  · split
    · exact .pure _
    · exact .throw _

theorem Index.storedStatistics_steady (ix : Index) (store : Store) :
    (ix.storedStatistics store).Steady where
  cardinality _ _ :=
    Steady.bind (.lift _) fun key => ix.storedWord?_steady store key
  tableSize := ix.storedWord?_steady store sizeKey
  joinSelectivity _ _ :=
    Steady.bind (.lift _) fun key => (ix.storedWord?_steady store key).bind fun _ => .pure _

section Estimates

variable {source : StatisticsSource Reading} (steady : source.Steady)

include steady

theorem StatisticsSource.patternSize_steady (p : Pattern) : (source.patternSize p).Steady := by
  have size : source.size.Steady := steady.tableSize.bind fun _ => .pure _
  have count : (source.count p).Steady := by
    rw [StatisticsSource.count]
    split
    · exact .pure _
    · refine (steady.cardinality _ _).bind fun found => ?_
      split
      · exact .pure _
      · exact .pure _
  rw [patternSize]
  refine count.bind fun n => ?_
  split
  · exact size
  · exact .pure _

theorem StatisticsSource.selectivity_steady (left right : Plan) :
    (source.selectivity left right).Steady := by
  rw [selectivity]
  refine Steady.bind (.foldlM fun best pair => ?_) fun _ => .pure _
  refine (steady.joinSelectivity _ _).bind fun found => ?_
  split
  · exact .pure _
  · exact .pure _

/-- The estimate of a plan is steady. -/
theorem StatisticsSource.planSize_steady (p : Plan) : (source.planSize p).Steady := by
  induction p with
  | pattern p => exact source.patternSize_steady steady p
  | filter c input ih => exact ih.bind fun _ => .pure _
  | join left right ihl ihr =>
    exact ihl.bind fun _ => ihr.bind fun _ =>
      (source.selectivity_steady steady left right).bind fun _ => .pure _

end Estimates

end QuadIndex
