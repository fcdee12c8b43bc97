import ApproxQuery.Estimate.Error
import ApproxQuery.Estimate.Term

/-!
# Density models

A density model describes the distribution of the rows of one join. It evaluates terms on that join,
without floors and reciprocals, and may fail with a reason.
-/

namespace ApproxQuery

structure DensityModel (N : Type) where
  name : String
  /-- The number of rows of the join. -/
  fullJoinSize : N
  tables : SortedSet String
  relationships : SortedSet String
  indicator : IndicatorTerm N → Except String N
  expectation : ExpectationTerm N → Except String N
  probability : ProbabilityTerm N → Except String N

namespace DensityModel

variable {N : Type} [Scalar N]

/-- The model spans the tables and the relationships of the query. -/
def covers (m : DensityModel N) (q : Query N) : Bool :=
  q.tables.subset m.tables && q.relationships.subset m.relationships

/-- The value of an indicator term, with its floor and as a reciprocal if it is one. -/
def finished (m : DensityModel N) (t : IndicatorTerm N) : Except EstimateError N := do
  let mean ← (m.indicator t).mapError .model
  match t.finish mean with
  | some value => .ok value
  | none => .error (.zeroExpectation t.text)

end DensityModel

end ApproxQuery
