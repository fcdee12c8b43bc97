import ApproxQuery.Estimate.Formula
import ApproxQuery.Estimate.Model

/-!
# Formulas of queries

The formula that answers a query on a model. A model of more tables than the query has rows repeated
for every row that references them from outside of the query, which the multipliers of those
relationships divide out; and it has rows without some table of the query, which the conditions on
the null indicators leave out.
-/

namespace ApproxQuery

/-- The tables reached from a query, and the multipliers met on the way. -/
structure FanOutWalk where
  reached : SortedSet String
  multipliers : List AttributeRef
deriving DecidableEq

namespace FanOutWalk

variable {N : Type} [Scalar N]

/-- One round over the relationships. One that leads to a new table is followed, one between reached
tables is dropped, and the others stay. -/
def round (g : Schema N) (w : FanOutWalk) :
    List String → Except SchemaError (FanOutWalk × List String)
  | [] => .ok (w, [])
  | identifier :: rest => do
    let r ← g.relationship identifier
    match decide (r.source ∈ w.reached), decide (r.target ∈ w.reached) with
    | false, true =>
      round g ⟨w.reached.insert r.source, w.multipliers ++ [r.definedMultiplier]⟩ rest
    | true, false => round g { w with reached := w.reached.insert r.target } rest
    | true, true => round g w rest
    | false, false => return (← round g w rest).map id (identifier :: ·)

/-- Rounds until no relationship is left or none leads to a new table, in as many rounds as there are
relationships. -/
def run (g : Schema N) : Nat → FanOutWalk → List String → Except SchemaError FanOutWalk
  | 0, w, _ => .ok w
  | rounds + 1, w, pending => do
    let (next, left) ← round g w pending
    if next.reached = w.reached ∨ left = [] then return next
    else run g rounds next left

end FanOutWalk

namespace Query

variable {N : Type} [Scalar N]

/-- The multipliers of the relationships that repeat the rows of the query in the model's join. -/
def normalizers (q : Query N) (m : DensityModel N) : Except SchemaError (List AttributeRef) := do
  let ids := m.relationships.toList
  return (← FanOutWalk.run q.schema ids.length ⟨q.tables, []⟩ ids).multipliers

/-- The row holds the table. -/
def presence (q : Query N) (table : String) : Except SchemaError (Condition N) := do
  return .equals ⟨table, (← q.schema.table table).nullIndicator⟩ (.int 0)

/-- The conditions of the query, and the presence of all its tables where some may be missing. -/
def termConditions (q : Query N) (m : DensityModel N) : Except SchemaError (List (Condition N)) := do
  if m.tables.size ≤ 1 then return q.conditions
  return q.conditions ++ (← q.tables.toList.mapM q.presence)

/-- The indicator term of a numerator, with the multipliers and conditions of the query. -/
def indicatorTerm (m : DensityModel N) (numerator denominator : List AttributeRef)
    (conditions : List (Condition N)) : IndicatorTerm N where
  numerator := numerator
  denominator := denominator
  conditions := conditions
  inverse := false
  tables := m.tables
  floor := IndicatorTerm.floorFor m.fullJoinSize

def checkCovered (q : Query N) (m : DensityModel N) : Except EstimateError Unit :=
  if m.covers q then .ok () else .error (.noCoveringModel q.tables.toList)

/-- The number of rows of the query: the size of the model's join times a probability, or times the
mean of the reciprocal multipliers where the conditions hold. -/
def cardinalityFormula (q : Query N) (m : DensityModel N) : Except EstimateError (Formula N) := do
  q.checkCovered m
  if m.tables.size = 1 then return ⟨m.fullJoinSize, [.probability ⟨q.conditions⟩]⟩
  let denominator ← (q.normalizers m).mapError .schema
  let conditions ← (q.termConditions m).mapError .schema
  return ⟨m.fullJoinSize, [.indicator (indicatorTerm m [] denominator conditions)]⟩

def sumFormula (m : DensityModel N) (feature : AttributeRef) (denominator : List AttributeRef)
    (conditions : List (Condition N)) : Formula N :=
  ⟨m.fullJoinSize, [.indicator (indicatorTerm m [feature] denominator conditions)]⟩

/-- A mean under conditions when no row is repeated, and else the quotient of sum and count. -/
def avgFormula (m : DensityModel N) (feature : AttributeRef) (denominator : List AttributeRef)
    (conditions : List (Condition N)) : Formula N :=
  if denominator = [] then ⟨1, [.expectation ⟨[feature], [], conditions, m.tables⟩]⟩
  else ⟨1, [.indicator (indicatorTerm m [feature] denominator conditions),
    .indicator (indicatorTerm m [] denominator conditions).inverted]⟩

/-- The formula of an aggregation of an attribute. -/
def featureFormula (q : Query N) (m : DensityModel N) (feature : AttributeRef)
    (formula : List AttributeRef → List (Condition N) → Formula N) :
    Except EstimateError (Formula N) := do
  if feature.table ∉ m.tables then throw (.noCoveringModel [feature.table])
  let denominator ← (q.normalizers m).mapError .schema
  let conditions ← (q.termConditions m).mapError .schema
  return formula denominator conditions

def aggregationFormula (q : Query N) (m : DensityModel N) (a : Aggregation) :
    Except EstimateError (Formula N) := do
  q.checkCovered m
  match a.kind, a.feature? with
  | .count, _ => q.cardinalityFormula m
  | .sum, some feature => q.featureFormula m feature (sumFormula m feature)
  | .avg, some feature => q.featureFormula m feature (avgFormula m feature)
  | kind, none => .error (.unsupported (.missingAttribute kind))

/-- The signed formulas of the aggregations, the next one with the given sign. -/
def signedFormulas (q : Query N) (m : DensityModel N) :
    N → List (AggregateStep × Option Aggregation) → Except EstimateError (List (N × Formula N))
  | _, [] => .ok []
  | _, (.plus, _) :: steps => signedFormulas q m 1 steps
  | _, (.minus, _) :: steps => signedFormulas q m (0 - 1) steps
  | _, (.aggregate, none) :: _ => .error (.unsupported .missingFunction)
  | sign, (.aggregate, some a) :: steps => do
    let formula ← q.aggregationFormula m a
    return (sign, formula) :: (← signedFormulas q m 1 steps)

/-- The signed formulas whose sum answers an aggregate query. -/
def aggregateFormulas (q : Query N) (m : DensityModel N) :
    Except EstimateError (List (N × Formula N)) := do
  match ← q.signedFormulas m 1 q.aggregations with
  | [] => .error (.unsupported .noAggregation)
  | parts => return parts

end Query

end ApproxQuery
