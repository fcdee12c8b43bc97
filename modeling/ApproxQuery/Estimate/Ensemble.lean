import ApproxQuery.Estimate.QueryFormula
import ApproxQuery.Estimate.Memo
import ApproxQuery.Estimate.TermHash

/-!
# Ensembles of models

A query is answered by the smallest model that covers it. The values of indicator terms are shared
through a memo, which an evaluation takes along with the record of what models were asked.
-/

namespace ApproxQuery

/-- A term that a model was asked to evaluate. -/
structure ModelCall (N : Type) where
  model : String
  factor : Factor N

/-- What evaluations remember. -/
structure Ledger (N : Type) where
  memo : TermMemo N
  calls : List (ModelCall N)

namespace Ledger

variable {N : Type} [Scalar N]

def empty (hash : IndicatorTerm N → UInt64) : Ledger N := ⟨.empty hash, []⟩

def standard : Ledger N := empty (·.hash .standard)

def clearMemo (l : Ledger N) : Ledger N := { l with memo := l.memo.clear }

/-- Evaluates one factor; the model is asked for an indicator term only if the memo has no value. -/
def factor (l : Ledger N) (m : DensityModel N) (f : Factor N) : Except EstimateError N × Ledger N :=
  let asked := l.calls ++ [⟨m.name, f⟩]
  match f with
  | .expectation t => ((m.expectation t).mapError .model, { l with calls := asked })
  | .probability t => ((m.probability t).mapError .model, { l with calls := asked })
  | .indicator t =>
    let (r, memo) := l.memo.getOrEvaluate t m.finished
    (r, ⟨memo, if (l.memo.find? t).isSome then l.calls else asked⟩)

end Ledger

/-- A computation that evaluates terms. -/
abbrev Evaluation (N α : Type) := ExceptT EstimateError (StateM (Ledger N)) α

variable {N : Type} [Scalar N]

def Factor.evaluate (f : Factor N) (m : DensityModel N) : Evaluation N N :=
  ExceptT.mk fun l => l.factor m f

def Formula.evaluate (f : Formula N) (m : DensityModel N) : Evaluation N N :=
  f.factors.foldlM (fun value factor => return value * (← factor.evaluate m)) f.scale

/-- The conditions that hold of the rows of a group, given as one value for each attribute. -/
def groupConditions (groupBy : List AttributeRef) (group : List (Value N)) : List (Condition N) :=
  groupBy.zipWith Condition.equals group

/-- The query for one group of its rows. -/
def Query.forGroup (q : Query N) (group : List (Value N)) : Except EstimateError (Query N) :=
  if group.length ≠ q.groupBy.length then .error (.groupArity q.groupBy.length group.length)
  else ((groupConditions q.groupBy group).foldlM Query.addCondition
    { q with groupBy := [] }).mapError .query

structure Ensemble (N : Type) where
  models : List (DensityModel N)

namespace Ensemble

def addModel (e : Ensemble N) (m : DensityModel N) : Ensemble N := ⟨e.models ++ [m]⟩

/-- The model with the fewest tables; of several the first. -/
def smallest? : List (DensityModel N) → Option (DensityModel N)
  | [] => none
  | m :: ms => match smallest? ms with
    | some other => if other.tables.size < m.tables.size then some other else some m
    | none => some m

/-- The smallest model that covers the query. -/
def coveringModel (e : Ensemble N) (q : Query N) : Except EstimateError (DensityModel N) :=
  match smallest? (e.models.filter (·.covers q)) with
  | some m => .ok m
  | none => .error (.noCoveringModel q.tables.toList)

def cardinality (e : Ensemble N) (q : Query N) : Evaluation N N := do
  let m ← e.coveringModel q
  (← q.cardinalityFormula m).evaluate m

def aggregate (e : Ensemble N) (q : Query N) : Evaluation N N := do
  let m ← e.coveringModel q
  let parts ← q.aggregateFormulas m
  parts.foldlM (fun total (sign, f) => return total + sign * (← f.evaluate m)) 0

/-- The aggregate if the query has aggregations, and else its number of rows. -/
def answer (e : Ensemble N) (q : Query N) : Evaluation N N :=
  if q.aggregations.isEmpty then e.cardinality q else e.aggregate q

/-- The answers for the groups, one after another. -/
def answerGrouped (e : Ensemble N) (q : Query N) (groups : List (List (Value N))) :
    Evaluation N (List (List (Value N) × N)) :=
  groups.mapM fun group => return (group, ← e.answer (← q.forGroup group))

/-- The answers of the queries; one that fails does not keep the others from being answered. -/
def answerAll (e : Ensemble N) (qs : List (Query N)) :
    StateM (Ledger N) (List (Except EstimateError N)) :=
  qs.mapM fun q => (e.answer q).run

end Ensemble

end ApproxQuery
