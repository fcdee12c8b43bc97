import ApproxQuery.Query.ConditionReader
import ApproxQuery.Schema.Basic
import ApproxQuery.Sorted.Map
import ApproxQuery.Sorted.Set

/-!
# Queries

A query is built from the empty one on a schema: tables, relationships to join them along,
conditions to filter by, aggregations and attributes to group by. Whatever is added is checked
against the schema, and an addition that is refused leaves the query as it was.
-/

namespace ApproxQuery

inductive QueryKind where
  | aggregate
  | cardinality
deriving DecidableEq, Repr

inductive AggregateKind where
  | sum
  | avg
  | count
deriving DecidableEq, Repr

structure Aggregation where
  kind : AggregateKind
  /-- The attribute that is aggregated; counting needs none. -/
  feature? : Option AttributeRef
deriving DecidableEq, Repr

/-- What a step of an aggregate expression does: set the sign of the next part, or add a part. -/
inductive AggregateStep where
  | plus
  | minus
  | aggregate
deriving DecidableEq, Repr

structure Query (N : Type) where
  schema : Schema N
  kind : QueryKind
  tables : SortedSet String
  relationships : SortedSet String
  /-- The conditions on each table. -/
  tableConditions : SortedMap String (List (Condition N))
  /-- All conditions, in the order of addition. -/
  conditions : List (Condition N)
  aggregations : List (AggregateStep × Option Aggregation)
  groupBy : List AttributeRef

namespace Query

variable {N : Type} [Scalar N]

def empty (g : Schema N) (kind : QueryKind) : Query N where
  schema := g
  kind := kind
  tables := ∅
  relationships := ∅
  tableConditions := ∅
  conditions := []
  aggregations := []
  groupBy := []

/-- The table of the attribute is known and declares it. -/
def checkColumn (q : Query N) (a : AttributeRef) : Except QueryError Unit := do
  let t ← (q.schema.table a.table).mapError .schema
  if t.declares a.name then .ok () else .error (.schema (.unknownAttribute a.table a.name))

def addTable (q : Query N) (name : String) : Except QueryError (Query N) := do
  let _ ← (q.schema.table name).mapError .schema
  return { q with tables := q.tables.insert name }

def conditionsOn (q : Query N) (table : String) : List (Condition N) :=
  (q.tableConditions.get? table).getD []

/-- Adds a condition, and its table. -/
def addCondition (q : Query N) (c : Condition N) : Except QueryError (Query N) := do
  q.checkColumn c.column
  let table := c.column.table
  return { q with
    tables := q.tables.insert table
    tableConditions := q.tableConditions.insert table (q.conditionsOn table ++ [c])
    conditions := q.conditions ++ [c] }

/-- Adds the condition on a table that a text stands for. -/
def addConditionText (q : Query Float) (table text : String) : Except QueryError (Query Float) := do
  q.addCondition (← Condition.parse table text)

def addGroupBy (q : Query N) (a : AttributeRef) : Except QueryError (Query N) := do
  q.checkColumn a
  return { q with groupBy := q.groupBy ++ [a] }

def addAggregation (q : Query N) (step : AggregateStep) (aggregation? : Option Aggregation) :
    Except QueryError (Query N) := do
  if let some a := aggregation?.bind (·.feature?) then q.checkColumn a
  return { q with aggregations := q.aggregations ++ [(step, aggregation?)] }

/-- Joins along a relationship, which adds both of its tables. -/
def addRelationship (q : Query N) (identifier : String) : Except QueryError (Query N) := do
  let r ← (q.schema.relationship identifier).mapError .schema
  return { q with
    tables := (q.tables.insert r.source).insert r.target
    relationships := q.relationships.insert identifier }

/-- The query for the number of rows of the same join with the same conditions. -/
def toCardinality (q : Query N) : Query N :=
  { q with kind := .cardinality, aggregations := [], groupBy := [] }

end Query

end ApproxQuery
