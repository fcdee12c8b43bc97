import ApproxQuery.Query.Basic

/-!
# Queries that are built in place

A query as it is held while it is built. A call checks what it adds first, and then changes the parts
of the query one after another; it has the effect of the addition of the same name, which is proved
in the theory of built queries.
-/

namespace ApproxQuery

/-- Changes made before a refusal stay made. -/
abbrev QueryUpdate (N α : Type) := ExceptT QueryError (StateM (Query N)) α

namespace QueryUpdate

variable {N : Type} [Scalar N]

/-- Refuses an attribute that its table does not declare. -/
def checkColumn (a : AttributeRef) : QueryUpdate N Unit := do
  let t ← ((← get).schema.table a.table).mapError QueryError.schema
  if !t.declares a.name then
    throw (.schema (.unknownAttribute a.table a.name))

def addTable (name : String) : QueryUpdate N Unit := do
  let _ ← ((← get).schema.table name).mapError QueryError.schema
  modify fun q => { q with tables := q.tables.insert name }

def addCondition (c : Condition N) : QueryUpdate N Unit := do
  checkColumn c.column
  let table := c.column.table
  modify fun q => { q with tables := q.tables.insert table }
  modify fun q =>
    { q with tableConditions := q.tableConditions.insert table (q.conditionsOn table ++ [c]) }
  modify fun q => { q with conditions := q.conditions ++ [c] }

def addConditionText (table text : String) : QueryUpdate Float Unit := do
  addCondition (← Condition.parse table text)

def addGroupBy (a : AttributeRef) : QueryUpdate N Unit := do
  checkColumn a
  modify fun q => { q with groupBy := q.groupBy ++ [a] }

def addAggregation (step : AggregateStep) (aggregation? : Option Aggregation) :
    QueryUpdate N Unit := do
  if let some a := aggregation?.bind (·.feature?) then
    checkColumn a
  modify fun q => { q with aggregations := q.aggregations ++ [(step, aggregation?)] }

def addRelationship (identifier : String) : QueryUpdate N Unit := do
  let r ← ((← get).schema.relationship identifier).mapError QueryError.schema
  modify fun q => { q with tables := q.tables.insert r.source }
  modify fun q => { q with tables := q.tables.insert r.target }
  modify fun q => { q with relationships := q.relationships.insert identifier }

end QueryUpdate

/-- A call that adds something to a query. -/
inductive QueryCall where
  | addTable (name : String)
  | addCondition (c : Condition Float)
  | addConditionText (table text : String)
  | addGroupBy (a : AttributeRef)
  | addAggregation (step : AggregateStep) (aggregation? : Option Aggregation)
  | addRelationship (identifier : String)

namespace QueryCall

def update : QueryCall → QueryUpdate Float Unit
  | addTable name => QueryUpdate.addTable name
  | addCondition c => QueryUpdate.addCondition c
  | addConditionText table text => QueryUpdate.addConditionText table text
  | addGroupBy a => QueryUpdate.addGroupBy a
  | addAggregation step aggregation? => QueryUpdate.addAggregation step aggregation?
  | addRelationship identifier => QueryUpdate.addRelationship identifier

/-- The answer to the call, and the query after it. -/
def run (call : QueryCall) (q : Query Float) : Except QueryError Unit × Query Float :=
  call.update.run.run q

/-- The query after calls on the empty one, refused calls included. -/
def after (g : Schema Float) (kind : QueryKind) (calls : List QueryCall) : Query Float :=
  calls.foldl (fun q call => (call.run q).2) (.empty g kind)

end QueryCall

end ApproxQuery
