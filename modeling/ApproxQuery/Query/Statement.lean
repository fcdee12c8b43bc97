import ApproxQuery.Query.Basic
import ApproxQuery.Schema.JoinPath

/-!
# Select statements

The statement that asks a database for the join of a query. Its tables follow a join path, so every
join equation links its table to one that stands before it; relationships between tables that are
already joined come first among the filters.
-/

namespace ApproxQuery

structure SelectStatement where
  selected : String
  start : String
  /-- The joined tables, each with the equation that links it to the tables before. -/
  joins : List (String × String)
  filters : List String
deriving DecidableEq, Repr

namespace SelectStatement

def text (s : SelectStatement) : String :=
  let joins := String.join (s.joins.map fun (table, link) => " JOIN " ++ table ++ " ON " ++ link)
  let filters := if s.filters = [] then "" else " WHERE " ++ String.intercalate " AND " s.filters
  "SELECT " ++ s.selected ++ " FROM " ++ s.start ++ joins ++ filters

end SelectStatement

namespace JoinPath

/-- The table that a step joins, and the equation that it is joined on. -/
def joins (p : JoinPath) : List (String × String) :=
  p.steps.filterMap fun step => step.newTable?.map (·, step.relationship)

/-- The equations between tables that are both joined before. -/
def cycles (p : JoinPath) : List String :=
  (p.steps.filter (·.newTable?.isNone)).map (·.relationship)

end JoinPath

namespace Query

variable {N : Type} [Scalar N]

/-- The path along the relationships of a query, or its only table. -/
def joinPath (q : Query N) : Except QueryError JoinPath :=
  match q.relationships.toList with
  | [] => match q.tables.toList with
    | [table] => .ok ⟨table, []⟩
    | tables => .error (.unjoinedTables tables)
  | identifiers => do
    match ← (q.schema.tablesOf identifiers).mapError .schema with
    | [] => .error (.unjoinedTables [])
    | start :: _ => (JoinPath.assemble q.schema start identifiers).mapError .schema

def statement (q : Query N) (selected : String) : Except QueryError SelectStatement := do
  let p ← q.joinPath
  match q.tables.toList.filter (!p.tables.contains ·) with
  | [] => return ⟨selected, p.start, p.joins, p.cycles ++ q.conditions.map Condition.text⟩
  | unjoined => .error (.unjoinedTables unjoined)

end Query

end ApproxQuery
