import ApproxQuery.Schema.Error

/-!
# What can be wrong with a query
-/

namespace ApproxQuery

/-- Why a text is not a condition. -/
inductive ConditionFault where
  | missingAttribute
  | unterminatedList
  | unknownOperator
  | missingValue
deriving DecidableEq, Repr

def ConditionFault.message : ConditionFault → String
  | missingAttribute => "missing attribute"
  | unterminatedList => "unterminated IN list"
  | unknownOperator => "unknown operator"
  | missingValue => "missing value"

inductive QueryError where
  | schema (e : SchemaError)
  | invalidCondition (text : String) (fault : ConditionFault)
  /-- The tables are not reached by the relationships of the query. -/
  | unjoinedTables (names : List String)
deriving DecidableEq, Repr

def QueryError.message : QueryError → String
  | schema e => e.message
  | invalidCondition text fault => "Invalid condition '" ++ text ++ "': " ++ fault.message
  | unjoinedTables names =>
    "Tables not connected by any relationship of the query: " ++ Text.quotedNames names

end ApproxQuery
