import ApproxQuery.Text.Quoted

/-!
# What can be wrong with a schema
-/

namespace ApproxQuery

inductive SchemaError where
  | unknownTable (name : String)
  | unknownAttribute (table name : String)
  | unknownRelationship (identifier : String)
  | duplicateTable (name : String)
  | duplicateRelationship (identifier : String)
  /-- The sampling rate of the table is not above zero and at most one. -/
  | rateOutside (table rate : String)
  /-- No remaining relationship has an end among the joined tables. -/
  | noJoinPath (joined remaining : List String)
deriving DecidableEq, Repr

def SchemaError.message : SchemaError → String
  | unknownTable name => "Unknown table: " ++ name
  | unknownAttribute table name => "Unknown attribute " ++ name ++ " on table " ++ table
  | unknownRelationship identifier => "Unknown relationship: " ++ identifier
  | duplicateTable name => "Table already defined: " ++ name
  | duplicateRelationship identifier => "Relationship already defined: " ++ identifier
  | rateOutside table rate =>
    "Invalid table " ++ table ++ ": sample rate " ++ rate ++ " outside (0, 1]"
  | noJoinPath joined remaining =>
    "No join path: none of " ++ Text.quotedNames remaining ++ " touches the joined tables " ++
      Text.quotedNames joined

end ApproxQuery
