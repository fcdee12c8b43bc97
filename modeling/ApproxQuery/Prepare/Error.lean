import ApproxQuery.Schema.Error
import ApproxQuery.Store.Error

/-!
# What can go wrong in preparation
-/

namespace ApproxQuery

/-- Why a multiplier cannot be computed. -/
inductive KeyProblem where
  | notSinglePrimaryKey
  | notPrimaryKeyReference
deriving DecidableEq, Repr

def KeyProblem.message : KeyProblem → String
  | notSinglePrimaryKey => "only single primary keys are supported"
  | notPrimaryKeyReference => "only primary key references are supported"

inductive PreparationError where
  | schema (e : SchemaError)
  | store (e : StoreError)
  | missingTable (table : String)
  | columnNotFound (table column : String)
  | rowWidth (expected found : Nat)
  /-- Two rows agree on the determinant's value and differ on the dependent. -/
  | dependencyViolated (table determinant dependent value existing conflicting : String)
  | sentinelCollision (table column sentinel : String)
  | nonFinite (table column : String)
  | unsupportedRelationship (identifier : String) (problem : KeyProblem)
  /-- A table has no data at a place that is asked for, or a code that is no number. -/
  | outOfRange (table : String)
  /-- The computation has no result: it would go on for ever. -/
  | endless (table column : String)
deriving DecidableEq, Repr

def PreparationError.message : PreparationError → String
  | schema e => e.message
  | store e => e.message
  | missingTable table => "Raw data for table " ++ table ++ " not available"
  | columnNotFound table column => "Column " ++ column ++ " not found in table " ++ table
  | rowWidth expected found =>
    "Row has " ++ toString found ++ " values, expected " ++ toString expected
  | dependencyViolated table determinant dependent value existing conflicting =>
    "Functional dependency " ++ determinant ++ " -> " ++ dependent ++ " violated in " ++ table ++
      ": " ++ value ++ " maps to both " ++ existing ++ " and " ++ conflicting
  | sentinelCollision table column sentinel =>
    "Null sentinel " ++ sentinel ++ " of " ++ column ++ " in " ++ table ++
      " collides with an existing value"
  | nonFinite table column =>
    "Column " ++ column ++ " of " ++ table ++ " holds values without a finite encoding"
  | unsupportedRelationship identifier problem =>
    "Unsupported relationship " ++ identifier ++ ": " ++ problem.message
  | outOfRange table => "Table " ++ table ++ " has no data at the given place"
  | endless table column => "Column " ++ column ++ " of " ++ table ++ " has no finite resolution"

end ApproxQuery
