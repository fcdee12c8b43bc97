import ApproxQuery.Schema.Error
import ApproxQuery.Store.Error

/-!
# What can go wrong in sampling
-/

namespace ApproxQuery

inductive SampleError where
  | schema (e : SchemaError)
  | store (e : StoreError)
  | missingMetadata (table : String)
  | missingKeyColumn (table column : String)
  | emptyRequest
  | incrementalRateOutside (rate : String)
  /-- A row or a table is named that is not there. -/
  | outOfRange
deriving DecidableEq, Repr

def SampleError.message : SampleError → String
  | schema e => e.message
  | store e => e.message
  | missingMetadata table => "No metadata for table " ++ table
  | missingKeyColumn table column =>
    "Key column " ++ column ++ " missing from prepared table " ++ table
  | emptyRequest => "Sample request names no tables"
  | incrementalRateOutside rate =>
    "Incremental rate must lie strictly between 0 and 1, got " ++ rate
  | outOfRange => "Row out of range"

end ApproxQuery
