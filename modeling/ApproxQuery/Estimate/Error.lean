import ApproxQuery.Query.Basic

/-!
# What can go wrong in estimating
-/

namespace ApproxQuery

/-- Why an aggregation has no formula. -/
inductive AggregationFault where
  | missingAttribute (kind : AggregateKind)
  | missingFunction
  | noAggregation
deriving DecidableEq, Repr

def AggregateKind.title : AggregateKind → String
  | sum => "Sum"
  | avg => "Avg"
  | count => "Count"

def AggregationFault.message : AggregationFault → String
  | missingAttribute kind => kind.title ++ " without an attribute"
  | missingFunction => "aggregate without a function"
  | noAggregation => "query has no aggregation"

inductive EstimateError where
  | noCoveringModel (tables : List String)
  | model (reason : String)
  | unsupported (fault : AggregationFault)
  /-- The expectation under a fraction line is not positive. -/
  | zeroExpectation (term : String)
  | groupArity (expected found : Nat)
  | schema (e : SchemaError)
  | query (e : QueryError)
deriving DecidableEq, Repr

def EstimateError.message : EstimateError → String
  | noCoveringModel tables => "No model covers tables " ++ Text.quotedNames tables
  | model reason => "Density model error: " ++ reason
  | unsupported fault => "Unsupported aggregation: " ++ fault.message
  | zeroExpectation term => "Expectation in a denominator evaluated to zero:" ++ term
  | groupArity expected found =>
    "Group has " ++ toString found ++ " values, query groups by " ++ toString expected ++
      " attributes"
  | schema e => e.message
  | query e => e.message

end ApproxQuery
