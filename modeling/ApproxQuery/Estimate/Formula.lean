import ApproxQuery.Estimate.Term

/-!
# Formulas

A formula is a scale times terms. The answer of an aggregate query is a signed sum of formulas.
-/

namespace ApproxQuery

inductive Factor (N : Type) where
  | indicator (t : IndicatorTerm N)
  | expectation (t : ExpectationTerm N)
  | probability (t : ProbabilityTerm N)

namespace Factor

variable {N : Type}

def conditions : Factor N → List (Condition N)
  | indicator t => t.conditions
  | expectation t => t.conditions
  | probability t => t.conditions

variable [Scalar N]

/-- The text of the term. -/
def term : Factor N → String
  | indicator t => t.text
  | expectation t => t.text
  | probability t => t.text

/-- The text of the term behind a sign of multiplication or division. -/
def text : Factor N → String
  | indicator t => t.text
  | f => " * " ++ f.term

/-- The factor has another value for each group. -/
def needsGrouping (f : Factor N) (groupBy : List AttributeRef) : Bool :=
  filtersOn groupBy f.conditions

end Factor

structure Formula (N : Type) where
  scale : N
  factors : List (Factor N)

namespace Formula

variable {N : Type} [Scalar N]

def needsGrouping (f : Formula N) (groupBy : List AttributeRef) : Bool :=
  f.factors.any (·.needsGrouping groupBy)

def text (f : Formula N) : String :=
  Scalar.text f.scale ++ String.join (f.factors.map Factor.text)

end Formula

end ApproxQuery
