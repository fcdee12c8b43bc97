import ApproxQuery.Query.Condition
import ApproxQuery.Sorted.Set

/-!
# Terms

What a density model is asked for: the probability of conditions, the mean of a product of
attributes under conditions, and the mean of a quotient of products times the indicator of
conditions. Lists of attributes and of conditions are read as sets, so terms that differ in order or
repetition match.
-/

namespace ApproxQuery

/-- The two lists have the same members. -/
def sameMembers {α : Type} [BEq α] (xs ys : List α) : Bool :=
  xs.all ys.contains && ys.all xs.contains

/-- The product of attributes. -/
def product (attributes : List AttributeRef) : String :=
  String.intercalate "*" (attributes.map AttributeRef.qualified)

variable {N : Type} [Scalar N]

/-- The condition is on one of the attributes. -/
def filtersOn (groupBy : List AttributeRef) (conditions : List (Condition N)) : Bool :=
  groupBy.any fun a => conditions.any (·.column == a)

/-- The probability of all conditions. -/
structure ProbabilityTerm (N : Type) where
  conditions : List (Condition N)

namespace ProbabilityTerm

def same (s t : ProbabilityTerm N) : Bool :=
  sameMembers s.conditions t.conditions

def text (t : ProbabilityTerm N) : String :=
  "P(" ++ conjunction t.conditions ++ ")"

end ProbabilityTerm

/-- The mean of the product of the features over the product of the normalizers, among the rows that
satisfy the conditions. -/
structure ExpectationTerm (N : Type) where
  features : List AttributeRef
  normalizers : List AttributeRef
  conditions : List (Condition N)
  /-- The tables of the model that evaluates the term. -/
  tables : SortedSet String

namespace ExpectationTerm

def same (s t : ExpectationTerm N) (ignoreModel : Bool) : Bool :=
  sameMembers s.features t.features && sameMembers s.normalizers t.normalizers &&
    sameMembers s.conditions t.conditions && (ignoreModel || s.tables == t.tables)

def text (t : ExpectationTerm N) : String :=
  let normalizers := if t.normalizers = [] then "" else " / (" ++ product t.normalizers ++ ")"
  "E(" ++ product t.features ++ normalizers ++ " | " ++ conjunction t.conditions ++ ")"

end ExpectationTerm

/-- The mean of the numerator over the denominator times the indicator of the conditions, or the
reciprocal of it. -/
structure IndicatorTerm (N : Type) where
  numerator : List AttributeRef
  denominator : List AttributeRef
  conditions : List (Condition N)
  inverse : Bool
  /-- The tables of the model that evaluates the term. -/
  tables : SortedSet String
  /-- Means below the floor are raised to it. -/
  floor : N

namespace IndicatorTerm

/-- The least mean of a join with so many rows. -/
def floorFor (fullJoinSize : N) : N :=
  if Scalar.lt 0 fullJoinSize then 1 / fullJoinSize else 0

def inverted (t : IndicatorTerm N) : IndicatorTerm N :=
  { t with inverse := !t.inverse }

def same (s t : IndicatorTerm N) (ignoreInverse ignoreModel : Bool) : Bool :=
  (ignoreInverse || s.inverse == t.inverse) && sameMembers s.numerator t.numerator &&
    sameMembers s.denominator t.denominator && sameMembers s.conditions t.conditions &&
    (ignoreModel || s.tables == t.tables)

instance : BEq (IndicatorTerm N) := ⟨fun s t => s.same t false false⟩

/-- One term is the reciprocal of the other. -/
def isInverse (s t : IndicatorTerm N) : Bool :=
  s.inverse != t.inverse && s.same t true false

/-- The value of the term for the mean that a model gives; there is none when it would be the
reciprocal of what is not positive. -/
def finish (t : IndicatorTerm N) (mean : N) : Option N :=
  let value := Scalar.max mean t.floor
  if !t.inverse then some value
  else if Scalar.lt 0 value then some (1 / value)
  else none

def text (t : IndicatorTerm N) : String :=
  let sign := if t.inverse then " / E(" else " * E("
  let numerator := if t.numerator = [] then "1" else product t.numerator
  let denominator := if t.denominator = [] then "" else "/" ++ product t.denominator
  let indicator :=
    if t.conditions.isEmpty then "" else " * 1_\x7b" ++ conjunction t.conditions ++ "\x7d"
  sign ++ numerator ++ denominator ++ indicator ++ ")"

end IndicatorTerm

end ApproxQuery
